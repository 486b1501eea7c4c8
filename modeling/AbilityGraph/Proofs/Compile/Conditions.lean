import AbilityGraph.Proofs.Compile.Lookups
import AbilityGraph.Proofs.Compile.Lossless
import AbilityGraph.Proofs.Compile.Values

/-!
# The conditions of branches

The walk puts the constant into a branch that comes first at an input, and does not look at types.
With the built-in catalog, an input of a branch takes one data edge, and its type is that of
booleans. So if a graph is compiled without errors, then every constant that a branch decides by is
a boolean, and a branch decides by a constant just if an edge joins one to its input
(`Graph.compile_conditions_boolean`).
-/

set_option autoImplicit false

namespace AbilityGraph

/-! ## Conditions and inputs -/

namespace Graph

/-- The data edges that arrive at a pin, in the order of the graph. -/
def dataInto (graph : Graph) (pin : PinRef) : List Edge :=
  (graph.edgesInto pin).filter (·.kind == .data)

/-- The source that counts at an input is that of the first data edge that arrives there. -/
theorem dataSource?_eq (graph : Graph) (nodeId pinId : String) :
    graph.dataSource? nodeId pinId =
      (graph.dataInto ⟨nodeId, pinId⟩).head?.map (·.source.nodeId) := by
  rw [dataSource?, dataInto, List.head?_filter]

/-- The node with an id gives a constant. -/
def GivesConstant (catalog : Catalog) (graph : Graph) (nodeId : String) : Prop :=
  ∃ node definition name, graph.node? nodeId = some node ∧
    catalog.lookup? node.nodeType = some definition ∧ definition.lowering = .literal name

end Graph

namespace Walk

variable {walk : Walk} {nodeId pinId : String}

/-- Where no data edge arrives, the condition always holds. -/
theorem conditionAt_of_no_edge (h : walk.graph.dataInto ⟨nodeId, pinId⟩ = []) :
    walk.conditionAt nodeId pinId = .always := by
  unfold conditionAt
  rw [Graph.dataSource?_eq, h]
  rfl

/-- Where the first data edge comes from a node that gives no constant, the condition always
holds. -/
theorem conditionAt_of_no_constant {e : Edge} {others : List Edge}
    (h : walk.graph.dataInto ⟨nodeId, pinId⟩ = e :: others)
    (hnot : ¬walk.graph.GivesConstant walk.catalog e.source.nodeId) :
    walk.conditionAt nodeId pinId = .always := by
  cases hcondition : walk.conditionAt nodeId pinId with
  | always => rfl
  | literal value =>
    refine absurd ?_ hnot
    unfold conditionAt at hcondition
    rw [Graph.dataSource?_eq, h] at hcondition
    dsimp only at hcondition
    split at hcondition
    next found hfound =>
      rw [List.head?_cons, Option.map_some, Option.bind_eq_bind, Option.bind_some] at hfound
      obtain ⟨node, hnode, hdefinitions⟩ := Option.bind_eq_some_iff.1 hfound
      obtain ⟨definition, hlookup, hvalue⟩ := Option.bind_eq_some_iff.1 hdefinitions
      split at hvalue
      next name hlowering => exact ⟨node, definition, name, hnode, hlookup, hlowering⟩
      next => cases hvalue
    next => cases hcondition

/-- Where the first data edge comes from a node that gives a constant, the condition is the value of
this node. -/
theorem conditionAt_of_constant {e : Edge} {others : List Edge} {source : Node}
    {definition : Definition} {name : String} {value : Value}
    (h : walk.graph.dataInto ⟨nodeId, pinId⟩ = e :: others)
    (hsource : walk.graph.node? e.source.nodeId = some source)
    (hlookup : walk.catalog.lookup? source.nodeType = some definition)
    (hlowering : definition.lowering = .literal name)
    (hvalue : definition.fieldValue? source.config name = some value) :
    walk.conditionAt nodeId pinId = .literal value := by
  unfold conditionAt
  rw [Graph.dataSource?_eq, h]
  simp only [List.head?_cons, Option.map_some, bind, Option.bind_some, hsource, hlookup, hlowering,
    hvalue]

/-- The conditions of the step that a node becomes are those at the inputs that its lowering
names. -/
theorem exists_conditions_of_becomes {node : Node} {step : Step} (h : walk.Becomes node step) :
    ∃ definition, walk.catalog.lookup? node.nodeType = some definition ∧
      step.conditions =
        (definition.conditionInputs node.config).map (walk.conditionAt node.id) := by
  obtain ⟨definition, hlookup, hown⟩ := Option.bind_eq_some_iff.1 h
  refine ⟨definition, hlookup, ?_⟩
  rw [← step.conditions_bare]
  unfold Definition.conditionInputs
  cases hlowering : definition.lowering with
  | step type fields next =>
    rw [hlowering] at hown
    rw [← Option.some.inj hown]
    rfl
  | branch type condition thenOut elseIf elseOut next =>
    rw [hlowering] at hown
    rw [← Option.some.inj hown]
    cases elseIf <;> simp [Step.conditions, clauseOutputs]
  | entry next => simp [hlowering] at hown
  | literal field => simp [hlowering] at hown
  | data => simp [hlowering] at hown

end Walk

/-! ## Built-in constants and branches -/

namespace Definition

/-- A field with a default has a value under every config. -/
theorem exists_fieldValue? {definition : Definition} {name : String} {field : ConfigField}
    {default : Value} (hfield : definition.schema.get? name = some field)
    (hdefault : field.default = some default) (config : Config) :
    ∃ value, definition.fieldValue? config name = some value := by
  unfold fieldValue?
  split
  next value hvalue => exact ⟨value, rfl⟩
  next hnone => exact ⟨default, by rw [hfield, Option.bind_some, hdefault]⟩

end Definition

namespace Builtin

/-- A config field for booleans. -/
def flagField : ConfigField := fieldWithDefault .boolean (.bool false)

/-- The only constants that may flow into a pin for booleans are booleans. -/
theorem field_of_boolean_constant {definition : Definition}
    (hmem : definition ∈ Catalog.builtin.definitions) {name : String}
    (hlowering : definition.lowering = .literal name) {count : Nat} {pin : Pin}
    (hpin : pin ∈ definition.pinsWithSlots count)
    (htype : DataType.compatible pin.dataType (some (.single "boolean")) = true) :
    definition.schema.get? name = some flagField := by
  simp only [Catalog.builtin, actions, constants, valueNodes, List.cons_append, List.nil_append,
    List.mem_cons, List.not_mem_nil, or_false] at hmem
  rcases hmem with rfl | rfl | rfl | rfl | rfl | rfl | rfl | rfl | rfl | rfl | rfl | rfl
  all_goals cases hlowering
  · rfl
  all_goals
    rw [Definition.pinsWithSlots_of_no_slots rfl] at hpin
    rw [List.mem_singleton.1 hpin] at htype
    exact absurd htype (by decide)

/-- Every value that a boolean field with a boolean default supplies is a boolean. -/
theorem exists_bool_of_supplies {definition : Definition} {config : Config} {name : String}
    {value : Value} (hfield : definition.schema.get? name = some flagField)
    (h : definition.Supplies config name value) : ∃ b, value = .bool b := by
  cases h with
  | set hown hset hnull haccepts =>
    rw [hfield] at hown
    cases hown
    have htype := haccepts.type
    obtain ⟨tree, hnormal⟩ := value
    cases tree with
    | bool b => exact ⟨b, rfl⟩
    | null => cases htype
    | number number => cases htype
    | string text => cases htype
    | array items => cases htype
    | object members => cases htype
  | default hown hunset hdefault =>
    rw [hfield] at hown
    cases hown
    exact ⟨false, (Option.some.inj hdefault).symm⟩

/-- The inputs of a branch for values are for booleans, and each takes one edge. -/
theorem pin_of_branch {count : Nat} {pin : Pin} (hpin : pin ∈ branch.pinsWithSlots count)
    (hkind : pin.kind = .data) :
    pin.dataType = some (.single "boolean") ∧ pin.capacity = some 1 := by
  rcases List.mem_append.1 hpin with hpin | hpin
  · simp only [branch, List.mem_cons, List.not_mem_nil, or_false] at hpin
    rcases hpin with rfl | rfl | rfl | rfl | rfl
    · cases hkind
    · exact ⟨rfl, rfl⟩
    · cases hkind
    · cases hkind
    · cases hkind
  · obtain ⟨index, -, hpin⟩ := List.mem_flatMap.1 hpin
    obtain ⟨template, htemplate, rfl⟩ := List.mem_map.1 hpin
    simp only [List.mem_cons, List.not_mem_nil, or_false] at htemplate
    rcases htemplate with rfl | rfl
    · exact ⟨rfl, rfl⟩
    · cases hkind

/-- A condition is looked for at an input for booleans that takes one edge. -/
theorem Shape.exists_condition_pin {definition : Definition} (h : Shape definition)
    {config : Config} {pins : List Pin} (hpins : definition.materialize config = .ok pins)
    {pinId : String} (hinput : pinId ∈ definition.conditionInputs config) :
    ∃ pin, Pin.find? pins pinId = some pin ∧ pin.kind = .data ∧ pin.direction = .input ∧
      pin.dataType = some (.single "boolean") ∧ pin.capacity = some 1 := by
  cases h with
  | branch =>
    have hcheck : Builtin.branch.checkLowering = .ok () := by
      decide +kernel
    obtain ⟨-, hfinds⟩ := Definition.finds_of_checkLowering hpins hcheck
    obtain ⟨pin, hfind, hkind, hdirection⟩ := hfinds pinId hinput
    obtain ⟨rfl, -⟩ := Definition.instantiate_eq_ok_iff.1 hpins
    exact ⟨pin, hfind, hkind, hdirection, pin_of_branch (Pin.mem_of_find? hfind).1 hkind⟩
  | start => cases hinput
  | action nodeType label stepType fields => cases hinput
  | constant nodeType label dataType field => cases hinput
  | valueNode nodeType label field declared pins hnodup hdata => cases hinput

end Builtin

/-! ## Compilation -/

namespace Graph

section WellFormed

variable {graph : Graph} (h : graph.WellFormed .builtin) {node : Node} (hnode : node ∈ graph.nodes)
  {definition : Definition} (hlookup : Catalog.builtin.lookup? node.nodeType = some definition)
  {pinId : String} (hinput : pinId ∈ definition.conditionInputs node.config)

include h hnode hlookup hinput

/-- A condition is looked for at an input for booleans at which at most one data edge arrives. -/
theorem WellFormed.exists_condition_pin :
    ∃ pin, graph.Resolves .builtin ⟨node.id, pinId⟩ pin ∧
      pin.dataType = some (.single "boolean") ∧
        (graph.dataInto ⟨node.id, pinId⟩).length ≤ 1 := by
  have hshape := Builtin.shape_of_mem (Catalog.mem_of_lookup? hlookup).1
  obtain ⟨pins, hmaterialize⟩ := hshape.materialize node.config
  have hpins := Catalog.pinsOf?_eq_some_iff.2 ⟨definition, hlookup, hmaterialize⟩
  obtain ⟨pin, hfind, hkind, hdirection, htype, hcapacity⟩ :=
    hshape.exists_condition_pin hmaterialize hinput
  obtain ⟨hpin, hid⟩ := Pin.mem_of_find? hfind
  have hcount := h.capacity node hnode pins hpins pin hpin hdirection 1 hcapacity
  rw [inboundCount, hkind, hid] at hcount
  exact ⟨pin, ⟨node, pins, node?_eq_some_of_mem h.nodeIds hnode, hpins, hfind⟩, htype, hcount⟩

/-- A constant that is joined to the input of a condition is a boolean. -/
theorem WellFormed.exists_bool_of_constant {e : Edge} {others : List Edge}
    (hinto : graph.dataInto ⟨node.id, pinId⟩ = e :: others)
    (hgives : graph.GivesConstant .builtin e.source.nodeId) :
    ∃ b, Walk.conditionAt ⟨.builtin, graph⟩ node.id pinId = .literal (.bool b) := by
  obtain ⟨source, constant, name, hsource, hconstant, hlowering⟩ := hgives
  obtain ⟨hmem, hkind⟩ := List.mem_filter.1 (hinto ▸ List.mem_cons_self : e ∈ graph.dataInto _)
  obtain ⟨he, htarget⟩ := List.mem_filter.1 hmem
  have hkind : e.kind = .data := by simpa using hkind
  have htarget : e.target = ⟨node.id, pinId⟩ := by simpa using htarget
  obtain ⟨sourcePin, targetPin, hasSource, hasTarget, hjoins⟩ := h.edges e he
  -- The pin at the end of the edge is the one at which the condition is looked for.
  obtain ⟨pin, hpin, htype, -⟩ := h.exists_condition_pin hnode hlookup hinput
  have hresolves := (hasPin_iff_resolves h.nodeIds _ _).1 hasTarget
  rw [htarget] at hresolves
  have hcompatible := hjoins.dataType hkind
  rw [hresolves.unique hpin, htype] at hcompatible
  obtain ⟨found, pins, hfound, hpins, hfind⟩ := (hasPin_iff_resolves h.nodeIds _ _).1 hasSource
  rw [hsource] at hfound
  cases hfound
  obtain ⟨own, hown, hmaterialize⟩ := Catalog.pinsOf?_eq_some_iff.1 hpins
  rw [hconstant] at hown
  cases hown
  obtain ⟨rfl, -⟩ := Definition.instantiate_eq_ok_iff.1 hmaterialize
  have hfield := Builtin.field_of_boolean_constant (Catalog.mem_of_lookup? hconstant).1 hlowering
    (Pin.mem_of_find? hfind).1 hcompatible
  obtain ⟨value, hvalue⟩ := Definition.exists_fieldValue? hfield rfl source.config
  have hdeclared : constant.schema.contains name = true := by
    rw [FieldMap.contains, hfield]
    rfl
  have hconfig := h.config source (List.mem_of_find?_eq_some hsource) constant hconstant
  obtain ⟨b, rfl⟩ := Builtin.exists_bool_of_supplies hfield
    (Definition.supplies_of_fieldValue? hdeclared hconfig hvalue)
  exact ⟨b, Walk.conditionAt_of_constant hinto hsource hconstant hlowering hvalue⟩

/-- The condition that is found at an input is a boolean, or it always holds, just if no edge joins
a constant to the input. -/
theorem WellFormed.conditionAt_spec :
    (∀ value, Walk.conditionAt ⟨.builtin, graph⟩ node.id pinId = .literal value →
      ∃ b, value = .bool b) ∧
    (Walk.conditionAt ⟨.builtin, graph⟩ node.id pinId = .always ↔
      graph.dataInto ⟨node.id, pinId⟩ = [] ∨
        ∃ e, graph.dataInto ⟨node.id, pinId⟩ = [e] ∧
          ¬graph.GivesConstant .builtin e.source.nodeId) := by
  obtain ⟨-, -, -, hcount⟩ := h.exists_condition_pin hnode hlookup hinput
  cases hinto : graph.dataInto ⟨node.id, pinId⟩ with
  | nil =>
    rw [Walk.conditionAt_of_no_edge hinto]
    simp
  | cons e others =>
    rw [hinto, List.length_cons] at hcount
    obtain rfl : others = [] := List.eq_nil_of_length_eq_zero (by omega)
    by_cases hgives : graph.GivesConstant .builtin e.source.nodeId
    · obtain ⟨b, hcondition⟩ := h.exists_bool_of_constant hnode hlookup hinput hinto hgives
      rw [hcondition]
      constructor
      · rintro value ⟨⟩
        exact ⟨b, rfl⟩
      · simpa using hgives
    · rw [Walk.conditionAt_of_no_constant hinto hgives]
      simpa using hgives

end WellFormed

/-- If a graph is compiled without errors, then it is well formed, with the types of the catalog. -/
theorem wellFormed_of_compile {catalog : Catalog} {graph : Graph} {aliases : TypeAliases}
    {compiled : Compiled} {definition : Definition} {next : String}
    (hlookup : catalog.lookup? catalog.startType = some definition)
    (hentry : definition.lowering = .entry next)
    (hcompile : graph.compile catalog aliases = .ok compiled)
    (hnone : compiled.hasErrors = false) : (graph.resolveAliases aliases).WellFormed catalog := by
  obtain ⟨hvalidate, -⟩ := compile_eq_ok_iff.1 hcompile
  obtain ⟨hall, hissues⟩ := (validate_eq_ok_iff _ _ _).1 hvalidate
  rw [← noError_foundIn_iff hlookup hentry hall, ← noError_report_iff, ← hissues]
  simpa [Compiled.hasErrors, Issue.anyError] using hnone

/-- If a graph is compiled without errors with the built-in catalog, then every constant that a step
in the tree decides by is a boolean. The conditions of a step are those at the inputs that the
lowering of its node names, in order, and such a condition always holds just if no data edge arrives
at the input, or one does and its source gives no constant. -/
theorem compile_conditions_boolean {graph : Graph} {aliases : TypeAliases} {compiled : Compiled}
    (hcompile : graph.compile .builtin aliases = .ok compiled)
    (hnone : compiled.hasErrors = false) :
    ∀ step ∈ Step.inside compiled.steps,
      (∀ value, .literal value ∈ step.conditions → ∃ b, value = .bool b) ∧
      ∃ node ∈ (graph.resolveAliases aliases).nodes, ∃ definition,
        Walk.Becomes ⟨.builtin, graph.resolveAliases aliases⟩ node step ∧
        Catalog.builtin.lookup? node.nodeType = some definition ∧
        List.Forall₂ (fun pinId condition => condition = .always ↔
            (graph.resolveAliases aliases).dataInto ⟨node.id, pinId⟩ = [] ∨
              ∃ e, (graph.resolveAliases aliases).dataInto ⟨node.id, pinId⟩ = [e] ∧
                ¬(graph.resolveAliases aliases).GivesConstant .builtin e.source.nodeId)
          (definition.conditionInputs node.config) step.conditions := by
  intro step hstep
  have hwell := wellFormed_of_compile lookup_start_builtin rfl hcompile hnone
  obtain ⟨-, hsteps⟩ := compile_eq_ok_iff.1 hcompile
  rw [hsteps] at hstep
  obtain ⟨node, hnode, hbecomes⟩ := exists_becomes_of_lower hstep
  obtain ⟨definition, hlookup, hconditions⟩ := Walk.exists_conditions_of_becomes hbecomes
  have hspec := fun pinId (hinput : pinId ∈ definition.conditionInputs node.config) =>
    hwell.conditionAt_spec hnode hlookup hinput
  rw [hconditions]
  constructor
  · intro value hvalue
    obtain ⟨pinId, hinput, hcondition⟩ := List.mem_map.1 hvalue
    exact (hspec pinId hinput).1 value hcondition
  · refine ⟨node, hnode, definition, hbecomes, hlookup, ?_⟩
    rw [List.forall₂_map_right_iff, List.forall₂_same]
    exact fun pinId hinput => (hspec pinId hinput).2

end Graph

/-- A branch with one clause. -/
def clauseNode : Node := ⟨"if", "branch", .ofList [("elseIfCount", .integer 1)]⟩

/-- A graph with a branch that decides by a constant first, and then by a value that is read. -/
def decided : Graph where
  id := "decided"
  nodes := [⟨"start", "start", .empty⟩, clauseNode,
    ⟨"yes", "boolLiteral", .ofList [("value", .bool true)]⟩, ⟨"read", "readFlag", .empty⟩]
  edges := [
    .plain "go" .control ⟨"start", "execOut"⟩ ⟨"if", "execIn"⟩,
    .plain "first" .data ⟨"yes", "valueOut"⟩ ⟨"if", "condIn"⟩,
    .plain "second" .data ⟨"read", "valueOut"⟩ ⟨"if", "elseIfCondIn_0"⟩]

/-- The graph is lowered to the branch alone: its condition is the constant that is wired to it, and
that of its clause always holds, because what is wired there is not known. -/
theorem lower_decided : decided.lower .builtin =
    [.branch "IF" (.literal (.bool true)) [] [(.always, [])] []] := by
  have hslots : Builtin.branch.slotCount clauseNode.config = 1 := by
    decide +kernel
  have hclauses : Walk.clauses ⟨.builtin, decided⟩ Builtin.branch clauseNode
      (some ⟨"elseIfCondIn_\x7bi\x7d", "elseIfExecOut_\x7bi\x7d"⟩) 2 =
        [⟨.always, "elseIfExecOut_0", 2⟩] := by
    simp only [Walk.clauses, hslots]
    rfl
  have hif : Walk.perform ⟨.builtin, decided⟩ ⟨["start"], [[]], []⟩ ⟨"if", 0⟩ =
      ⟨["if", "start"],
        [[.branch "IF" (.literal (.bool true)) 1 [(.always, 2)] 3], [], [], []], []⟩ := by
    have hexpand := Walk.expand_branch ⟨.builtin, decided⟩ clauseNode 0
      ⟨["if", "start"], [[]], []⟩ (show Builtin.branch.lowering = _ from rfl) hclauses
    exact hexpand
  have hrun : Walk.run ⟨.builtin, decided⟩ (Walk.initial "start") =
      ⟨["if", "start"],
        [[.branch "IF" (.literal (.bool true)) 1 [(.always, 2)] 3], [], [], []], []⟩ := by
    rw [Walk.initial, Walk.run.eq_def]
    show Walk.run ⟨.builtin, decided⟩ ⟨["start"], [[]], [⟨"if", 0⟩]⟩ = _
    rw [Walk.run.eq_def]
    show Walk.run ⟨.builtin, decided⟩
      (Walk.perform ⟨.builtin, decided⟩ ⟨["start"], [[]], []⟩ ⟨"if", 0⟩) = _
    rw [hif, Walk.run.eq_def]
  show Walk.assemble (Walk.run ⟨.builtin, decided⟩ (Walk.initial "start")).sequences = _
  rw [hrun]
  rfl

/-- Nothing is wrong with the graph. -/
theorem foundIn_decided : Graph.foundIn .builtin decided = [] := by
  have hstarts : Graph.startNodes .builtin decided = [⟨"start", "start", .empty⟩] := by
    with_unfolding_all rfl
  have hreachable : ControlFlow.reachableFrom decided.edges "start" = ["if", "start"] := by
    decide +kernel
  have hloops : ControlFlow.loopEdges decided.edges = [] :=
    ControlFlow.loopEdges_eq_nil_of_rank (["start", "if"].idxOf ·) (by decide)
  rw [Graph.foundIn_of_searches hstarts hreachable hloops]
  refine List.isEmpty_iff.1 ?_
  decide +kernel

/-- The graph is compiled without errors to the branch alone. -/
theorem compile_decided : ∃ compiled, decided.compile .builtin = .ok compiled ∧
    compiled.hasErrors = false ∧
    compiled.steps = [.branch "IF" (.literal (.bool true)) [] [(.always, [])] []] := by
  have hvalidate : decided.validate .builtin = .ok [Finding.ok.report] := by
    refine (Graph.validate_eq_ok_iff _ _ _).2
      ⟨fun node _ => Catalog.materializes_builtin node, ?_⟩
    rw [foundIn_decided]
    rfl
  exact ⟨_, Graph.compile_of_validate hvalidate, rfl, lower_decided⟩

/-- The graph is compiled without errors, and the constant that its branch decides by is a
boolean. -/
theorem conditions_decided : ∃ compiled, decided.compile .builtin = .ok compiled ∧
    compiled.hasErrors = false ∧
    compiled.steps = [.branch "IF" (.literal (.bool true)) [] [(.always, [])] []] ∧
    ∀ step ∈ Step.inside compiled.steps, ∀ value, .literal value ∈ step.conditions →
      ∃ b, value = .bool b := by
  obtain ⟨compiled, hcompile, hnone, hsteps⟩ := compile_decided
  refine ⟨compiled, hcompile, hnone, hsteps, fun step hstep => ?_⟩
  exact (Graph.compile_conditions_boolean hcompile hnone step hstep).1

end AbilityGraph
