import AbilityGraph.Proofs.Compile.Live
import AbilityGraph.Proofs.Validate.WellFormed

/-!
# Where the values in steps come from

If a graph is compiled without errors, every value in its steps comes from a config field of some
node: the field of an action from the node that becomes the action, a constant that a branch decides
by from a node that a data edge joins to the branch (`Graph.compile_values_supplied`). Such a value
is one that the config sets and that the field accepts, or it is the default of the schema for a
field that the config leaves unset (`Definition.Supplies`).

Loading does not check a default against its own field. So there are steps with values that their
fields do not accept (`joined_compiles_miscast`).
-/

set_option autoImplicit false

namespace AbilityGraph

/-! ## Values of config fields -/

namespace Definition

/-- A value that a node with a config has for a config field: one that the config sets and that the
field accepts, or the default of a field that the config leaves unset. -/
inductive Supplies (definition : Definition) (config : Config) (name : String)
    (value : Value) : Prop
  | set {field : ConfigField} (hfield : definition.schema.get? name = some field)
      (hset : config.get? name = some value) (hnull : value.isNull = false)
      (haccepts : field.Accepts value)
  | default {field : ConfigField} (hfield : definition.schema.get? name = some field)
      (hunset : ∀ other, config.get? name = some other → other.isNull = true)
      (hdefault : field.default = some value)

/-- A config whose values are accepted supplies every value that is read from it. -/
theorem supplies_of_fieldValue? {definition : Definition} {config : Config} {name : String}
    {value : Value} (hdeclared : definition.schema.contains name = true)
    (hconfig : ∀ entry ∈ config.entries, ∀ field, definition.schema.get? entry.1 = some field →
      entry.2.isNull = false → field.Accepts entry.2)
    (h : definition.fieldValue? config name = some value) :
    definition.Supplies config name value := by
  obtain ⟨field, hfield⟩ := Option.isSome_iff_exists.1 hdeclared
  unfold fieldValue? at h
  split at h
  next found hfound =>
    cases h
    obtain ⟨hset, hnull⟩ := Option.filter_eq_some_iff.1 hfound
    have hnull : value.isNull = false := by simpa using hnull
    exact .set hfield hset hnull (hconfig _ (mem_of_lookup_eq_some hset) field hfield hnull)
  next hnone =>
    rw [Option.filter_eq_none_iff] at hnone
    rw [hfield, Option.bind_some] at h
    exact .default hfield (by simpa using hnone) h

/-- The fields that a lowering copies into its step are in the schema, if it passes the check at
load. -/
theorem contains_of_checkStepFields {definition : Definition} {fields : List String}
    (h : definition.checkStepFields fields = .ok ()) :
    ∀ name ∈ fields, definition.schema.contains name = true := by
  unfold checkStepFields at h
  split at h
  · cases h
  · split at h
    · cases h
    next hfind => simpa using List.find?_eq_none.1 hfind

/-- The fields that a step is made from are in the schema. -/
theorem contains_of_step {definition : Definition} (hcheck : definition.check = .ok ())
    {type : String} {fields : List String} {next : Option String}
    (hlowering : definition.lowering = .step type fields next) :
    ∀ name ∈ fields, definition.schema.contains name = true := by
  obtain ⟨-, hcheckLowering⟩ := check_eq_ok hcheck
  unfold checkLowering at hcheckLowering
  rw [hlowering] at hcheckLowering
  obtain ⟨_, hfields, -⟩ := bind_eq_ok_iff.1 hcheckLowering
  exact contains_of_checkStepFields hfields

/-- The field that a constant is read from is in the schema. -/
theorem contains_of_literal {definition : Definition} (hcheck : definition.check = .ok ())
    {name : String} (hlowering : definition.lowering = .literal name) :
    definition.schema.contains name = true := by
  obtain ⟨-, hcheckLowering⟩ := check_eq_ok hcheck
  unfold checkLowering at hcheckLowering
  rw [hlowering] at hcheckLowering
  dsimp only at hcheckLowering
  split at hcheckLowering
  · assumption
  · cases hcheckLowering

end Definition

/-! ## Values in steps -/

namespace Step

/-- The conditions that a step decides by: its own, and those of its else-if clauses. -/
def conditions : Step → List Condition
  | action _ _ => []
  | branch _ condition _ elseIf _ => condition :: elseIf.map (·.1)

/-- A step has the same fields with and without its parts. -/
theorem field?_bare (step : Step) (name : String) : step.bare.field? name = step.field? name := by
  cases step <;> rfl

/-- A step has the same conditions with and without its parts. -/
theorem conditions_bare (step : Step) : step.bare.conditions = step.conditions := by
  cases step with
  | action => rfl
  | branch => simp [bare, conditions]

end Step

namespace Graph

/-- The source at an input is that of some data edge that arrives at the node. -/
theorem exists_of_dataSource? {graph : Graph} {nodeId pinId id : String}
    (h : graph.dataSource? nodeId pinId = some id) :
    ∃ e ∈ graph.edges, e.kind = .data ∧ e.source.nodeId = id ∧ e.target.nodeId = nodeId := by
  obtain ⟨e, he, rfl⟩ := Option.map_eq_some_iff.1 h
  obtain ⟨hmem, htarget⟩ := List.mem_filter.1 (List.mem_of_find?_eq_some he)
  have hkind : e.kind = .data := by simpa using List.find?_some he
  have htarget : e.target = ⟨nodeId, pinId⟩ := by simpa using htarget
  exact ⟨e, hmem, hkind, rfl, by rw [htarget]⟩

/-- A data edge leads from one node to another. -/
def Wired (graph : Graph) (source target : Node) : Prop :=
  ∃ e ∈ graph.edges, e.kind = .data ∧ graph.node? e.source.nodeId = some source ∧
    e.target.nodeId = target.id

/-- The values in the step of a node come from config fields: those of an action from fields of the
node, the constants that a branch decides by from nodes that are wired to the node. -/
structure Supplied (catalog : Catalog) (graph : Graph) (node : Node) (step : Step) : Prop where
  fields : ∀ name value, step.field? name = some value → ∃ definition,
    catalog.lookup? node.nodeType = some definition ∧
      definition.Supplies node.config name value
  conditions : ∀ value, .literal value ∈ step.conditions → ∃ source definition name,
    graph.Wired source node ∧ catalog.lookup? source.nodeType = some definition ∧
      definition.lowering = .literal name ∧ definition.Supplies source.config name value

end Graph

namespace Walk

/-- A constant at an input is the value of a config field of a node that is wired to the input. -/
theorem exists_of_conditionAt {walk : Walk} {target : Node} {pinId : String} {value : Value}
    (h : walk.conditionAt target.id pinId = .literal value) :
    ∃ source definition name, walk.graph.Wired source target ∧
      walk.catalog.lookup? source.nodeType = some definition ∧
      definition.lowering = .literal name ∧
      definition.fieldValue? source.config name = some value := by
  unfold conditionAt at h
  dsimp only at h
  split at h
  next found hfound =>
    cases h
    obtain ⟨id, hid, hsources⟩ := Option.bind_eq_some_iff.1 hfound
    obtain ⟨source, hsource, hdefinitions⟩ := Option.bind_eq_some_iff.1 hsources
    obtain ⟨definition, hlookup, hvalue⟩ := Option.bind_eq_some_iff.1 hdefinitions
    obtain ⟨e, he, hkind, rfl, htarget⟩ := Graph.exists_of_dataSource? hid
    split at hvalue
    next name hlowering =>
      exact ⟨source, definition, name, ⟨e, he, hkind, hsource, htarget⟩, hlookup, hlowering, hvalue⟩
    next => cases hvalue
  next => cases h

/-- A field of an action is a config field that the lowering of its node lists. -/
theorem fieldValue?_of_becomes {walk : Walk} {node : Node} {step : Step}
    (h : walk.Becomes node step) {name : String} {value : Value}
    (hvalue : step.field? name = some value) :
    ∃ definition type fields next, walk.catalog.lookup? node.nodeType = some definition ∧
      definition.lowering = .step type fields next ∧ name ∈ fields ∧
      definition.fieldValue? node.config name = some value := by
  rw [← step.field?_bare] at hvalue
  obtain ⟨definition, hlookup, hown⟩ := Option.bind_eq_some_iff.1 h
  split at hown
  next type fields next hlowering =>
    rw [← Option.some.inj hown] at hvalue
    have hmem : (name, value) ∈ (actionFields definition node fields).entries :=
      mem_of_lookup_eq_some hvalue
    obtain ⟨field, hfield, hentry⟩ := List.mem_filterMap.1 (FieldMap.mem_ofList hmem)
    obtain ⟨found, hfound, heq⟩ := Option.map_eq_some_iff.1 hentry
    cases heq
    exact ⟨definition, type, fields, next, hlookup, hlowering, hfield, hfound⟩
  next =>
    rw [← Option.some.inj hown] at hvalue
    cases hvalue
  all_goals cases hown

/-- The conditions of a branch are those that are wired to inputs of its node. -/
theorem exists_conditionAt_of_becomes {walk : Walk} {node : Node} {step : Step}
    (h : walk.Becomes node step) {condition : Condition}
    (hcondition : condition ∈ step.conditions) :
    ∃ pinId, walk.conditionAt node.id pinId = condition := by
  rw [← step.conditions_bare] at hcondition
  obtain ⟨definition, hlookup, hown⟩ := Option.bind_eq_some_iff.1 h
  split at hown
  next =>
    rw [← Option.some.inj hown] at hcondition
    cases hcondition
  next type pinId thenOut elseIf elseOut next hlowering =>
    rw [← Option.some.inj hown, Step.conditions, List.map_map, List.mem_cons] at hcondition
    rcases hcondition with rfl | hclause
    · exact ⟨pinId, rfl⟩
    · obtain ⟨clause, hmem, rfl⟩ := List.mem_map.1 hclause
      cases elseIf with
      | none => cases hmem
      | some pins =>
        obtain ⟨index, -, rfl⟩ := List.mem_map.1 hmem
        exact ⟨_, rfl⟩
  all_goals cases hown

end Walk

namespace Graph

/-- In a well-formed graph, the step that a node becomes has its values from config fields. -/
theorem WellFormed.supplied {catalog : Catalog} {graph : Graph} (hwell : graph.WellFormed catalog)
    (hcheck : ∀ nodeType definition, catalog.lookup? nodeType = some definition →
      definition.check = .ok ())
    {node : Node} (hnode : node ∈ graph.nodes) {step : Step}
    (h : Walk.Becomes ⟨catalog, graph⟩ node step) : graph.Supplied catalog node step := by
  constructor
  · intro name value hfield
    obtain ⟨definition, type, fields, next, hlookup, hlowering, hname, hvalue⟩ :=
      Walk.fieldValue?_of_becomes h hfield
    have hdeclared := Definition.contains_of_step (hcheck _ _ hlookup) hlowering name hname
    have hconfig := hwell.config node hnode definition hlookup
    exact ⟨definition, hlookup, Definition.supplies_of_fieldValue? hdeclared hconfig hvalue⟩
  · intro value hcondition
    obtain ⟨pinId, hpin⟩ := Walk.exists_conditionAt_of_becomes h hcondition
    obtain ⟨source, definition, name, hwired, hlookup, hlowering, hvalue⟩ :=
      Walk.exists_of_conditionAt hpin
    have hsource : source ∈ graph.nodes := by
      obtain ⟨e, -, -, hfound, -⟩ := hwired
      exact List.mem_of_find?_eq_some hfound
    have hdeclared := Definition.contains_of_literal (hcheck _ _ hlookup) hlowering
    have hconfig := hwell.config source hsource definition hlookup
    exact ⟨source, definition, name, hwired, hlookup, hlowering,
      Definition.supplies_of_fieldValue? hdeclared hconfig hvalue⟩

/-- If a graph is compiled without errors, with a catalog that was loaded, then every step in the
tree is that of one of its nodes, and its values come from config fields: from values that are set
in a config and accepted, and from defaults of fields that are left unset. -/
theorem compile_values_supplied {definitions : List Definition} {startType : String}
    {catalog : Catalog} {graph : Graph} {aliases : TypeAliases} {compiled : Compiled}
    (hload : Catalog.load definitions startType = .ok catalog)
    (hcompile : graph.compile catalog aliases = .ok compiled)
    (hnone : compiled.hasErrors = false) :
    ∀ step ∈ Step.inside compiled.steps, ∃ node ∈ (graph.resolveAliases aliases).nodes,
      Walk.Becomes ⟨catalog, graph.resolveAliases aliases⟩ node step ∧
        (graph.resolveAliases aliases).Supplied catalog node step := by
  obtain ⟨hvalidate, hsteps⟩ := compile_eq_ok_iff.1 hcompile
  obtain ⟨definition, next, hlookup, hentry⟩ := Catalog.entry_of_load hload
  obtain ⟨hall, hissues⟩ := (validate_eq_ok_iff _ _ _).1 hvalidate
  have hwell : (graph.resolveAliases aliases).WellFormed catalog := by
    rw [← noError_foundIn_iff hlookup hentry hall, ← noError_report_iff, ← hissues]
    simpa [Compiled.hasErrors, Issue.anyError] using hnone
  obtain ⟨start, -, -, hstart, -⟩ := hwell.start
  obtain ⟨origins, -, hmem, hbecomes⟩ :=
    Walk.exists_origins ⟨catalog, graph.resolveAliases aliases⟩ hwell.nodeIds start.id
  rw [← lower_of_startNodes hstart, ← hsteps] at hbecomes
  intro step hstep
  obtain ⟨i, hi, rfl⟩ := List.getElem_of_mem hstep
  have horigin : i < origins.length := hbecomes.length_eq ▸ hi
  have hnode := ((hmem origins[i]).1 (List.getElem_mem horigin)).1
  have hown := hbecomes.get horigin hi
  exact ⟨origins[i], hnode, hown,
    hwell.supplied (fun _ _ => Catalog.check_of_lookup? hload) hnode hown⟩

end Graph

/-! ## A default that its field does not accept -/

/-- A node that heals, by an amount that should be a whole number. The default is a text. -/
def miscast : Definition :=
  Builtin.action "heal" "Heal" "HEAL"
    [("amount", Builtin.fieldWithDefault .integer (.string "lots"))]

def Catalog.miscasting : Catalog := ⟨[Builtin.start, miscast], "start"⟩

/-- The graph is lowered to an action whose amount is the text that its field has as default. -/
theorem lower_joined_miscasting :
    joined.lower .miscasting = [.action "HEAL" (.ofList [("amount", .string "lots")])] := by
  have hrun : Walk.run ⟨.miscasting, joined⟩ (Walk.initial "start") =
      ⟨["heal", "start"], [[.action "HEAL" (.ofList [("amount", .string "lots")])]], []⟩ := by
    rw [Walk.initial, Walk.run.eq_def]
    show Walk.run ⟨.miscasting, joined⟩ ⟨["start"], [[]], [⟨"heal", 0⟩]⟩ = _
    rw [Walk.run.eq_def]
    show Walk.run ⟨.miscasting, joined⟩ ⟨["heal", "start"],
      [[.action "HEAL" (.ofList [("amount", .string "lots")])]], []⟩ = _
    rw [Walk.run.eq_def]
  show Walk.assemble (Walk.run ⟨.miscasting, joined⟩ (Walk.initial "start")).sequences = _
  rw [hrun]
  rfl

/-- The catalog with an ill-typed default can be loaded, since defaults are not checked. -/
theorem load_miscasting :
    Catalog.load [Builtin.start, miscast] "start" = .ok .miscasting := by
  with_unfolding_all rfl

/-- Nothing is wrong with the graph, and the default gets into its step. -/
theorem compile_joined_miscasting :
    joined.compile .miscasting =
      .ok ⟨[.action "HEAL" (.ofList [("amount", .string "lots")])], [Finding.ok.report]⟩ := by
  have hfound : Graph.foundIn .miscasting joined = [] := by
    have hstarts : Graph.startNodes .miscasting joined = [⟨"start", "start", .empty⟩] := by
      with_unfolding_all rfl
    rw [Graph.foundIn_of_searches hstarts reachableFrom_joined loopEdges_joined]
    with_unfolding_all rfl
  have hall : ∀ node ∈ joined.nodes, Catalog.miscasting.Materializes node := by
    have hchecked : Graph.checkNodes .miscasting joined =
        .ok ([], [("start", Builtin.start.pins), ("heal", miscast.pins)]) := by
      with_unfolding_all rfl
    exact ((Graph.gives_checkNodes .miscasting joined _).1 hchecked).1
  have hvalidate : joined.validate .miscasting = .ok [Finding.ok.report] := by
    refine (Graph.validate_eq_ok_iff _ _ _).2 ⟨hall, ?_⟩
    rw [hfound]
    rfl
  rw [Graph.compile_of_validate hvalidate, lower_joined_miscasting]

/-- The only step has a value that its field does not accept. -/
theorem joined_compiles_miscast :
    Catalog.load [Builtin.start, miscast] "start" = .ok .miscasting ∧
      ∃ compiled, joined.compile .miscasting = .ok compiled ∧ compiled.hasErrors = false ∧
        ∃ step ∈ Step.inside compiled.steps, ∃ node ∈ joined.nodes,
          Walk.Becomes ⟨.miscasting, joined⟩ node step ∧
            step.field? "amount" = some (.string "lots") ∧
            ∃ definition field, Catalog.miscasting.lookup? node.nodeType = some definition ∧
              definition.schema.get? "amount" = some field ∧ ¬field.Accepts (.string "lots") := by
  refine ⟨load_miscasting, _, compile_joined_miscasting, rfl, _, List.mem_singleton_self _,
    ⟨"heal", "heal", .empty⟩, List.mem_cons_of_mem _ List.mem_cons_self, ?_, ?_, miscast, _,
    ?_, rfl, ?_⟩
  · with_unfolding_all rfl
  · with_unfolding_all rfl
  · with_unfolding_all rfl
  · intro haccepts
    cases haccepts.type

/-- A branch without else-if clauses. -/
def choice : Definition :=
  { Builtin.branch with
    schema := .empty
    slots := none
    lowering := .branch "IF" "condIn" "thenOut" none "elseOut" none }

/-- A constant that is false by default. -/
def flag : Definition :=
  Builtin.constant "boolLiteral" "Boolean" "boolean"
    (Builtin.fieldWithDefault .boolean (.bool false))

def Catalog.mixing : Catalog := ⟨[Builtin.start, choice, miscast, flag], "start"⟩

/-- A branch that decides by a constant that is set. One part heals by an amount that is set, the
other by the default. -/
def mixed : Graph where
  id := "mixed"
  nodes := [⟨"start", "start", .empty⟩, ⟨"if", "branch", .empty⟩,
    ⟨"yes", "boolLiteral", .ofList [("value", .bool true)]⟩,
    ⟨"some", "heal", .ofList [("amount", .integer 5)]⟩, ⟨"lots", "heal", .empty⟩]
  edges := [
    .plain "go" .control ⟨"start", "execOut"⟩ ⟨"if", "execIn"⟩,
    .plain "decide" .data ⟨"yes", "valueOut"⟩ ⟨"if", "condIn"⟩,
    .plain "then" .control ⟨"if", "thenOut"⟩ ⟨"some", "execIn"⟩,
    .plain "else" .control ⟨"if", "elseOut"⟩ ⟨"lots", "execIn"⟩]

/-- The fields of the step that heals by an amount. -/
def healing (amount : Value) : FieldMap Value := .ofList [("amount", amount)]

/-- The steps that the mixed graph is compiled to. -/
def mixedSteps : List Step :=
  [.branch "IF" (.literal (.bool true)) [.action "HEAL" (healing (.integer 5))] []
    [.action "HEAL" (healing (.string "lots"))]]

/-- The catalog with steps, a choice and a flag can be loaded. -/
theorem load_mixing :
    Catalog.load [Builtin.start, choice, miscast, flag] "start" = .ok .mixing := by
  with_unfolding_all rfl

/-- The walk visits the branch and then the nodes after its two outputs. -/
theorem lower_mixed : mixed.lower .mixing = mixedSteps := by
  have hrun : Walk.run ⟨.mixing, mixed⟩ (Walk.initial "start") =
      ⟨["lots", "some", "if", "start"],
        [[.branch "IF" (.literal (.bool true)) 1 [] 2], [.action "HEAL" (healing (.integer 5))],
          [.action "HEAL" (healing (.string "lots"))]], []⟩ := by
    rw [Walk.initial, Walk.run.eq_def]
    show Walk.run ⟨.mixing, mixed⟩ ⟨["start"], [[]], [⟨"if", 0⟩]⟩ = _
    rw [Walk.run.eq_def]
    show Walk.run ⟨.mixing, mixed⟩ ⟨["if", "start"],
      [[.branch "IF" (.literal (.bool true)) 1 [] 2], [], []], [⟨"some", 1⟩, ⟨"lots", 2⟩]⟩ = _
    rw [Walk.run.eq_def]
    show Walk.run ⟨.mixing, mixed⟩ ⟨["some", "if", "start"],
      [[.branch "IF" (.literal (.bool true)) 1 [] 2], [.action "HEAL" (healing (.integer 5))], []],
      [⟨"lots", 2⟩]⟩ = _
    rw [Walk.run.eq_def]
    show Walk.run ⟨.mixing, mixed⟩ ⟨["lots", "some", "if", "start"],
      [[.branch "IF" (.literal (.bool true)) 1 [] 2], [.action "HEAL" (healing (.integer 5))],
        [.action "HEAL" (healing (.string "lots"))]], []⟩ = _
    rw [Walk.run.eq_def]
  show Walk.assemble (Walk.run ⟨.mixing, mixed⟩ (Walk.initial "start")).sequences = _
  rw [hrun]
  rfl

/-- Nothing is wrong with the mixed graph. -/
theorem foundIn_mixed : Graph.foundIn .mixing mixed = [] := by
  have hstarts : Graph.startNodes .mixing mixed = [⟨"start", "start", .empty⟩] := by
    with_unfolding_all rfl
  have hreachable : ControlFlow.reachableFrom mixed.edges "start" =
      ["lots", "some", "if", "start"] := by
    decide +kernel
  have hloops : ControlFlow.loopEdges mixed.edges = [] :=
    ControlFlow.loopEdges_eq_nil_of_rank (["start", "if", "some", "lots"].idxOf ·) (by decide)
  rw [Graph.foundIn_of_searches hstarts hreachable hloops]
  with_unfolding_all rfl

/-- The mixed graph is compiled without errors. -/
theorem compile_mixed : mixed.compile .mixing = .ok ⟨mixedSteps, [Finding.ok.report]⟩ := by
  have hall : ∀ node ∈ mixed.nodes, Catalog.mixing.Materializes node := by
    have hchecked : Graph.checkNodes .mixing mixed = .ok ([], [("start", Builtin.start.pins),
        ("if", choice.pins), ("yes", flag.pins), ("some", miscast.pins),
        ("lots", miscast.pins)]) := by
      with_unfolding_all rfl
    exact ((Graph.gives_checkNodes .mixing mixed _).1 hchecked).1
  have hvalidate : mixed.validate .mixing = .ok [Finding.ok.report] := by
    refine (Graph.validate_eq_ok_iff _ _ _).2 ⟨hall, ?_⟩
    rw [foundIn_mixed]
    rfl
  rw [Graph.compile_of_validate hvalidate, lower_mixed]

/-- The constant and one amount are values that are set and accepted. The other amount is a default
that its field does not accept. -/
theorem mixed_supplied :
    mixed.compile .mixing = .ok ⟨mixedSteps, [Finding.ok.report]⟩ ∧
      ∀ step ∈ Step.inside mixedSteps, ∃ node ∈ (mixed.resolveAliases .empty).nodes,
        Walk.Becomes ⟨.mixing, mixed.resolveAliases .empty⟩ node step ∧
          (mixed.resolveAliases .empty).Supplied .mixing node step :=
  ⟨compile_mixed, Graph.compile_values_supplied load_mixing compile_mixed rfl⟩

end AbilityGraph
