import AbilityGraph.Proofs.Compile.Live

/-!
# Compiling without loss

Validation looks for nodes that never run along all control edges; the walk that compiles a graph
follows only those at the outputs that a lowering names. With the built-in catalog the two agree on
a graph without errors: every output for execution flow is one that the lowering names
(`Builtin.Shape.of_control_pin`), and every control edge leaves from such an output
(`Graph.WellFormed.follows_iff_flows`). So the nodes that become steps are those that are not
reported (`Graph.compile_loses_nothing`).
-/

set_option autoImplicit false

namespace AbilityGraph

open ControlFlow (Flows Reaches)

/-! ## Control pins of built-in nodes -/

namespace Builtin.Shape

variable {definition : Definition} {config : Config} {pins : List Pin} {pin : Pin}

/-- A control pin is an input of a node that becomes a step or an output that the lowering names. -/
theorem of_control_pin (h : Shape definition) (hpins : definition.materialize config = .ok pins)
    (hpin : pin ∈ pins) (hkind : pin.kind = .control) :
    (pin.direction = .input ∧ definition.lowering.hasStep = true) ∨
      (pin.direction = .output ∧ pin.id ∈ definition.flowOutputs config) := by
  obtain ⟨rfl, -⟩ := Definition.instantiate_eq_ok_iff.1 hpins
  cases h with
  | start =>
    rw [Definition.pinsWithSlots_of_no_slots rfl] at hpin
    obtain rfl := List.mem_singleton.1 hpin
    exact .inr ⟨rfl, List.mem_cons_self⟩
  | branch =>
    rcases List.mem_append.1 hpin with hpin | hpin
    · simp only [Builtin.branch, List.mem_cons, List.not_mem_nil, or_false] at hpin
      rcases hpin with rfl | rfl | rfl | rfl | rfl
      · exact .inl ⟨rfl, rfl⟩
      · cases hkind
      · exact .inr ⟨rfl, List.mem_cons_self⟩
      · exact .inr ⟨rfl, List.mem_append_right _ List.mem_cons_self⟩
      · exact .inr ⟨rfl, List.mem_append_right _ (List.mem_cons_of_mem _ List.mem_cons_self)⟩
    · -- Of the two pins of a slot only the output is a control pin.
      obtain ⟨index, hindex, hpin⟩ := List.mem_flatMap.1 hpin
      obtain ⟨template, htemplate, rfl⟩ := List.mem_map.1 hpin
      simp only [List.mem_cons, List.not_mem_nil, or_false] at htemplate
      rcases htemplate with rfl | rfl
      · cases hkind
      · have hclause := List.mem_map_of_mem (f := substitute Builtin.elseIfOut) hindex
        exact .inr ⟨rfl, List.mem_append_left _ (List.mem_cons_of_mem _ hclause)⟩
  | action nodeType label stepType fields =>
    rw [Definition.pinsWithSlots_of_no_slots rfl] at hpin
    simp only [Builtin.action, List.mem_cons, List.not_mem_nil, or_false] at hpin
    rcases hpin with rfl | rfl
    · exact .inl ⟨rfl, rfl⟩
    · exact .inr ⟨rfl, List.mem_cons_self⟩
  | constant nodeType label dataType field =>
    rw [Definition.pinsWithSlots_of_no_slots rfl] at hpin
    obtain rfl := List.mem_singleton.1 hpin
    cases hkind
  | valueNode nodeType label field declared pins hnodup hdata =>
    rw [Definition.pinsWithSlots_of_no_slots rfl] at hpin
    rw [hdata pin hpin] at hkind
    cases hkind

/-- A built-in node that becomes a step has a control pin, the input at which it is run. -/
theorem any_control_of_hasStep (h : Shape definition)
    (hpins : definition.materialize config = .ok pins)
    (hstep : definition.lowering.hasStep = true) : pins.any (·.kind == .control) = true := by
  obtain ⟨rfl, -⟩ := Definition.instantiate_eq_ok_iff.1 hpins
  have hrun : Builtin.runPin ∈ definition.pinsWithSlots (definition.slotCount config) := by
    cases h with
    | start => cases hstep
    | branch => exact List.mem_append_left _ List.mem_cons_self
    | action nodeType label stepType fields => exact List.mem_append_left _ List.mem_cons_self
    | constant nodeType label dataType field => cases hstep
    | valueNode nodeType label field declared pins hnodup hdata => cases hstep
  exact List.any_eq_true.2 ⟨_, hrun, rfl⟩

end Builtin.Shape

/-! ## Validation and the walk -/

namespace Graph

/-- In the built-in catalog the start type is that of the built-in start. -/
theorem lookup_start_builtin : Catalog.builtin.lookup? "start" = some Builtin.start := by
  with_unfolding_all rfl

/-- A node with a step is no start. -/
theorem isStart_eq_false_of_givesSteps {nodeType : String}
    (h : Catalog.builtin.givesSteps nodeType = true) :
    Catalog.builtin.isStart nodeType = false := by
  cases hstart : Catalog.builtin.isStart nodeType with
  | false => rfl
  | true =>
    have htype : nodeType = "start" := eq_of_beq hstart
    rw [htype, Catalog.givesSteps, lookup_start_builtin] at h
    cases h

section WellFormed

variable {graph : Graph} (h : graph.WellFormed .builtin)

include h

/-- The flow goes on along every control edge. -/
theorem WellFormed.follows_iff_flows (source target : String) :
    Walk.Follows ⟨.builtin, graph⟩ source target ↔ Flows graph.edges source target := by
  constructor
  · exact Walk.Follows.flows
  · rintro ⟨e, he, hkind, rfl, rfl⟩
    obtain ⟨sourcePin, targetPin, hsource, -, hjoins⟩ := h.edges e he
    obtain ⟨node, pins, hnode, hpins, hfind⟩ := (hasPin_iff_resolves h.nodeIds _ _).1 hsource
    obtain ⟨hpin, hid⟩ := Pin.mem_of_find? hfind
    obtain ⟨definition, hlookup, hshape, hmaterialize⟩ := Catalog.shape_of_pinsOf? hpins
    rcases hshape.of_control_pin hmaterialize hpin (hjoins.sourceKind.trans hkind) with
      ⟨hinput, -⟩ | ⟨-, hnamed⟩
    · rw [hjoins.output] at hinput
      cases hinput
    · rw [hid] at hnamed
      exact ⟨node, definition, hnode, hlookup, e, he, hkind, rfl, hnamed, rfl⟩

/-- In a graph without errors the flow comes to just those nodes that control edges reach. -/
theorem WellFormed.live_iff_reaches (start nodeId : String) :
    Walk.Live ⟨.builtin, graph⟩ start nodeId ↔ Reaches graph.edges start nodeId := by
  have hfollows : Walk.Follows ⟨.builtin, graph⟩ = Flows graph.edges := by
    funext source target
    exact propext (h.follows_iff_flows source target)
  rw [Walk.Live, hfollows]

/-- A control edge leads to a node that becomes a step. -/
theorem WellFormed.exists_target {e : Edge} (he : e ∈ graph.edges) (hkind : e.kind = .control) :
    ∃ node ∈ graph.nodes, node.id = e.target.nodeId ∧
      Catalog.builtin.givesSteps node.nodeType = true := by
  obtain ⟨sourcePin, targetPin, -, htarget, hjoins⟩ := h.edges e he
  obtain ⟨node, hnode, hid, pins, hpins, hpin, -⟩ := htarget
  obtain ⟨definition, hlookup, hshape, hmaterialize⟩ := Catalog.shape_of_pinsOf? hpins
  rcases hshape.of_control_pin hmaterialize hpin (hjoins.targetKind.trans hkind) with
    ⟨-, hstep⟩ | ⟨houtput, -⟩
  · exact ⟨node, hnode, hid, Catalog.givesSteps_iff.2 ⟨definition, hlookup, hstep⟩⟩
  · rw [hjoins.input] at houtput
    cases houtput

/-- Some node that becomes a step is reached from the start. -/
theorem WellFormed.exists_reached {start : Node} (hstart : startNodes .builtin graph = [start]) :
    ∃ node ∈ graph.nodes, Reaches graph.edges start.id node.id ∧
      Catalog.builtin.givesSteps node.nodeType = true := by
  obtain ⟨found, -, next, hfound, -, -, e, he, hkind, hsource⟩ := h.start
  rw [← startNodes, hstart] at hfound
  cases hfound
  obtain ⟨node, hnode, hid, hstep⟩ := h.exists_target he hkind
  refine ⟨node, hnode, .single ⟨e, he, hkind, ?_, hid.symm⟩, hstep⟩
  rw [hsource]

/-- A node with a step is reported just if no control edges lead to it from the start. -/
theorem WellFormed.reportsUnreachable_iff {start node : Node}
    (hstart : startNodes .builtin graph = [start]) (hnode : node ∈ graph.nodes)
    (hstep : Catalog.builtin.givesSteps node.nodeType = true) :
    reportsUnreachable ((if (foundIn .builtin graph).isEmpty then [.ok]
      else foundIn .builtin graph).map Finding.report) node.id = true ↔
        ¬Reaches graph.edges start.id node.id := by
  simp only [AbilityGraph.reportsUnreachable_iff, unreachableNode_mem_foundIn_iff,
    unreachableNode_mem_flowFindings_iff hstart]
  constructor
  · rintro ⟨other, ⟨-, -, hreaches, -⟩, hid⟩
    rw [← hid]
    exact hreaches
  · intro hreaches
    obtain ⟨definition, hlookup, hlowering⟩ := Catalog.givesSteps_iff.1 hstep
    have hshape := Builtin.shape_of_mem (Catalog.mem_of_lookup? hlookup).1
    obtain ⟨pins, hmaterialize⟩ := hshape.materialize node.config
    have hpins := Catalog.pinsOf?_eq_some_iff.2 ⟨definition, hlookup, hmaterialize⟩
    refine ⟨node, ⟨hnode, isStart_eq_false_of_givesSteps hstep, hreaches, ?_⟩, rfl⟩
    rw [lookup_pinTable (node?_eq_some_of_mem h.nodeIds hnode) hpins]
    exact hshape.any_control_of_hasStep hmaterialize hlowering

end WellFormed

/-! ## Compilation -/

/-- If validation with the built-in catalog reports no error, then the graph is compiled to at least
one step, and the steps in the tree are just those of the nodes that become steps and are not
reported as unreachable: there is one step for each of these nodes and no other step. -/
theorem compile_loses_nothing {graph : Graph} {issues : List Issue}
    (hvalidate : graph.validate .builtin = .ok issues)
    (hnone : ∀ issue ∈ issues, issue.isError = false) :
    ∃ compiled, graph.compile .builtin = .ok compiled ∧ compiled.steps ≠ [] ∧
      ∃ origins : List Node,
        origins.Perm (graph.nodes.filter fun node =>
          Catalog.builtin.givesSteps node.nodeType && !reportsUnreachable issues node.id) ∧
        List.Forall₂ (Walk.Becomes ⟨.builtin, graph⟩) origins (Step.inside compiled.steps) := by
  have hcompile := compile_of_validate hvalidate
  obtain ⟨hall, rfl⟩ := (validate_eq_ok_iff .builtin graph issues).1 hvalidate
  have hwell : graph.WellFormed .builtin := by
    rw [← noError_foundIn_iff lookup_start_builtin rfl hall, ← noError_report_iff]
    exact hnone
  obtain ⟨start, -, -, hstart, -⟩ := hwell.start
  rw [← startNodes] at hstart
  obtain ⟨origins, hnodup, hmem, hbecomes⟩ :=
    Walk.exists_origins ⟨.builtin, graph⟩ hwell.nodeIds start.id
  simp only [hwell.live_iff_reaches] at hmem
  rw [← lower_of_startNodes hstart] at hbecomes
  refine ⟨_, hcompile, ?_, origins, ?_, hbecomes⟩
  · intro hnil
    rw [show graph.lower .builtin = [] from hnil] at hbecomes
    cases hbecomes
    obtain ⟨node, hreached⟩ := hwell.exists_reached hstart
    cases (hmem node).2 hreached
  · -- Both lists have no node twice, so it is enough that they have the same nodes: in a
    -- well-formed graph the live nodes are the reachable ones, and these are the ones not reported.
    have hnodes : graph.nodes.Nodup := List.Nodup.of_map _ hwell.nodeIds
    rw [List.perm_ext_iff_of_nodup hnodup (hnodes.filter _)]
    intro node
    rw [hmem, List.mem_filter, Bool.and_eq_true, Bool.not_eq_true', ← Bool.not_eq_true]
    constructor
    · rintro ⟨hnode, hreaches, hstep⟩
      exact ⟨hnode, hstep, fun hreported =>
        (hwell.reportsUnreachable_iff hstart hnode hstep).1 hreported hreaches⟩
    · rintro ⟨hnode, hstep, hreported⟩
      rw [hwell.reportsUnreachable_iff hstart hnode hstep, not_not] at hreported
      exact ⟨hnode, hreported, hstep⟩

end Graph

/-- A node that nothing leads to. -/
def lostNode : Node := ⟨"lost", "drawCards", .empty⟩

/-- A branch of which both parts lead to the same node, and a node that never runs. -/
def forked : Graph where
  id := "forked"
  nodes := [⟨"start", "start", .empty⟩, ⟨"if", "branch", .empty⟩, ⟨"heal", "heal", .empty⟩,
    ⟨"yes", "boolLiteral", .empty⟩, lostNode]
  edges := [
    .plain "go" .control ⟨"start", "execOut"⟩ ⟨"if", "execIn"⟩,
    .plain "decide" .data ⟨"yes", "valueOut"⟩ ⟨"if", "condIn"⟩,
    .plain "then" .control ⟨"if", "thenOut"⟩ ⟨"heal", "execIn"⟩,
    .plain "else" .control ⟨"if", "elseOut"⟩ ⟨"heal", "execIn"⟩]

/-- All that is found is the node that never runs. -/
theorem foundIn_forked : Graph.foundIn .builtin forked = [.unreachableNode lostNode] := by
  have hstarts : Graph.startNodes .builtin forked = [⟨"start", "start", .empty⟩] := by
    with_unfolding_all rfl
  have hreachable : ControlFlow.reachableFrom forked.edges "start" = ["heal", "if", "start"] := by
    decide +kernel
  have hothers : (repeats (forked.nodes.map (·.id))).map Finding.duplicateNodeId
      ++ (repeats (forked.edges.map (·.id))).map .duplicateEdgeId
      ++ forked.nodes.flatMap (Graph.nodeFindings .builtin forked)
      ++ forked.edges.flatMap (forked.edgeFindings (forked.pinTable .builtin))
      ++ forked.capacityFindings (forked.pinTable .builtin)
      ++ Graph.startFindings .builtin forked ⟨"start", "start", .empty⟩ = [] := by
    refine List.isEmpty_iff.1 ?_
    decide +kernel
  have hlost : ∀ node ∈ forked.nodes, (!Catalog.builtin.isStart node.nodeType &&
      !(["heal", "if", "start"].contains node.id) &&
        (((forked.pinTable .builtin).lookup node.id).getD []).any (·.kind == .control)) =
          (node.id == "lost") := by
    decide +kernel
  have hloops : ControlFlow.loopEdges forked.edges = [] :=
    ControlFlow.loopEdges_eq_nil_of_rank (["start", "if", "heal"].idxOf ·) (by decide)
  rw [Graph.foundIn_of_searches hstarts hreachable hloops, hothers, List.filter_congr hlost]
  rfl

/-- The branch and the node that both of its parts lead to become a step each. The node that is
reported becomes none. -/
theorem forked_loses_nothing :
    forked.validate .builtin = .ok [(Finding.unreachableNode lostNode).report] ∧
      ∃ compiled, forked.compile .builtin = .ok compiled ∧ compiled.steps ≠ [] ∧
        ∃ origins : List Node,
          origins.Perm [⟨"if", "branch", .empty⟩, ⟨"heal", "heal", .empty⟩] ∧
          List.Forall₂ (Walk.Becomes ⟨.builtin, forked⟩) origins
            (Step.inside compiled.steps) := by
  have hvalidate : forked.validate .builtin =
      .ok [(Finding.unreachableNode lostNode).report] := by
    refine (Graph.validate_eq_ok_iff _ _ _).2
      ⟨fun node _ => Catalog.materializes_builtin node, ?_⟩
    rw [foundIn_forked]
    rfl
  have hnone : ∀ issue ∈ [(Finding.unreachableNode lostNode).report], issue.isError = false := by
    simp [Issue.isError, Finding.report, Finding.severity]
  exact ⟨hvalidate, Graph.compile_loses_nothing hvalidate hnone⟩

end AbilityGraph
