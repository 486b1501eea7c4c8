import AbilityGraph.Proofs.Catalog.Builtin
import AbilityGraph.Proofs.Compile.Visits
import AbilityGraph.Proofs.Validate.Unreachable

/-!
# Compiling the live flow

A graph is compiled to the steps of the nodes to which the flow comes from its first start, one
step for each of them, whatever else is wrong with the graph (`Graph.compile_live_flow`). Validation
looks for nodes that never run along all control edges, and the walk goes along those at the outputs
that a lowering names only. So a node that is reported as unreachable is never live.
-/

set_option autoImplicit false

namespace AbilityGraph

open ControlFlow (Flows Reaches)

/-! ## Live nodes and control edges -/

namespace Walk

variable {walk : Walk} {source target : String}

/-- The flow goes on along control edges only. -/
theorem Follows.flows (h : walk.Follows source target) : Flows walk.graph.edges source target := by
  obtain ⟨-, -, -, -, e, he, hkind, hsource, -, htarget⟩ := h
  exact ⟨e, he, hkind, hsource, htarget⟩

/-- Nodes that the flow comes to are reached along control edges. -/
theorem Live.reaches (h : walk.Live source target) : Reaches walk.graph.edges source target :=
  Relation.ReflTransGen.mono (fun _ _ => Follows.flows) _ _ h

end Walk

namespace Graph

/-- A node that is reported as unreachable is not live. -/
theorem reportsUnreachable_eq_false_of_live {catalog : Catalog} {graph : Graph} {start node : Node}
    {others : List Node} {issues : List Issue}
    (hstart : startNodes catalog graph = start :: others)
    (hvalidate : graph.validate catalog = .ok issues)
    (hlive : Walk.Live ⟨catalog, graph⟩ start.id node.id) :
    reportsUnreachable issues node.id = false := by
  obtain ⟨-, rfl⟩ := (validate_eq_ok_iff catalog graph issues).1 hvalidate
  rw [← Bool.not_eq_true, AbilityGraph.reportsUnreachable_iff]
  rintro ⟨reported, hreported, hid⟩
  rw [unreachableNode_mem_foundIn_iff, unreachableNode_mem_flowFindings_iff hstart] at hreported
  obtain ⟨-, -, hnot, -⟩ := hreported
  apply hnot
  rw [hid]
  exact hlive.reaches

/-! ## Compilation -/

/-- Putting the types of the catalog in place of other names leaves the ids of nodes as they are. -/
theorem map_id_resolveAliases (aliases : TypeAliases) (graph : Graph) :
    (graph.resolveAliases aliases).nodes.map (·.id) = graph.nodes.map (·.id) := by
  simp [resolveAliases]

/-- Without other names for types a graph stays as it is. -/
theorem resolveAliases_empty (graph : Graph) : graph.resolveAliases .empty = graph := by
  have hnodes : graph.nodes.map (fun node : Node => { node with
      nodeType := (FieldMap.get? .empty node.nodeType).getD node.nodeType }) = graph.nodes :=
    List.map_id graph.nodes
  unfold resolveAliases
  rw [hnodes]

/-- A graph is compiled just if it can be validated, and its issues and steps are those of the graph
with the types of the catalog. -/
theorem compile_eq_ok_iff {catalog : Catalog} {graph : Graph} {aliases : TypeAliases}
    {compiled : Compiled} :
    graph.compile catalog aliases = .ok compiled ↔
      (graph.resolveAliases aliases).validate catalog = .ok compiled.issues ∧
        compiled.steps = (graph.resolveAliases aliases).lower catalog := by
  unfold compile
  rw [bind_eq_ok_iff]
  constructor
  · rintro ⟨issues, hissues, heq⟩
    cases heq
    exact ⟨hissues, rfl⟩
  · rintro ⟨hissues, hsteps⟩
    refine ⟨compiled.issues, hissues, ?_⟩
    rw [← hsteps]
    rfl

/-- A graph is compiled whenever validation gives issues, even if these are errors. -/
theorem compile_of_validate {catalog : Catalog} {graph : Graph} {issues : List Issue}
    (h : graph.validate catalog = .ok issues) :
    graph.compile catalog = .ok { steps := graph.lower catalog, issues := issues } := by
  rw [compile_eq_ok_iff, resolveAliases_empty]
  exact ⟨h, rfl⟩

/-- A graph is lowered from its first start node. -/
theorem lower_eq_stepsFrom {catalog : Catalog} {graph : Graph} {start : Node} {others : List Node}
    (h : startNodes catalog graph = start :: others) :
    graph.lower catalog = Walk.stepsFrom ⟨catalog, graph⟩ start := by
  have hfind : (graph.nodes.find? fun node => catalog.isStart node.nodeType) = some start := by
    rw [← List.head?_filter]
    exact congrArg List.head? h
  unfold lower
  rw [hfind]

/-- A graph is lowered to the steps that the recursion finds from its first start node. -/
theorem lower_of_startNodes {catalog : Catalog} {graph : Graph} {start : Node} {others : List Node}
    (h : startNodes catalog graph = start :: others) :
    graph.lower catalog = (Walk.lowerNode ⟨catalog, graph⟩ [] start.id).result := by
  rw [lower_eq_stepsFrom h]
  exact Walk.assemble_run_initial ⟨catalog, graph⟩ start.id

/-- Every step in the tree that a graph is lowered to is that of some node. -/
theorem exists_becomes_of_lower {catalog : Catalog} {graph : Graph} {step : Step}
    (hstep : step ∈ Step.inside (graph.lower catalog)) :
    ∃ node ∈ graph.nodes, Walk.Becomes ⟨catalog, graph⟩ node step := by
  unfold lower at hstep
  split at hstep
  next start _ =>
    have hassemble : Walk.stepsFrom ⟨catalog, graph⟩ start =
        (Walk.lowerNode ⟨catalog, graph⟩ [] start.id).result :=
      Walk.assemble_run_initial ⟨catalog, graph⟩ start.id
    rw [hassemble] at hstep
    exact Walk.exists_becomes ⟨catalog, graph⟩ hstep
  next => cases hstep

/-- A graph with a start, whose nodes have different ids, is compiled just if the pins of all its
nodes can be found. The steps in the tree are then those of the live nodes whose types have steps,
one of each, and none of these nodes is reported as unreachable. -/
theorem compile_live_flow {catalog : Catalog} {graph : Graph} {aliases : TypeAliases}
    {start : Node} {others : List Node} (hnodup : (graph.nodes.map (·.id)).Nodup)
    (hstart : startNodes catalog (graph.resolveAliases aliases) = start :: others) :
    ((∃ compiled, graph.compile catalog aliases = .ok compiled) ↔
      ∀ node ∈ (graph.resolveAliases aliases).nodes, catalog.Materializes node) ∧
    ∀ compiled, graph.compile catalog aliases = .ok compiled →
      ∃ origins : List Node, origins.Nodup ∧
        (∀ node, node ∈ origins ↔ node ∈ (graph.resolveAliases aliases).nodes ∧
          Walk.Live ⟨catalog, graph.resolveAliases aliases⟩ start.id node.id ∧
            catalog.givesSteps node.nodeType = true) ∧
        List.Forall₂ (Walk.Becomes ⟨catalog, graph.resolveAliases aliases⟩) origins
          (Step.inside compiled.steps) ∧
        ∀ node ∈ origins, reportsUnreachable compiled.issues node.id = false := by
  rw [← map_id_resolveAliases aliases] at hnodup
  constructor
  · constructor
    · rintro ⟨compiled, hcompile⟩
      obtain ⟨hvalidate, -⟩ := compile_eq_ok_iff.1 hcompile
      exact ((validate_eq_ok_iff _ _ _).1 hvalidate).1
    · intro hall
      have hvalidate := (validate_eq_ok_iff _ _ _).2 ⟨hall, rfl⟩
      exact ⟨⟨_, _⟩, compile_eq_ok_iff.2 ⟨hvalidate, rfl⟩⟩
  · intro compiled hcompile
    obtain ⟨hvalidate, hsteps⟩ := compile_eq_ok_iff.1 hcompile
    obtain ⟨origins, horigins, hmem, hbecomes⟩ :=
      Walk.exists_origins ⟨catalog, graph.resolveAliases aliases⟩ hnodup start.id
    refine ⟨origins, horigins, hmem, ?_, fun node hnode => ?_⟩
    · rw [hsteps, lower_of_startNodes hstart]
      exact hbecomes
    · obtain ⟨-, hlive, -⟩ := (hmem node).1 hnode
      exact reportsUnreachable_eq_false_of_live hstart hvalidate hlive

end Graph

/-- A branch of which two parts lead to the same node and from there back to the branch. A third
part is one that the branch does not have with its config, and to one node nothing leads. -/
def comeBack : Graph where
  id := "back"
  nodes := [⟨"start", "start", .empty⟩, ⟨"if", "branch", .empty⟩, ⟨"heal", "cure", .empty⟩,
    ⟨"never", "cure", .empty⟩, ⟨"lost", "heal", .empty⟩]
  edges := [
    .plain "go" .control ⟨"start", "execOut"⟩ ⟨"if", "execIn"⟩,
    .plain "yes" .control ⟨"if", "thenOut"⟩ ⟨"heal", "execIn"⟩,
    .plain "no" .control ⟨"if", "elseOut"⟩ ⟨"heal", "execIn"⟩,
    .plain "other" .control ⟨"if", "elseIfExecOut_0"⟩ ⟨"never", "execIn"⟩,
    .plain "back" .control ⟨"heal", "execOut"⟩ ⟨"if", "execIn"⟩]

/-- Another name for the nodes that heal. -/
def cures : TypeAliases := .ofList [("cure", "heal")]

/-- Each node that runs becomes one step, although the flow comes to two of them by more than one
way and goes round in a loop. -/
theorem comeBack_live_flow :
    ∃ compiled, comeBack.compile .builtin cures = .ok compiled ∧
      ∃ origins : List Node, origins.Nodup ∧
        (∀ node, node ∈ origins ↔ node ∈ (comeBack.resolveAliases cures).nodes ∧
          Walk.Live ⟨.builtin, comeBack.resolveAliases cures⟩ "start" node.id ∧
            Catalog.builtin.givesSteps node.nodeType = true) ∧
        List.Forall₂ (Walk.Becomes ⟨.builtin, comeBack.resolveAliases cures⟩) origins
          (Step.inside compiled.steps) ∧
        ∀ node ∈ origins, reportsUnreachable compiled.issues node.id = false := by
  have hnodup : (comeBack.nodes.map (·.id)).Nodup := by
    decide
  have hstart : Graph.startNodes .builtin (comeBack.resolveAliases cures) =
      [⟨"start", "start", .empty⟩] := by
    with_unfolding_all rfl
  obtain ⟨hexists, hlive⟩ := Graph.compile_live_flow hnodup hstart
  obtain ⟨compiled, hcompile⟩ := hexists.2 fun node _ => Catalog.materializes_builtin node
  exact ⟨compiled, hcompile, hlive compiled hcompile⟩

end AbilityGraph
