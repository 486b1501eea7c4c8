import AbilityGraph.Proofs.Catalog.Builtin
import AbilityGraph.Proofs.ControlFlow.Components
import AbilityGraph.Proofs.FieldMap
import AbilityGraph.Proofs.Validate.Edges
import Mathlib.Data.List.Perm.Basic

/-!
# The order in which a graph is stored

A graph may be stored with its nodes and its edges in another order (`Graph.Rearranges`). Where node
ids are distinct, the node with an id and its pins stay the same, and so does what is known about
each node and each edge by itself; the passes that go over all nodes or all edges then find the same
in another order (`Graph.Rearranges.foundIn_perm`). Where there is no more than one start node, it
is the same one. So validation reports the same issues in some order, or fails for both graphs
(`Graph.validate_rearranged`).
-/

set_option autoImplicit false

namespace AbilityGraph

open ControlFlow (Flows Reaches OnLoop loopEdges_eq_filter mem_reachableFrom_iff)

namespace ControlFlow

/-- Which links the edges make does not depend on their order. -/
theorem flows_of_perm {edges others : List Edge} (hperm : others.Perm edges) :
    Flows others = Flows edges := by
  funext a b
  simp only [Flows, hperm.mem_iff]

/-- Which edges lie on a loop does not depend on their order. -/
theorem onLoop_of_perm {edges others : List Edge} (hperm : others.Perm edges) :
    OnLoop others = OnLoop edges := by
  funext edge
  rw [OnLoop, OnLoop, Reaches, flows_of_perm hperm]

/-- The edges on loops are the same up to their order. -/
theorem loopEdges_perm {edges others : List Edge} (hperm : others.Perm edges) :
    (loopEdges others).Perm (loopEdges edges) := by
  classical
  rw [loopEdges_eq_filter, loopEdges_eq_filter, onLoop_of_perm hperm]
  exact hperm.filter _

/-- Which nodes are reachable does not depend on the order of the edges. -/
theorem contains_reachableFrom_of_perm {edges others : List Edge} (hperm : others.Perm edges)
    (start node : String) :
    (reachableFrom others start).contains node = (reachableFrom edges start).contains node := by
  rw [Bool.eq_iff_iff, List.contains_iff_mem, List.contains_iff_mem, mem_reachableFrom_iff,
    mem_reachableFrom_iff, Reaches, flows_of_perm hperm]

end ControlFlow

namespace Graph

/-- A graph has the nodes and the edges of another one, each in some order. -/
structure Rearranges (other graph : Graph) : Prop where
  nodes : other.nodes.Perm graph.nodes
  edges : other.edges.Perm graph.edges

/-- The table has no other names than the ids of the nodes, in their order. -/
theorem names_pinTable_sublist (catalog : Catalog) (graph : Graph) :
    ((graph.pinTable catalog).map (·.1)).Sublist (graph.nodes.map (·.id)) := by
  unfold pinTable
  induction graph.nodes with
  | nil => exact List.Sublist.refl _
  | cons node rest ih =>
    rw [List.filterMap_cons, List.map_cons]
    cases catalog.pinsOf? node with
    | none => exact ih.cons _
    | some pins => exact ih.cons_cons _

namespace Rearranges

variable {graph other : Graph} (h : other.Rearranges graph)

include h

/-! ## What is known about single nodes and edges -/

/-- A pin is connected in both graphs or in neither. -/
theorem isConnected_eq (node : Node) (pin : Pin) :
    other.isConnected node pin = graph.isConnected node pin := by
  unfold isConnected
  cases pin.direction with
  | input => exact (h.edges.filter _).any_eq
  | output => exact (h.edges.filter _).any_eq

/-- The same is wrong with a node by itself in both graphs. -/
theorem nodeFindings_eq (catalog : Catalog) (node : Node) :
    nodeFindings catalog other node = nodeFindings catalog graph node := by
  unfold nodeFindings requiredPinFindings
  simp only [h.isConnected_eq]

/-- A pin is reported as overfull in both graphs or in neither. -/
theorem capacityFinding?_eq (node : Node) (pin : Pin) :
    other.capacityFinding? node pin = graph.capacityFinding? node pin := by
  have hcount : other.inboundCount node.id pin = graph.inboundCount node.id pin :=
    ((h.edges.filter _).filter _).length_eq
  unfold capacityFinding?
  rw [hcount]

/-- The same is wrong with a start node in both graphs. -/
theorem startFindings_eq (catalog : Catalog) (start : Node) :
    startFindings catalog other start = startFindings catalog graph start := by
  have hconnected : ∀ pinId, (other.edgesFrom ⟨start.id, pinId⟩).any (·.kind == .control) =
      (graph.edgesFrom ⟨start.id, pinId⟩).any (·.kind == .control) := fun pinId =>
    (h.edges.filter _).any_eq
  unfold startFindings
  simp only [hconnected]

/-- With no more than one start node, each order of the nodes has the same ones. -/
theorem startNodes_eq {catalog : Catalog} (hstart : (startNodes catalog graph).length ≤ 1) :
    startNodes catalog other = startNodes catalog graph := by
  have hperm : (startNodes catalog other).Perm (startNodes catalog graph) := h.nodes.filter _
  cases hstarts : startNodes catalog graph with
  | nil =>
    rw [hstarts] at hperm
    exact hperm.eq_nil
  | cons start others =>
    rw [hstarts, List.length_cons] at hstart
    obtain rfl : others = [] := List.length_eq_zero_iff.1 (by omega)
    rw [hstarts] at hperm
    exact hperm.eq_singleton

section Distinct

variable (hids : (graph.nodes.map (·.id)).Nodup)

include hids

/-- The same node is found for an id in both graphs. -/
theorem node?_eq (id : String) : other.node? id = graph.node? id :=
  find?_of_perm Node.id h.nodes hids id

/-- The same pins are found for an id in both graphs. -/
theorem lookup_pinTable_eq (catalog : Catalog) (id : String) :
    (other.pinTable catalog).lookup id = (graph.pinTable catalog).lookup id :=
  lookup_of_perm (h.nodes.filterMap _) (hids.sublist (names_pinTable_sublist catalog graph)) id

/-- The same is wrong with an edge in both graphs. -/
theorem edgeFindings_eq (catalog : Catalog) (edge : Edge) :
    other.edgeFindings (other.pinTable catalog) edge =
      graph.edgeFindings (graph.pinTable catalog) edge := by
  unfold edgeFindings
  simp only [h.node?_eq hids, h.lookup_pinTable_eq hids]

/-! ## The passes -/

/-- The same pins are overfull in both graphs, in some order. -/
theorem capacityFindings_perm (catalog : Catalog) :
    (other.capacityFindings (other.pinTable catalog)).Perm
      (graph.capacityFindings (graph.pinTable catalog)) := by
  have hothers : (other.nodes.map (·.id)).Nodup := (h.nodes.map _).nodup_iff.2 hids
  unfold capacityFindings
  rw [firstNodes_eq_self hids (by simp), firstNodes_eq_self hothers (by simp)]
  apply h.nodes.flatMap
  intro node _
  have hfinding : other.capacityFinding? node = graph.capacityFinding? node :=
    funext (h.capacityFinding?_eq node)
  rw [h.lookup_pinTable_eq hids, hfinding]

/-- The same nodes are unreachable in both graphs, in some order. -/
theorem unreachableFindings_perm (catalog : Catalog) (start : Node) :
    (unreachableFindings catalog other (other.pinTable catalog) start).Perm
      (unreachableFindings catalog graph (graph.pinTable catalog) start) := by
  unfold unreachableFindings
  simp only [h.lookup_pinTable_eq hids, ControlFlow.contains_reachableFrom_of_perm h.edges]
  exact (h.nodes.filter _).map _

/-- With one start at most, the same is wrong with the start and the flow from it, in some order. -/
theorem flowFindings_perm {catalog : Catalog} (hstart : (startNodes catalog graph).length ≤ 1) :
    (flowFindings catalog other (other.pinTable catalog)).Perm
      (flowFindings catalog graph (graph.pinTable catalog)) := by
  unfold flowFindings
  rw [h.startNodes_eq hstart]
  cases startNodes catalog graph with
  | nil => exact List.Perm.refl _
  | cons start others =>
    dsimp only
    rw [h.startFindings_eq]
    exact (h.unreachableFindings_perm hids catalog start).append_left _

/-- Each pass finds the same in some order. -/
theorem foundIn_perm {catalog : Catalog} (hstart : (startNodes catalog graph).length ≤ 1) :
    (foundIn catalog other).Perm (foundIn catalog graph) := by
  have hnodeIds := (repeats_perm (h.nodes.map (·.id))).map Finding.duplicateNodeId
  have hedgeIds := (repeats_perm (h.edges.map (·.id))).map Finding.duplicateEdgeId
  have hnodes : (other.nodes.flatMap (nodeFindings catalog other)).Perm
      (graph.nodes.flatMap (nodeFindings catalog graph)) := by
    apply h.nodes.flatMap
    intro node _
    rw [h.nodeFindings_eq]
  have hedges : (other.edges.flatMap (other.edgeFindings (other.pinTable catalog))).Perm
      (graph.edges.flatMap (graph.edgeFindings (graph.pinTable catalog))) := by
    apply h.edges.flatMap
    intro edge _
    rw [h.edgeFindings_eq hids]
  have hcapacity := h.capacityFindings_perm hids catalog
  have hflow := h.flowFindings_perm hids hstart
  have hloops := (ControlFlow.loopEdges_perm h.edges).map Finding.controlCycle
  exact (((((hnodeIds.append hedgeIds).append hnodes).append hedges).append hcapacity).append
    hflow).append hloops

end Distinct

/-- If one graph rearranges another, then the other rearranges the one. -/
theorem symm : graph.Rearranges other := ⟨h.nodes.symm, h.edges.symm⟩

/-- The pins of every node can be found in both graphs or in neither. -/
theorem materializes_iff (catalog : Catalog) :
    (∀ node ∈ other.nodes, catalog.Materializes node) ↔
      ∀ node ∈ graph.nodes, catalog.Materializes node := by
  simp only [h.nodes.mem_iff]

/-- If the issues of a graph are found, then they are found in each other order, rearranged. -/
theorem exists_validate {catalog : Catalog} (hids : (graph.nodes.map (·.id)).Nodup)
    (hstart : (startNodes catalog graph).length ≤ 1) {issues : List Issue}
    (hvalidate : graph.validate catalog = .ok issues) :
    ∃ others, other.validate catalog = .ok others ∧ others.Perm issues := by
  obtain ⟨hall, rfl⟩ := (validate_eq_ok_iff _ _ _).1 hvalidate
  have hfound := h.foundIn_perm hids hstart
  refine ⟨_, (validate_eq_ok_iff _ _ _).2 ⟨(h.materializes_iff catalog).2 hall, rfl⟩, ?_⟩
  rw [hfound.isEmpty_eq]
  apply List.Perm.map
  split
  · exact List.Perm.refl _
  · exact hfound

end Rearranges

/-- Validation does not depend on the order in which a graph is stored. If node ids are distinct and
there is no more than one start node, then any order of the nodes and of the edges gives the same
issues in some order, or validation fails for both. -/
theorem validate_rearranged {catalog : Catalog} {graph other : Graph}
    (hids : (graph.nodes.map (·.id)).Nodup) (hstart : (startNodes catalog graph).length ≤ 1)
    (h : other.Rearranges graph) :
    (∃ issues others, graph.validate catalog = .ok issues ∧
      other.validate catalog = .ok others ∧ others.Perm issues) ∨
    ∃ fault otherFault, graph.validate catalog = .error fault ∧
      other.validate catalog = .error otherFault := by
  cases hvalidate : graph.validate catalog with
  | ok issues =>
    obtain ⟨others, hothers, hperm⟩ := h.exists_validate hids hstart hvalidate
    exact .inl ⟨issues, others, rfl, hothers, hperm⟩
  | error fault =>
    cases hother : other.validate catalog with
    | ok others =>
      -- the issues found in the other order would be found in this one
      have hids' : (other.nodes.map (·.id)).Nodup := (h.nodes.map _).nodup_iff.2 hids
      have hstart' : (startNodes catalog other).length ≤ 1 := h.startNodes_eq hstart ▸ hstart
      obtain ⟨issues, hissues, -⟩ := h.symm.exists_validate hids' hstart' hother
      rw [hvalidate] at hissues
      cases hissues
    | error otherFault => exact .inr ⟨fault, otherFault, rfl, rfl⟩

/-- A start node that leads nowhere, and two nodes on a loop apart from it. -/
def loopApart : Graph :=
  ⟨"heal", [⟨"start", "start", .empty⟩, ⟨"first", "heal", .empty⟩, ⟨"second", "heal", .empty⟩],
    [.plain "on" .control ⟨"first", "execOut"⟩ ⟨"second", "execIn"⟩,
      .plain "back" .control ⟨"second", "execOut"⟩ ⟨"first", "execIn"⟩]⟩

/-- The same nodes and edges, stored backwards. -/
def loopApartBackwards : Graph :=
  { loopApart with nodes := loopApart.nodes.reverse, edges := loopApart.edges.reverse }

/-- Both edges of the graph lie on a loop. -/
theorem onLoop_loopApart : ∀ e ∈ loopApart.edges, OnLoop loopApart.edges e := by
  have hreturns : ∀ e ∈ loopApart.edges, e.kind = .control ∧ ∃ back ∈ loopApart.edges,
      back.kind = .control ∧ back.source.nodeId = e.target.nodeId ∧
        back.target.nodeId = e.source.nodeId := by
    decide
  intro e he
  obtain ⟨hcontrol, hback⟩ := hreturns e he
  exact ⟨hcontrol, .single hback⟩

/-- The start leads nowhere, the two other nodes are unreachable, and both edges are on a loop. -/
theorem foundIn_loopApart : foundIn .builtin loopApart =
    [.startUnconnected ⟨"start", "start", .empty⟩ "execOut",
      .unreachableNode ⟨"first", "heal", .empty⟩, .unreachableNode ⟨"second", "heal", .empty⟩]
      ++ loopApart.edges.map .controlCycle := by
  have hloops : ControlFlow.loopEdges loopApart.edges = loopApart.edges := by
    classical
    rw [loopEdges_eq_filter, List.filter_eq_self]
    simpa using onLoop_loopApart
  unfold foundIn
  rw [hloops]
  with_unfolding_all rfl

/-- Stored backwards, the same is found in another order. -/
theorem foundIn_loopApartBackwards : foundIn .builtin loopApartBackwards =
    [.startUnconnected ⟨"start", "start", .empty⟩ "execOut",
      .unreachableNode ⟨"second", "heal", .empty⟩, .unreachableNode ⟨"first", "heal", .empty⟩]
      ++ loopApart.edges.reverse.map .controlCycle := by
  have hloops : ControlFlow.loopEdges loopApart.edges.reverse = loopApart.edges.reverse := by
    classical
    rw [loopEdges_eq_filter, ControlFlow.onLoop_of_perm loopApart.edges.reverse_perm,
      List.filter_eq_self]
    simpa using onLoop_loopApart
  unfold foundIn loopApartBackwards
  rw [hloops]
  with_unfolding_all rfl

/-- Stored backwards, the graph has the same issues in another order. -/
theorem loopApart_rearranged :
    (loopApart.nodes.map (·.id)).Nodup ∧ (startNodes .builtin loopApart).length ≤ 1 ∧
      loopApartBackwards.Rearranges loopApart ∧
      ∃ issues others, loopApart.validate .builtin = .ok issues ∧
        loopApartBackwards.validate .builtin = .ok others ∧ others.Perm issues ∧
        issues.map (·.code) = [.startUnconnected, .unreachableNode, .unreachableNode,
          .controlCycle, .controlCycle] ∧ others ≠ issues := by
  have hids : (loopApart.nodes.map (·.id)).Nodup := by decide
  have hstart : (startNodes .builtin loopApart).length ≤ 1 := by decide
  have hrearranges : loopApartBackwards.Rearranges loopApart :=
    ⟨loopApart.nodes.reverse_perm, loopApart.edges.reverse_perm⟩
  have hvalidate := (validate_eq_ok_iff .builtin loopApart _).2
    ⟨fun node _ => Catalog.materializes_builtin node, rfl⟩
  have hbackwards := (validate_eq_ok_iff .builtin loopApartBackwards _).2
    ⟨fun node _ => Catalog.materializes_builtin node, rfl⟩
  rw [foundIn_loopApart] at hvalidate
  rw [foundIn_loopApartBackwards] at hbackwards
  refine ⟨hids, hstart, hrearranges, ?_⟩
  obtain ⟨issues, others, hissues, hothers, hperm⟩ | ⟨fault, _, hfault, -⟩ :=
    validate_rearranged hids hstart hrearranges
  · refine ⟨issues, others, hissues, hothers, hperm, ?_⟩
    rw [hvalidate] at hissues
    rw [hbackwards] at hothers
    cases hissues
    cases hothers
    refine ⟨rfl, fun heq => ?_⟩
    have hplaces := congrArg (List.map Issue.place) heq
    revert hplaces
    decide
  · rw [hvalidate] at hfault
    cases hfault

end Graph

end AbilityGraph
