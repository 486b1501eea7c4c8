import AbilityGraph.Canvas
import AbilityGraph.Proofs.Checks

/-!
# Pruning the edges of a canvas

A canvas document shows a graph just if no node has an empty id and every edge says its kind. Its
edges can be pruned before or after it is turned into a graph, with the same result: an edge of the
graph joins the pins whose handles the edge on the canvas names (`Canvas.toGraph_reconcile`).
-/

set_option autoImplicit false

namespace AbilityGraph

namespace Canvas

/-- A node of a canvas is converted just if it has an id. -/
theorem Node.exists_toNode_iff (node : Node) :
    (∃ shown, node.toNode = .ok shown) ↔ node.id ≠ "" := by
  unfold toNode
  split
  next hempty => simp [String.isEmpty_iff.1 hempty]
  next hempty =>
    have hne : node.id ≠ "" := fun heq => hempty (String.isEmpty_iff.2 heq)
    exact iff_of_true ⟨_, rfl⟩ hne

/-- An edge of a canvas is converted just if its kind is known. -/
theorem Edge.exists_toEdge_iff (edge : Edge) :
    (∃ shown, edge.toEdge = .ok shown) ↔ ∃ kind, edge.kind = some kind := by
  unfold toEdge
  split
  next hkind => simp [hkind]
  next kind hkind => exact iff_of_true ⟨_, rfl⟩ ⟨kind, hkind⟩

/-- An edge on a canvas and the edge of the graph that it shows join the same pins. -/
theorem Edge.pins_of_toEdge {edge : Edge} {shown : AbilityGraph.Edge}
    (h : edge.toEdge = .ok shown) :
    JoinsPins.sourcePin shown = JoinsPins.sourcePin edge ∧
      JoinsPins.targetPin shown = JoinsPins.targetPin edge := by
  unfold toEdge at h
  split at h
  · cases h
  · cases h
    exact ⟨rfl, rfl⟩

/-- A canvas is converted to a graph just if all its nodes and all its edges are converted. -/
theorem toGraph_eq_ok_iff {canvas : Canvas} {graph : Graph} :
    canvas.toGraph = .ok graph ↔ ∃ nodes edges, canvas.nodes.mapM Node.toNode = .ok nodes ∧
      canvas.edges.mapM Edge.toEdge = .ok edges ∧ graph = ⟨canvas.id, nodes, edges⟩ := by
  unfold toGraph
  rw [bind_eq_ok_iff]
  constructor
  · rintro ⟨nodes, hnodes, h⟩
    obtain ⟨edges, hedges, h⟩ := bind_eq_ok_iff.1 h
    cases h
    exact ⟨nodes, edges, hnodes, hedges, rfl⟩
  · rintro ⟨nodes, edges, hnodes, hedges, rfl⟩
    exact ⟨nodes, hnodes, bind_eq_ok_iff.2 ⟨edges, hedges, rfl⟩⟩

/-- A canvas can be converted just if all nodes have ids and the kinds of all edges are known. -/
theorem exists_toGraph_iff (canvas : Canvas) :
    (∃ graph, canvas.toGraph = .ok graph) ↔
      (∀ node ∈ canvas.nodes, node.id ≠ "") ∧
        ∀ edge ∈ canvas.edges, ∃ kind, edge.kind = some kind := by
  simp only [← Node.exists_toNode_iff, ← Edge.exists_toEdge_iff, ← exists_mapM_eq_ok_iff]
  constructor
  · rintro ⟨graph, h⟩
    obtain ⟨nodes, edges, hnodes, hedges, -⟩ := toGraph_eq_ok_iff.1 h
    exact ⟨⟨nodes, hnodes⟩, edges, hedges⟩
  · rintro ⟨⟨nodes, hnodes⟩, edges, hedges⟩
    exact ⟨_, toGraph_eq_ok_iff.2 ⟨nodes, edges, hnodes, hedges, rfl⟩⟩

/-- The edges of a canvas that are pruned are those that show pruned edges of the graph. -/
theorem mapM_toEdge_reconcile (nodeId : String) (oldPins newPins : List Pin) {edges : List Edge}
    {shown : List AbilityGraph.Edge} (h : edges.mapM Edge.toEdge = .ok shown) :
    (reconcile nodeId oldPins newPins edges).mapM Edge.toEdge =
      .ok (reconcile nodeId oldPins newPins shown) := by
  refine mapM_filter (fun edge result hresult => ?_) h
  obtain ⟨hsource, htarget⟩ := Edge.pins_of_toEdge hresult
  rw [hsource, htarget]

/-- A document shows a graph just if all of its nodes have ids and all of its edges have kinds. With
its edges pruned at the pins that a node loses, it shows the same graph with its edges pruned. -/
theorem toGraph_reconcile (canvas : Canvas) :
    ((∃ graph, canvas.toGraph = .ok graph) ↔
      (∀ node ∈ canvas.nodes, node.id ≠ "") ∧
        ∀ edge ∈ canvas.edges, ∃ kind, edge.kind = some kind) ∧
    ∀ graph, canvas.toGraph = .ok graph → ∀ nodeId oldPins newPins,
      { canvas with edges := reconcile nodeId oldPins newPins canvas.edges }.toGraph =
        .ok { graph with edges := reconcile nodeId oldPins newPins graph.edges } := by
  refine ⟨exists_toGraph_iff canvas, fun graph h nodeId oldPins newPins => ?_⟩
  obtain ⟨nodes, edges, hnodes, hedges, rfl⟩ := toGraph_eq_ok_iff.1 h
  exact toGraph_eq_ok_iff.2
    ⟨nodes, _, hnodes, mapM_toEdge_reconcile nodeId oldPins newPins hedges, rfl⟩

end Canvas

/-! ## A sketch -/

/-- A node on a canvas at the origin, with no config. -/
def Canvas.Node.plain (id nodeType : String) : Canvas.Node :=
  ⟨id, ⟨.zero false, .zero false⟩, nodeType, .empty⟩

/-- A fork with two outputs, of which one is joined to a sink and the other to the fork itself. An
edge runs back from the sink to that other output. -/
def sketch : Canvas where
  id := "sketch"
  nodes := [.plain "fork" "fork", .plain "sink" "sink"]
  edges := [
    ⟨"kept", "fork", "left", "sink", "right", some .data, none⟩,
    ⟨"own", "fork", "right", "fork", "left", some .data, none⟩,
    ⟨"back", "sink", "left", "fork", "right", some .control, none⟩]

/-- The sketch with another edge, which does not say its kind yet. -/
def unfinished : Canvas :=
  { sketch with
    edges := ⟨"new", "fork", "left", "sink", "right", none, none⟩ :: sketch.edges }

/-- The graph that the sketch shows. -/
def sketched : Graph where
  id := "sketch"
  nodes := [⟨"fork", "fork", .empty⟩, ⟨"sink", "sink", .empty⟩]
  edges := [
    .plain "kept" .data ⟨"fork", "left"⟩ ⟨"sink", "right"⟩,
    .plain "own" .data ⟨"fork", "right"⟩ ⟨"fork", "left"⟩,
    .plain "back" .control ⟨"sink", "left"⟩ ⟨"fork", "right"⟩]

/-- The outputs of the fork. -/
def forkPins : List Pin := [.controlOut "left" "Left", .controlOut "right" "Right"]

/-- When the fork loses its right output, one edge is left. The unfinished sketch shows no graph. -/
theorem sketch_reconcile :
    sketch.toGraph = .ok sketched ∧
      { sketch with
        edges := reconcile "fork" forkPins (forkPins.take 1) sketch.edges }.toGraph =
          .ok { sketched with edges := sketched.edges.take 1 } ∧
      ¬∃ graph, unfinished.toGraph = .ok graph := by
  have hshown : sketch.toGraph = .ok sketched := by
    rfl
  have hkept : reconcile "fork" forkPins (forkPins.take 1) sketched.edges =
      sketched.edges.take 1 := by
    decide
  refine ⟨hshown, ?_, ?_⟩
  · rw [← hkept]
    exact sketch.toGraph_reconcile.2 sketched hshown _ _ _
  · rw [(Canvas.toGraph_reconcile unfinished).1]
    rintro ⟨-, hkinds⟩
    obtain ⟨kind, hkind⟩ := hkinds _ List.mem_cons_self
    cases hkind

end AbilityGraph
