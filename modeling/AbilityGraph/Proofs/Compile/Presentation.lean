import AbilityGraph.Proofs.Catalog.Builtin
import AbilityGraph.Proofs.Compile.Live
import AbilityGraph.Proofs.Compile.Mirror
import Mathlib.Logic.Equiv.Basic

/-!
# The presentation of a graph

Two graphs may have the same structure and present it differently: with other node ids, with nodes
and edges in another order, and with other ids, types and times at their edges
(`Graph.Presents`). A walk over the one mirrors a walk over the other, with the ids renamed
(`Graph.Presents.mirrors`), as long as control edges that leave one pin and data edges that arrive
at one pin keep their order. So both graphs are compiled to the same steps
(`Graph.compile_presentation`).
-/

set_option autoImplicit false

namespace AbilityGraph

/-! ## Renaming -/

/-- A node with another id. -/
def Node.rename (rename : String → String) (node : Node) : Node :=
  { node with id := rename node.id }

/-- A pin of a node with another id. -/
def PinRef.rename (rename : String → String) (ref : PinRef) : PinRef :=
  { ref with nodeId := rename ref.nodeId }

/-- If no two ids get the same name, then two pins are the same after renaming just if they were the
same before. -/
theorem PinRef.rename_beq {rename : String → String} (hinj : Function.Injective rename)
    (ref pin : PinRef) : (ref.rename rename == pin.rename rename) = (ref == pin) := by
  rw [Bool.eq_iff_iff, beq_iff_eq, beq_iff_eq]
  cases ref
  cases pin
  simp [PinRef.rename, hinj.eq_iff]

namespace Edge

/-- An edge between pins of nodes with other ids. -/
def rename (rename : String → String) (e : Edge) : Edge :=
  { e with source := e.source.rename rename, target := e.target.rename rename }

/-- What an edge joins: its kind and its two ends, without its id, its type and its time. -/
def wiring (e : Edge) : PinKind × PinRef × PinRef := (e.kind, e.source, e.target)

/-- A control edge that leaves a pin. -/
def isControlFrom (pin : PinRef) (e : Edge) : Bool := e.kind == .control && e.source == pin

/-- A data edge that arrives at a pin. -/
def isDataInto (pin : PinRef) (e : Edge) : Bool := e.kind == .data && e.target == pin

end Edge

/-- Two orders of the same edges, in which the control edges that leave one pin and the data edges
that arrive at one pin come in the same order. -/
structure Reordered (edges others : List Edge) : Prop where
  perm : edges.Perm others
  control : ∀ pin, edges.filter (Edge.isControlFrom pin) = others.filter (Edge.isControlFrom pin)
  data : ∀ pin, edges.filter (Edge.isDataInto pin) = others.filter (Edge.isDataInto pin)

/-- Another presentation of a graph: node ids are renamed, nodes and edges are put into another
order, and edges get any ids, types and times. -/
structure Graph.Presents (other graph : Graph) (rename : String → String) : Prop where
  nodes : other.nodes.Perm (graph.nodes.map (Node.rename rename))
  edges : ∃ edges, Reordered edges graph.edges ∧
    other.edges.map Edge.wiring = edges.map fun e => (e.rename rename).wiring

/-! ## Graphs -/

namespace Graph

variable {graph other : Graph} {rename : String → String}

/-- The targets of an output are those of the control edges that leave it, in the order of the
edges. -/
theorem controlTargets_eq (graph : Graph) (nodeId pinId : String) :
    graph.controlTargets nodeId pinId =
      (graph.edges.filter (Edge.isControlFrom ⟨nodeId, pinId⟩)).map (·.target.nodeId) := by
  unfold controlTargets edgesFrom
  rw [List.filter_filter]
  rfl

/-- The source at an input is that of the first data edge that arrives there. -/
theorem dataSource?_eq_head? (graph : Graph) (nodeId pinId : String) :
    graph.dataSource? nodeId pinId =
      (graph.edges.filter (Edge.isDataInto ⟨nodeId, pinId⟩)).head?.map (·.source.nodeId) := by
  unfold dataSource? edgesInto
  rw [← List.head?_filter, List.filter_filter]
  rfl

/-- What is found among edges by what they join is found among edges that join the same. -/
theorem map_filter_of_wiring {α : Type} {edges others : List Edge}
    (h : others.map Edge.wiring = edges.map fun e => (e.rename rename).wiring)
    (p : PinKind × PinRef × PinRef → Bool) (f : PinKind × PinRef × PinRef → α) :
    (others.filter fun e => p e.wiring).map (fun e => f e.wiring) =
      (edges.filter fun e => p (e.rename rename).wiring).map
        fun e => f (e.rename rename).wiring := by
  have hfound := congrArg (fun wirings => (wirings.filter p).map f) h
  simpa only [List.filter_map, List.map_map, Function.comp_def] using hfound

/-- The targets of an output are the same nodes in the same order, under their new ids. -/
theorem Presents.controlTargets (h : other.Presents graph rename)
    (hinj : Function.Injective rename) (nodeId pinId : String) :
    other.controlTargets (rename nodeId) pinId =
      (graph.controlTargets nodeId pinId).map rename := by
  obtain ⟨edges, hedges, hwiring⟩ := h.edges
  have hleaves : ∀ e : Edge, (e.rename rename).isControlFrom ⟨rename nodeId, pinId⟩ =
      e.isControlFrom ⟨nodeId, pinId⟩ := fun e =>
    congrArg _ (PinRef.rename_beq hinj e.source ⟨nodeId, pinId⟩)
  have hfound := map_filter_of_wiring hwiring
    (fun w => w.1 == .control && w.2.1 == ⟨rename nodeId, pinId⟩) (·.2.2.nodeId)
  calc other.controlTargets (rename nodeId) pinId
      = (edges.filter fun e => (e.rename rename).isControlFrom ⟨rename nodeId, pinId⟩).map
          fun e => rename e.target.nodeId := (other.controlTargets_eq _ _).trans hfound
    _ = (graph.controlTargets nodeId pinId).map rename := by
        simp only [hleaves]
        rw [hedges.control, controlTargets_eq, List.map_map]
        rfl

/-- The source at an input is the same node under its new id. -/
theorem Presents.dataSource? (h : other.Presents graph rename) (hinj : Function.Injective rename)
    (nodeId pinId : String) : other.dataSource? (rename nodeId) pinId =
      (graph.dataSource? nodeId pinId).map rename := by
  obtain ⟨edges, hedges, hwiring⟩ := h.edges
  have harrives : ∀ e : Edge, (e.rename rename).isDataInto ⟨rename nodeId, pinId⟩ =
      e.isDataInto ⟨nodeId, pinId⟩ := fun e =>
    congrArg _ (PinRef.rename_beq hinj e.target ⟨nodeId, pinId⟩)
  have hfound := map_filter_of_wiring hwiring
    (fun w => w.1 == .data && w.2.2 == ⟨rename nodeId, pinId⟩) (·.2.1.nodeId)
  calc other.dataSource? (rename nodeId) pinId
      = ((edges.filter fun e => (e.rename rename).isDataInto ⟨rename nodeId, pinId⟩).map
          fun e => rename e.source.nodeId).head? := by
        rw [dataSource?_eq_head?, ← List.head?_map]
        exact congrArg List.head? hfound
    _ = (graph.dataSource? nodeId pinId).map rename := by
        simp only [harrives]
        rw [hedges.data, dataSource?_eq_head?, List.head?_map, Option.map_map]
        rfl

/-- The node found for a new id is the one found for the old id, renamed. No id may be used twice,
since nodes may be listed in another order. -/
theorem Presents.node? (h : other.Presents graph rename) (hinj : Function.Injective rename)
    (hnodup : (graph.nodes.map (·.id)).Nodup) (id : String) :
    other.node? (rename id) = (graph.node? id).map (Node.rename rename) := by
  have hids : ((graph.nodes.map (Node.rename rename)).map (·.id)).Nodup := by
    have hmap := hnodup.map hinj
    rw [List.map_map] at hmap ⊢
    exact hmap
  have hid : ∀ node : Node, ((node.rename rename).id == rename id) = (node.id == id) := by
    intro node
    rw [Bool.eq_iff_iff, beq_iff_eq, beq_iff_eq]
    exact hinj.eq_iff
  unfold Graph.node?
  rw [find?_of_perm Node.id h.nodes hids, List.find?_map]
  simp only [Function.comp_def, hid]

/-- A walk over another presentation of a graph mirrors the walk over the graph. -/
theorem Presents.mirrors (h : other.Presents graph rename) (hinj : Function.Injective rename)
    (hnodup : (graph.nodes.map (·.id)).Nodup) (catalog : Catalog) :
    Walk.Mirrors ⟨catalog, other⟩ ⟨catalog, graph⟩ rename (Node.rename rename) where
  catalog := rfl
  injective := hinj
  standsFor _ := ⟨rfl, rfl, fun _ _ => rfl⟩
  node? := h.node? hinj hnodup
  controlTargets := h.controlTargets hinj
  dataSource? := h.dataSource? hinj

/-- A graph with one start node starts at the same node in each presentation. -/
theorem Presents.startNodes (h : other.Presents graph rename) {catalog : Catalog} {start : Node}
    (hstart : startNodes catalog graph = [start]) :
    startNodes catalog other = [start.rename rename] := by
  have hperm : (Graph.startNodes catalog other).Perm
      ((graph.nodes.map (Node.rename rename)).filter fun node => catalog.isStart node.nodeType) :=
    h.nodes.filter _
  have hmap : (graph.nodes.map (Node.rename rename)).filter
      (fun node => catalog.isStart node.nodeType) =
        (Graph.startNodes catalog graph).map (Node.rename rename) := List.filter_map
  rw [hmap, hstart] at hperm
  exact List.perm_singleton.1 hperm

/-- Lowering from the one start node gives the same steps. -/
theorem Presents.lower (h : other.Presents graph rename) (hinj : Function.Injective rename)
    (hnodup : (graph.nodes.map (·.id)).Nodup) {catalog : Catalog} {start : Node}
    (hstart : Graph.startNodes catalog graph = [start]) :
    other.lower catalog = graph.lower catalog := by
  rw [lower_eq_stepsFrom hstart, lower_eq_stepsFrom (h.startNodes hstart)]
  exact Walk.stepsFrom_mirror (h.mirrors hinj hnodup catalog) start

/-- Resolving aliases keeps a graph another presentation of the same. -/
theorem Presents.resolveAliases (h : other.Presents graph rename) (aliases : TypeAliases) :
    (other.resolveAliases aliases).Presents (graph.resolveAliases aliases) rename := by
  constructor
  · have hnodes := h.nodes.map fun node : Node =>
      { node with nodeType := (aliases.get? node.nodeType).getD node.nodeType }
    simp only [Graph.resolveAliases, List.map_map] at hnodes ⊢
    exact hnodes
  · exact h.edges

/-- A graph is compiled to some steps just if the pins of all nodes can be found. -/
theorem compile_steps_eq_some_iff {catalog : Catalog} {graph : Graph} {aliases : TypeAliases}
    {steps : List Step} :
    (graph.compile catalog aliases).toOption.map (·.steps) = some steps ↔
      (∀ node ∈ (graph.resolveAliases aliases).nodes, catalog.Materializes node) ∧
        steps = (graph.resolveAliases aliases).lower catalog := by
  have hok : ∀ compiled, (graph.compile catalog aliases).toOption = some compiled ↔
      graph.compile catalog aliases = .ok compiled := by
    intro compiled
    cases graph.compile catalog aliases <;> simp [Except.toOption]
  simp only [Option.map_eq_some_iff, hok, compile_eq_ok_iff]
  constructor
  · rintro ⟨compiled, ⟨hvalidate, hsteps⟩, rfl⟩
    exact ⟨((validate_eq_ok_iff _ _ _).1 hvalidate).1, hsteps⟩
  · rintro ⟨hall, rfl⟩
    exact ⟨⟨_, _⟩, ⟨(validate_eq_ok_iff _ _ _).2 ⟨hall, rfl⟩, rfl⟩, rfl⟩

/-- Compilation does not depend on how a graph is presented. If node ids are distinct and there is
one start node, then the graph and each other presentation of it are compiled to the same steps, or
neither can be compiled. -/
theorem compile_presentation {catalog : Catalog} {aliases : TypeAliases}
    (hinj : Function.Injective rename) (hnodup : (graph.nodes.map (·.id)).Nodup)
    (hstart : ∃ start, startNodes catalog (graph.resolveAliases aliases) = [start])
    (h : other.Presents graph rename) :
    (other.compile catalog aliases).toOption.map (·.steps) =
      (graph.compile catalog aliases).toOption.map (·.steps) := by
  obtain ⟨start, hstart⟩ := hstart
  have haliases := h.resolveAliases aliases
  have hids : ((graph.resolveAliases aliases).nodes.map (·.id)).Nodup := by
    rw [map_id_resolveAliases]
    exact hnodup
  have hmaterializes : (∀ node ∈ (other.resolveAliases aliases).nodes,
      catalog.Materializes node) ↔
        ∀ node ∈ (graph.resolveAliases aliases).nodes, catalog.Materializes node := by
    simp only [haliases.nodes.mem_iff, List.forall_mem_map]
    exact Iff.rfl
  apply Option.ext
  intro steps
  rw [compile_steps_eq_some_iff, compile_steps_eq_some_iff, hmaterializes,
    haliases.lower hinj hids hstart]

end Graph

/-- A graph in which the flow forks and comes together again, so that the order of the edges at the
start decides where the healing step goes. -/
def rejoining : Graph where
  id := "rejoining"
  nodes := [⟨"a", "start", .empty⟩, ⟨"b", "branch", .empty⟩, ⟨"c", "heal", .empty⟩,
    ⟨"d", "boolLiteral", .empty⟩]
  edges := [
    .plain "first" .control ⟨"a", "execOut"⟩ ⟨"b", "execIn"⟩,
    .plain "decide" .data ⟨"d", "valueOut"⟩ ⟨"b", "condIn"⟩,
    .plain "second" .control ⟨"a", "execOut"⟩ ⟨"c", "execIn"⟩,
    .plain "rejoin" .control ⟨"b", "thenOut"⟩ ⟨"c", "execIn"⟩]

/-- The same graph with two ids exchanged, the nodes in reverse order, the data edge in front, and
other things said about the edges. -/
def rejoiningAgain : Graph where
  id := "again"
  nodes := [⟨"d", "boolLiteral", .empty⟩, ⟨"a", "heal", .empty⟩, ⟨"b", "branch", .empty⟩,
    ⟨"c", "start", .empty⟩]
  edges := [
    ⟨"1", .data, some (.single "boolean"), ⟨"d", "valueOut"⟩, ⟨"b", "condIn"⟩, none⟩,
    ⟨"2", .control, none, ⟨"c", "execOut"⟩, ⟨"b", "execIn"⟩, none⟩,
    ⟨"3", .control, none, ⟨"c", "execOut"⟩, ⟨"a", "execIn"⟩, none⟩,
    ⟨"4", .control, none, ⟨"b", "thenOut"⟩, ⟨"a", "execIn"⟩, none⟩]

/-- The second graph is the first with two ids swapped, its nodes and edges in another order. -/
theorem rejoiningAgain_presents :
    rejoiningAgain.Presents rejoining (Equiv.swap "a" "c") := by
  constructor
  · have hnodes : rejoiningAgain.nodes =
        (rejoining.nodes.map (Node.rename (Equiv.swap "a" "c"))).reverse := rfl
    rw [hnodes]
    exact List.reverse_perm _
  · refine ⟨[
      .plain "decide" .data ⟨"d", "valueOut"⟩ ⟨"b", "condIn"⟩,
      .plain "first" .control ⟨"a", "execOut"⟩ ⟨"b", "execIn"⟩,
      .plain "second" .control ⟨"a", "execOut"⟩ ⟨"c", "execIn"⟩,
      .plain "rejoin" .control ⟨"b", "thenOut"⟩ ⟨"c", "execIn"⟩], ?_, rfl⟩
    constructor
    · exact List.Perm.swap _ _ _
    · intro pin
      simp [rejoining, Edge.isControlFrom, Edge.plain, List.filter_cons]
    · intro pin
      simp [rejoining, Edge.isDataInto, Edge.plain, List.filter_cons]

/-- Both presentations are compiled, and to the same steps. -/
theorem compile_rejoiningAgain :
    (rejoining.compile .builtin).toOption.map (·.steps) = some (rejoining.lower .builtin) ∧
    (rejoiningAgain.compile .builtin).toOption.map (·.steps) = some (rejoining.lower .builtin) := by
  have hnodup : (rejoining.nodes.map (·.id)).Nodup := by
    decide
  have hstart : Graph.startNodes .builtin (rejoining.resolveAliases .empty) =
      [⟨"a", "start", .empty⟩] := by
    rw [Graph.resolveAliases_empty]
    rfl
  have hsteps : (rejoining.compile .builtin).toOption.map (·.steps) =
      some (rejoining.lower .builtin) := by
    rw [Graph.compile_steps_eq_some_iff, Graph.resolveAliases_empty]
    exact ⟨fun node _ => Catalog.materializes_builtin node, rfl⟩
  have hsame := Graph.compile_presentation (Equiv.swap "a" "c").injective hnodup ⟨_, hstart⟩
    rejoiningAgain_presents
  exact ⟨hsteps, hsame.trans hsteps⟩

end AbilityGraph
