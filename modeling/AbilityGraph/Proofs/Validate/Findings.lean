import AbilityGraph.Connect
import AbilityGraph.Validate
import AbilityGraph.Proofs.Checks
import AbilityGraph.Proofs.Pins

/-!
# What validation looks at

Validation gives a list of issues just if the pins of every node can be found, and then the issues
are the reports on `foundIn`, which is made of one list of findings for each pass
(`validate_eq_ok_iff`). The pins that the passes share are those of the first nodes of known types
(`lookup_pinTable`); where pins are joined, they are looked up in the same way
(`resolvePin_eq_some`).
-/

set_option autoImplicit false

namespace AbilityGraph

/-! ## The pins of the nodes of a graph -/

namespace Catalog

/-- Whether the pins of a node can be found, if its type is known. -/
def Materializes (catalog : Catalog) (node : Node) : Prop :=
  ∀ definition, catalog.lookup? node.nodeType = some definition →
    ∃ pins, definition.materialize node.config = .ok pins

/-- The pins of a node of a known type. -/
def pinsOf? (catalog : Catalog) (node : Node) : Option (List Pin) :=
  (catalog.lookup? node.nodeType).bind fun definition =>
    (definition.materialize node.config).toOption

/-- The pins of a node are those that the definition of its type gives for its config. -/
theorem pinsOf?_eq_some_iff {catalog : Catalog} {node : Node} {pins : List Pin} :
    catalog.pinsOf? node = some pins ↔ ∃ definition,
      catalog.lookup? node.nodeType = some definition ∧
        definition.materialize node.config = .ok pins := by
  unfold pinsOf?
  rw [Option.bind_eq_some_iff]
  constructor
  · rintro ⟨definition, hlookup, hpins⟩
    refine ⟨definition, hlookup, ?_⟩
    cases hmaterialize : definition.materialize node.config with
    | error fault =>
      rw [hmaterialize] at hpins
      cases hpins
    | ok found =>
      rw [hmaterialize] at hpins
      cases hpins
      rfl
  · rintro ⟨definition, hlookup, hpins⟩
    refine ⟨definition, hlookup, ?_⟩
    rw [hpins]
    rfl

/-- No two pins of a node have the same id. -/
theorem pinsOf?_nodup {catalog : Catalog} {node : Node} {pins : List Pin}
    (h : catalog.pinsOf? node = some pins) : (pins.map (·.id)).Nodup := by
  obtain ⟨definition, -, hpins⟩ := pinsOf?_eq_some_iff.1 h
  exact (Definition.instantiate_eq_ok_iff.1 hpins).2

end Catalog

namespace Graph

/-- The pins of the nodes of known types, by node id. -/
def pinTable (catalog : Catalog) (graph : Graph) : PinTable :=
  graph.nodes.filterMap fun node => (catalog.pinsOf? node).map (node.id, ·)

/-- Pins found in the table for an id are those of some node with this id. -/
theorem exists_of_lookup_pinTable {catalog : Catalog} {graph : Graph} {id : String}
    {pins : List Pin} (h : (graph.pinTable catalog).lookup id = some pins) :
    ∃ node ∈ graph.nodes, node.id = id ∧ catalog.pinsOf? node = some pins := by
  obtain ⟨node, hnode, hentry⟩ := List.mem_filterMap.1 (mem_of_lookup_eq_some h)
  obtain ⟨own, hown, heq⟩ := Option.map_eq_some_iff.1 hentry
  cases heq
  exact ⟨node, hnode, rfl, hown⟩

/-- The table has the pins of the first node with an id, if its type is known. -/
theorem lookup_pinTable {catalog : Catalog} {graph : Graph} {id : String} {node : Node}
    {pins : List Pin} (hnode : graph.node? id = some node)
    (hpins : catalog.pinsOf? node = some pins) :
    (graph.pinTable catalog).lookup id = some pins := by
  unfold node? at hnode
  unfold pinTable
  generalize graph.nodes = nodes at hnode ⊢
  induction nodes with
  | nil => cases hnode
  | cons first rest ih =>
    rw [List.find?_cons] at hnode
    rw [List.filterMap_cons]
    by_cases hid : id = first.id
    · subst hid
      rw [beq_self_eq_true] at hnode
      cases hnode
      simp [hpins]
    · have hne : (first.id == id) = false := by simpa using fun heq => hid heq.symm
      have hne' : (id == first.id) = false := by simpa using hid
      rw [hne] at hnode
      cases catalog.pinsOf? first with
      | none => exact ih hnode
      | some own => simpa [List.lookup_cons, hne'] using ih hnode

end Graph

/-- A reference names the pin that the first node with its id has. -/
theorem Catalog.resolvePin_eq_some {catalog : Catalog} {graph : Graph} {ref : PinRef} {pin : Pin}
    (h : catalog.resolvePin graph ref = .ok (some pin)) :
    ∃ node pins, graph.node? ref.nodeId = some node ∧ catalog.pinsOf? node = some pins ∧
      Pin.find? pins ref.pinId = some pin := by
  unfold resolvePin at h
  split at h
  · cases h
  next node hnode =>
    split at h
    · cases h
    next definition hdefinition =>
      cases hpins : definition.materialize node.config with
      | error fault =>
        rw [hpins] at h
        cases h
      | ok pins =>
        rw [hpins] at h
        refine ⟨node, pins, hnode, pinsOf?_eq_some_iff.2 ⟨definition, hdefinition, hpins⟩, ?_⟩
        injection h

/-! ## The passes -/

namespace Graph

/-- What is wrong with a node by itself. -/
def nodeFindings (catalog : Catalog) (graph : Graph) (node : Node) : List Finding :=
  match catalog.lookup? node.nodeType with
  | none => [.unknownNode node]
  | some definition =>
    configFindings definition node
      ++ requiredPinFindings graph node ((catalog.pinsOf? node).getD [])

/-- The check of a node succeeds just if its pins can be found, and then gives what is wrong with it
and its pins. -/
theorem gives_checkNode (catalog : Catalog) (graph : Graph) (node : Node) :
    Gives (checkNode catalog graph node) (catalog.Materializes node)
      (nodeFindings catalog graph node, catalog.pinsOf? node) := by
  intro checked
  unfold checkNode Catalog.Materializes nodeFindings Catalog.pinsOf?
  cases catalog.lookup? node.nodeType with
  | none => simp [eq_comm]
  | some definition =>
    cases hpins : definition.materialize node.config with
    | error fault => simp [bind, Except.bind, hpins]
    | ok pins => simp [bind, Except.bind, hpins, Except.toOption, eq_comm]

/-- The checks of all nodes succeed just if the pins of each can be found, and then give what is
wrong with them and the table of pins. -/
theorem gives_checkNodes (catalog : Catalog) (graph : Graph) :
    Gives (checkNodes catalog graph) (∀ node ∈ graph.nodes, catalog.Materializes node)
      (graph.nodes.flatMap (nodeFindings catalog graph), graph.pinTable catalog) := by
  have hmapM := Gives.mapM (fun node => (gives_checkNode catalog graph node).bind_pure (node.id, ·))
    graph.nodes
  have hpure := hmapM.bind_pure fun checked =>
    (checked.flatMap (·.2.1), checked.filterMap fun c => c.2.2.map (c.1, ·))
  rw [List.flatMap_map, List.filterMap_map] at hpure
  exact hpure

/-- Everything that is wrong with a graph of which the pins of every node can be found. -/
def foundIn (catalog : Catalog) (graph : Graph) : List Finding :=
  (repeats (graph.nodes.map (·.id))).map .duplicateNodeId
    ++ (repeats (graph.edges.map (·.id))).map .duplicateEdgeId
    ++ graph.nodes.flatMap (nodeFindings catalog graph)
    ++ graph.edges.flatMap (graph.edgeFindings (graph.pinTable catalog))
    ++ graph.capacityFindings (graph.pinTable catalog)
    ++ flowFindings catalog graph (graph.pinTable catalog)
    ++ (ControlFlow.loopEdges graph.edges).map .controlCycle

/-- What is wrong with a graph that has one start and no loops, once it is known which nodes the
flow comes to from the start. Nothing is left to be searched for. -/
theorem foundIn_of_searches {catalog : Catalog} {graph : Graph} {start : Node}
    {reachable : List String} (hstarts : startNodes catalog graph = [start])
    (hreachable : ControlFlow.reachableFrom graph.edges start.id = reachable)
    (hloops : ControlFlow.loopEdges graph.edges = []) :
    foundIn catalog graph =
      (repeats (graph.nodes.map (·.id))).map .duplicateNodeId
        ++ (repeats (graph.edges.map (·.id))).map .duplicateEdgeId
        ++ graph.nodes.flatMap (nodeFindings catalog graph)
        ++ graph.edges.flatMap (graph.edgeFindings (graph.pinTable catalog))
        ++ graph.capacityFindings (graph.pinTable catalog)
        ++ startFindings catalog graph start
        ++ (graph.nodes.filter fun node =>
          !catalog.isStart node.nodeType && !reachable.contains node.id &&
            (((graph.pinTable catalog).lookup node.id).getD []).any (·.kind == .control)).map
              .unreachableNode := by
  unfold foundIn flowFindings unreachableFindings
  rw [hstarts, hloops]
  dsimp only
  rw [hreachable]
  simp only [List.map_nil, List.nil_append, List.append_nil, List.append_assoc]

/-- Validation gives issues just if the pins of all nodes can be found, and the issues are then the
reports on everything that is wrong. -/
theorem validate_eq_ok_iff (catalog : Catalog) (graph : Graph) (issues : List Issue) :
    validate catalog graph = .ok issues ↔
      (∀ node ∈ graph.nodes, catalog.Materializes node) ∧
        issues = (if (foundIn catalog graph).isEmpty then [.ok] else foundIn catalog graph).map
          Finding.report := by
  have hfindings : Gives (findings catalog graph)
      (∀ node ∈ graph.nodes, catalog.Materializes node) (foundIn catalog graph) :=
    (gives_checkNodes catalog graph).bind_pure _
  exact hfindings.bind_pure (fun found => (if found.isEmpty then [.ok] else found).map _) issues

end Graph

end AbilityGraph
