import AbilityGraph.Proofs.Compile.Lookups
import AbilityGraph.Proofs.Validate.WellFormed

/-!
# Where issues are shown

Each issue says where in the graph it is to be shown, and an editor can follow it there whatever is
wrong with the graph: the node or the edge is one of the graph, and the pin is one that a node with
the given id has. Only that there is no start, and that nothing is wrong, is shown at no place
(`Graph.issues_located`).

Most findings are made at a node or an edge that is being looked at. Two take a pin from elsewhere:
the capacity of inputs is checked for the pins in the table of first nodes of known types, and the
output of the start is the one that its definition names. That this is a pin of the start is known
from loading the catalog.
-/

set_option autoImplicit false

namespace AbilityGraph

/-- A place is one in a graph. -/
def Place.IsIn (catalog : Catalog) (graph : Graph) : Place → Prop
  | node nodeId => ∃ node ∈ graph.nodes, node.id = nodeId
  | pin nodeId pinId => ∃ pin, graph.HasPin catalog ⟨nodeId, pinId⟩ pin
  | edge edgeId => ∃ edge ∈ graph.edges, edge.id = edgeId

/-- A finding is shown at a place in a graph; only that there is no start is shown at none. -/
inductive Finding.Located (catalog : Catalog) (graph : Graph) : Finding → Prop
  | missingStart (startType : String) : Located catalog graph (.missingStart startType)
  | shown {finding : Finding} {place : Place} (hplace : finding.place = some place)
      (hin : place.IsIn catalog graph) : Located catalog graph finding

namespace Finding

variable {catalog : Catalog} {graph : Graph} {finding : Finding}

/-- Only that all is well, and that there is no start, are shown at no place. -/
theorem place_eq_none_iff (finding : Finding) :
    finding.place = none ↔ finding.code = .ok ∨ finding.code = .missingStart := by
  cases finding <;> simp [place, code]

/-- What is shown at a place does not say that all is well. -/
theorem Located.code_ne_ok (h : finding.Located catalog graph) : finding.code ≠ .ok := by
  cases h with
  | missingStart startType => simp [code]
  | shown hplace hin =>
    intro hcode
    rw [finding.place_eq_none_iff.2 (.inl hcode)] at hplace
    cases hplace

/-- The place at which a finding is shown is one in the graph. -/
theorem Located.isIn (h : finding.Located catalog graph) {place : Place}
    (hplace : finding.place = some place) : place.IsIn catalog graph := by
  cases h with
  | missingStart startType => cases hplace
  | shown hshown hin =>
    rw [hshown] at hplace
    cases hplace
    exact hin

end Finding

namespace Graph

variable {catalog : Catalog} {graph : Graph} {finding : Finding}

/-! ## The passes -/

/-- What is shown at a node of the graph has a place in it. -/
theorem located_of_node {node : Node} (hnode : node ∈ graph.nodes)
    (hplace : finding.place = some (.node node.id)) : finding.Located catalog graph :=
  .shown hplace ⟨node, hnode, rfl⟩

/-- What is shown at an edge of the graph has a place in it. -/
theorem located_of_edge {edge : Edge} (hedge : edge ∈ graph.edges)
    (hplace : finding.place = some (.edge edge.id)) : finding.Located catalog graph :=
  .shown hplace ⟨edge, hedge, rfl⟩

/-- What is shown at a pin of a node of the graph has a place in it. -/
theorem located_of_pin {node : Node} (hnode : node ∈ graph.nodes) {pins : List Pin}
    (hpins : catalog.pinsOf? node = some pins) {pin : Pin} (hpin : pin ∈ pins)
    (hplace : finding.place = some (.pin node.id pin.id)) : finding.Located catalog graph :=
  .shown hplace ⟨pin, node, hnode, rfl, pins, hpins, hpin, rfl⟩

/-- What is repeated in a list is in it. -/
theorem mem_of_mem_repeats {x : String} {entries : List String} (h : x ∈ repeats entries) :
    x ∈ entries :=
  List.count_pos_iff.1 (Nat.zero_lt_of_lt (one_lt_count_of_mem_repeats h))

/-- What is wrong with a node by itself is shown at the node or at one of its pins. -/
theorem located_nodeFindings {node : Node} (hnode : node ∈ graph.nodes)
    (h : finding ∈ nodeFindings catalog graph node) : finding.Located catalog graph := by
  unfold nodeFindings at h
  split at h
  · rw [List.mem_singleton.1 h]
    exact located_of_node hnode rfl
  next definition hdefinition =>
    rcases List.mem_append.1 h with h | h
    · obtain ⟨entry, -, hentry⟩ := List.mem_filterMap.1 h
      unfold configFinding? at hentry
      split at hentry
      · cases hentry
        exact located_of_node hnode rfl
      · split at hentry
        · cases hentry
        · obtain ⟨fault, -, rfl⟩ := Option.map_eq_some_iff.1 hentry
          exact located_of_node hnode rfl
    · obtain ⟨pin, hpin, rfl⟩ := List.mem_map.1 h
      cases hpins : catalog.pinsOf? node with
      | none =>
        rw [hpins] at hpin
        cases hpin
      | some pins =>
        rw [hpins] at hpin
        exact located_of_pin hnode hpins (List.mem_filter.1 hpin).1 rfl

/-- The pins that are looked at for capacity are those of some node with the id, though it need not
be the first. -/
theorem located_capacityFindings (h : finding ∈ graph.capacityFindings (graph.pinTable catalog)) :
    finding.Located catalog graph := by
  obtain ⟨first, -, h⟩ := List.mem_flatMap.1 h
  obtain ⟨pin, hpin, h⟩ := List.mem_filterMap.1 h
  cases hlookup : (graph.pinTable catalog).lookup first.id with
  | none =>
    rw [hlookup] at hpin
    cases hpin
  | some pins =>
    rw [hlookup] at hpin
    obtain ⟨owner, howner, hid, hpins⟩ := exists_of_lookup_pinTable hlookup
    unfold capacityFinding? at h
    split at h
    · obtain ⟨limit, -, rfl⟩ := Option.map_eq_some_iff.1 h
      refine located_of_pin howner hpins hpin ?_
      rw [hid]
      rfl
    · cases h

/-- The output at which the flow of a start goes on is one of its pins. -/
theorem exists_startPin {definitions : List Definition} {startType : String}
    (hload : Catalog.load definitions startType = .ok catalog) {start : Node}
    (hstart : catalog.isStart start.nodeType = true) (hpins : catalog.Materializes start) :
    ∃ pins, catalog.pinsOf? start = some pins ∧
      ∃ pin ∈ pins, startOutput? catalog start = some pin.id := by
  obtain ⟨definition, next, hlookup, hentry⟩ := Catalog.entry_of_load hload
  rw [← eq_of_beq hstart] at hlookup
  obtain ⟨pins, hmaterialize⟩ := hpins definition hlookup
  have hchecked := (Definition.check_eq_ok (Catalog.check_of_lookup? hload hlookup)).2
  rw [Definition.checkLowering, hentry] at hchecked
  obtain ⟨pin, hpin, -⟩ := Definition.finds_of_checkStaticPin hmaterialize hchecked
  obtain ⟨hmem, rfl⟩ := Pin.mem_of_find? hpin
  refine ⟨pins, Catalog.pinsOf?_eq_some_iff.2 ⟨definition, hlookup, hmaterialize⟩, pin, hmem, ?_⟩
  rw [startOutput?, hlookup, Option.bind_some, hentry]
  rfl

/-- What is wrong with the start and the flow from it is shown at a place in the graph, apart from a
missing start. -/
theorem located_flowFindings {definitions : List Definition} {startType : String}
    (hload : Catalog.load definitions startType = .ok catalog)
    (hall : ∀ node ∈ graph.nodes, catalog.Materializes node) {table : PinTable}
    (h : finding ∈ flowFindings catalog graph table) : finding.Located catalog graph := by
  unfold flowFindings at h
  split at h
  · rw [List.mem_singleton.1 h]
    exact .missingStart _
  next start others hstarts =>
    have hnodes : ∀ node ∈ start :: others,
        node ∈ graph.nodes ∧ catalog.isStart node.nodeType = true := by
      intro node hnode
      exact List.mem_filter.1 (hstarts ▸ hnode)
    rw [List.mem_append, List.mem_append] at h
    rcases h with (h | h) | h
    · obtain ⟨node, hnode, rfl⟩ := List.mem_map.1 h
      exact located_of_node (hnodes node (List.mem_cons_of_mem _ hnode)).1 rfl
    · obtain ⟨hstart, htype⟩ := hnodes start List.mem_cons_self
      obtain ⟨pins, hpins, pin, hpin, houtput⟩ := exists_startPin hload htype (hall start hstart)
      unfold startFindings at h
      rw [houtput] at h
      dsimp only at h
      split at h
      · cases h
      · rw [List.mem_singleton.1 h]
        exact located_of_pin hstart hpins hpin rfl
    · obtain ⟨node, hnode, rfl⟩ := List.mem_map.1 h
      exact located_of_node (List.mem_filter.1 hnode).1 rfl

/-! ## The whole graph -/

/-- All that is found in a graph is shown at a place in it, apart from a missing start. -/
theorem located_of_mem_foundIn {definitions : List Definition} {startType : String}
    (hload : Catalog.load definitions startType = .ok catalog)
    (hall : ∀ node ∈ graph.nodes, catalog.Materializes node)
    (h : finding ∈ foundIn catalog graph) : finding.Located catalog graph := by
  unfold foundIn at h
  simp only [List.mem_append] at h
  rcases h with (((((h | h) | h) | h) | h) | h) | h
  · obtain ⟨id, hid, rfl⟩ := List.mem_map.1 h
    obtain ⟨node, hnode, rfl⟩ := List.mem_map.1 (mem_of_mem_repeats hid)
    exact located_of_node hnode rfl
  · obtain ⟨id, hid, rfl⟩ := List.mem_map.1 h
    obtain ⟨edge, hedge, rfl⟩ := List.mem_map.1 (mem_of_mem_repeats hid)
    exact located_of_edge hedge rfl
  · obtain ⟨node, hnode, h⟩ := List.mem_flatMap.1 h
    exact located_nodeFindings hnode h
  · obtain ⟨edge, hedge, h⟩ := List.mem_flatMap.1 h
    exact located_of_edge hedge (error_of_mem_edgeFindings h).2
  · exact located_capacityFindings h
  · exact located_flowFindings hload hall h
  · obtain ⟨edge, hedge, rfl⟩ := List.mem_map.1 h
    exact located_of_edge ((ControlFlow.mem_loopEdges_iff _ _).1 hedge).1 rfl

/-- Validation with a catalog that was loaded gives some issue. That nothing is wrong is the only
issue if it is one at all. All issues but this and that there is no start have a place, and each
place is one in the graph. -/
theorem issues_located {definitions : List Definition} {startType : String}
    (hload : Catalog.load definitions startType = .ok catalog) {issues : List Issue}
    (hvalidate : graph.validate catalog = .ok issues) :
    issues ≠ [] ∧
      ((∃ issue ∈ issues, issue.code = .ok) ↔ issues = [Finding.ok.report]) ∧
      ∀ issue ∈ issues,
        (issue.place = none ↔ issue.code = .ok ∨ issue.code = .missingStart) ∧
        ∀ place, issue.place = some place → place.IsIn catalog graph := by
  obtain ⟨hall, rfl⟩ := (validate_eq_ok_iff catalog graph issues).1 hvalidate
  have hlocated : ∀ finding ∈ foundIn catalog graph, finding.Located catalog graph := fun _ =>
    located_of_mem_foundIn hload hall
  generalize foundIn catalog graph = found at hlocated
  cases found with
  | nil =>
    refine ⟨List.cons_ne_nil _ _, ⟨fun _ => rfl, fun _ => ⟨_, List.mem_cons_self, rfl⟩⟩, ?_⟩
    intro issue hissue
    rw [List.mem_singleton.1 hissue]
    exact ⟨Finding.place_eq_none_iff .ok, fun _ hplace => by cases hplace⟩
  | cons first rest =>
    refine ⟨List.cons_ne_nil _ _, ⟨?_, ?_⟩, ?_⟩
    · rintro ⟨issue, hissue, hok⟩
      obtain ⟨finding, hfinding, rfl⟩ := List.mem_map.1 hissue
      exact absurd hok (hlocated finding hfinding).code_ne_ok
    · intro honly
      have hcode : first.code = .ok := congrArg Issue.code (List.cons.inj honly).1
      exact absurd hcode (hlocated first List.mem_cons_self).code_ne_ok
    · intro issue hissue
      obtain ⟨finding, hfinding, rfl⟩ := List.mem_map.1 hissue
      exact ⟨finding.place_eq_none_iff, fun _ => (hlocated finding hfinding).isIn⟩

end Graph

/-- A graph with two nodes of one id, of which one has a type that is not known, and an edge that
leads nowhere. -/
def torn : Graph where
  id := "torn"
  nodes := [⟨"start", "start", .empty⟩, ⟨"heal", "unknown", .empty⟩, ⟨"heal", "heal", .empty⟩]
  edges := [.plain "loose" .data ⟨"heal", "execOut"⟩ ⟨"lost", "execIn"⟩]

/-- What is wrong with the torn graph. -/
def tornFindings : List Finding := [
  .duplicateNodeId "heal",
  .unknownNode ⟨"heal", "unknown", .empty⟩,
  .edgeNodeMissing (.plain "loose" .data ⟨"heal", "execOut"⟩ ⟨"lost", "execIn"⟩),
  .startUnconnected ⟨"start", "start", .empty⟩ "execOut",
  .unreachableNode ⟨"heal", "unknown", .empty⟩,
  .unreachableNode ⟨"heal", "heal", .empty⟩]

/-- An editor can follow all issues of the torn graph to their places. -/
theorem torn_issues_located :
    torn.validate .healing = .ok (tornFindings.map Finding.report) ∧
      ∀ finding ∈ tornFindings, ∃ place, finding.place = some place ∧
        place.IsIn .healing torn := by
  have hload : Catalog.load [Builtin.start, Builtin.action "heal" "Heal" "HEAL" []] "start" =
      .ok .healing := by
    with_unfolding_all rfl
  have hvalidate : torn.validate .healing = .ok (tornFindings.map Finding.report) := by
    with_unfolding_all rfl
  have hplaced : ∀ finding ∈ tornFindings, finding.place.isSome = true := by
    decide
  obtain ⟨-, -, hplaces⟩ := Graph.issues_located hload hvalidate
  refine ⟨hvalidate, fun finding hfinding => ?_⟩
  obtain ⟨place, hplace⟩ := Option.isSome_iff_exists.1 (hplaced finding hfinding)
  exact ⟨place, hplace, (hplaces _ (List.mem_map_of_mem hfinding)).2 place hplace⟩

end AbilityGraph
