import AbilityGraph.Proofs.Validate.Findings

/-!
# Edges and the pins that they join

An edge at which validation finds nothing joins two pins as it should (`JoinsWell`), and an input at
which it finds nothing takes no more edges than it may (`WithinCapacity`). Both passes look pins up
in the table of first nodes of known types, which has what a reference resolves to (`Resolves`).
-/

set_option autoImplicit false

namespace AbilityGraph

/-- Whether two pins are the right ones for an edge. -/
structure JoinsWell (edge : Edge) (source target : Pin) : Prop where
  output : source.direction = .output
  input : target.direction = .input
  sourceKind : source.kind = edge.kind
  targetKind : target.kind = edge.kind
  dataType : edge.kind = .data → DataType.compatible source.dataType target.dataType = true

namespace Graph

/-- A reference names a pin of the first node with its id. -/
def Resolves (catalog : Catalog) (graph : Graph) (ref : PinRef) (pin : Pin) : Prop :=
  ∃ node pins, graph.node? ref.nodeId = some node ∧ catalog.pinsOf? node = some pins ∧
    Pin.find? pins ref.pinId = some pin

/-- An input takes no more edges of its own kind than it may. -/
def WithinCapacity (graph : Graph) (nodeId : String) (pin : Pin) : Prop :=
  pin.direction = .input → ∀ limit, pin.capacity = some limit →
    graph.inboundCount nodeId pin ≤ limit

/-- A reference resolves to one pin at most. -/
theorem Resolves.unique {catalog : Catalog} {graph : Graph} {ref : PinRef} {pin other : Pin}
    (h : graph.Resolves catalog ref pin)
    (hother : graph.Resolves catalog ref other) : pin = other := by
  obtain ⟨node, pins, hnode, hpins, hpin⟩ := h
  obtain ⟨otherNode, otherPins, hotherNode, hotherPins, hotherPin⟩ := hother
  rw [hnode] at hotherNode
  cases hotherNode
  rw [hpins] at hotherPins
  cases hotherPins
  rw [hpin] at hotherPin
  cases hotherPin
  rfl

/-- The pin to which a reference resolves has the id that the reference gives. -/
theorem Resolves.id_eq {catalog : Catalog} {graph : Graph} {ref : PinRef} {pin : Pin}
    (h : graph.Resolves catalog ref pin) :
    pin.id = ref.pinId := by
  obtain ⟨node, pins, -, -, hpin⟩ := h
  exact (Pin.mem_of_find? hpin).2

/-- A pin is found for a reference just if this resolves to it. -/
theorem resolvePin_eq_some_iff {catalog : Catalog} {graph : Graph} {ref : PinRef} {pin : Pin} :
    catalog.resolvePin graph ref = .ok (some pin) ↔ graph.Resolves catalog ref pin := by
  refine ⟨Catalog.resolvePin_eq_some, ?_⟩
  rintro ⟨node, pins, hnode, hpins, hpin⟩
  obtain ⟨definition, hdefinition, hmaterialize⟩ := Catalog.pinsOf?_eq_some_iff.1 hpins
  simp only [Catalog.resolvePin, hnode, hdefinition, hmaterialize, Except.map, hpin]

/-- If ids differ, then a node is found by its id. -/
theorem node?_eq_some_of_mem {graph : Graph} (hnodup : (graph.nodes.map (·.id)).Nodup)
    {node : Node} (hnode : node ∈ graph.nodes) : graph.node? node.id = some node :=
  find?_eq_some_of_mem Node.id hnodup hnode

/-- Nothing is wrong with an edge between two pins just if it joins them well. -/
theorem joinFindings_eq_nil_iff (edge : Edge) (source target : Pin) :
    joinFindings edge source target = [] ↔ JoinsWell edge source target := by
  unfold joinFindings
  simp only [List.append_eq_nil_iff, ite_eq_right_iff, reduceCtorEq, imp_false, not_or,
    Decidable.not_not]
  constructor
  · rintro ⟨⟨houtput, hinput⟩, hkind⟩
    split at hkind
    · cases hkind
    next hkinds =>
      split at hkind
      · cases hkind
      next hedge =>
        split at hkind
        · cases hkind
        next htypes =>
          have hkinds : source.kind = target.kind := Decidable.not_not.1 hkinds
          have hedge : edge.kind = source.kind := Decidable.not_not.1 hedge
          refine ⟨houtput, hinput, hedge.symm, hkinds ▸ hedge.symm, fun hdata => ?_⟩
          exact Decidable.byContradiction fun hnot => htypes ⟨hedge ▸ hdata, hnot⟩
  · rintro ⟨houtput, hinput, hsource, htarget, htypes⟩
    refine ⟨⟨houtput, hinput⟩, ?_⟩
    have hdata : ¬(source.kind = .data ∧
        ¬DataType.compatible source.dataType target.dataType = true) :=
      fun h => h.2 (htypes (hsource ▸ h.1))
    rw [if_neg (by simp [hsource, htarget]), if_neg (by simp [hsource]), if_neg hdata]

/-- If both ends of an edge resolve, then what is wrong with it is what is wrong between these
pins. -/
theorem edgeFindings_of_resolves {catalog : Catalog} {graph : Graph} {edge : Edge}
    {source target : Pin} (hsource : graph.Resolves catalog edge.source source)
    (htarget : graph.Resolves catalog edge.target target) :
    graph.edgeFindings (graph.pinTable catalog) edge = joinFindings edge source target := by
  obtain ⟨sourceNode, sourcePins, hsourceNode, hsourcePins, hsource⟩ := hsource
  obtain ⟨targetNode, targetPins, htargetNode, htargetPins, htarget⟩ := htarget
  have hsourceLookup := lookup_pinTable hsourceNode hsourcePins
  have htargetLookup := lookup_pinTable htargetNode htargetPins
  unfold edgeFindings
  rw [hsourceNode, htargetNode, hsourceLookup, htargetLookup]
  simp [hsource, htarget]

/-- If all nodes have types that are known, then nothing is found at an edge just if it joins pins
that are there as it should. -/
theorem edgeFindings_eq_nil_iff {catalog : Catalog} {graph : Graph}
    (hknown : ∀ node ∈ graph.nodes, ∃ pins, catalog.pinsOf? node = some pins) (edge : Edge) :
    graph.edgeFindings (graph.pinTable catalog) edge = [] ↔
      ∃ source target, graph.Resolves catalog edge.source source ∧
        graph.Resolves catalog edge.target target ∧ JoinsWell edge source target := by
  constructor
  · intro h
    unfold edgeFindings at h
    cases hsourceNode : graph.node? edge.source.nodeId with
    | none => simp [hsourceNode] at h
    | some sourceNode =>
      cases htargetNode : graph.node? edge.target.nodeId with
      | none => simp [htargetNode] at h
      | some targetNode =>
        obtain ⟨sourcePins, hsourcePins⟩ := hknown _ (List.mem_of_find?_eq_some hsourceNode)
        obtain ⟨targetPins, htargetPins⟩ := hknown _ (List.mem_of_find?_eq_some htargetNode)
        rw [hsourceNode, htargetNode, lookup_pinTable hsourceNode hsourcePins,
          lookup_pinTable htargetNode htargetPins, if_neg (by simp)] at h
        dsimp only at h
        split at h
        next source target hsource htarget =>
          exact ⟨source, target, ⟨sourceNode, sourcePins, hsourceNode, hsourcePins, hsource⟩,
            ⟨targetNode, targetPins, htargetNode, htargetPins, htarget⟩,
            (joinFindings_eq_nil_iff edge source target).1 h⟩
        · cases h
  · rintro ⟨source, target, hsource, htarget, hjoins⟩
    rw [edgeFindings_of_resolves hsource htarget, joinFindings_eq_nil_iff]
    exact hjoins

/-- A pin is not reported as overfull just if it takes no more edges than it may. -/
theorem capacityFinding?_eq_none_iff (graph : Graph) (node : Node) (pin : Pin) :
    graph.capacityFinding? node pin = none ↔ graph.WithinCapacity node.id pin := by
  unfold capacityFinding? WithinCapacity
  by_cases hinput : pin.direction = .input
  · cases hcapacity : pin.capacity with
    | none => simp [hinput]
    | some limit => simp [hinput]
  · simp [hinput]

/-- If ids differ, then every node is the first with its id. -/
theorem firstNodes_eq_self {seen : List String} {nodes : List Node}
    (hnodup : (nodes.map (·.id)).Nodup) (hseen : ∀ node ∈ nodes, node.id ∉ seen) :
    firstNodes seen nodes = nodes := by
  induction nodes generalizing seen with
  | nil => rfl
  | cons first rest ih =>
    rw [List.map_cons, List.nodup_cons] at hnodup
    have hfirst : ¬ seen.contains first.id = true := by
      simpa using hseen first List.mem_cons_self
    have hrest : firstNodes (first.id :: seen) rest = rest := by
      apply ih hnodup.2
      intro node hnode hmem
      rcases List.mem_cons.1 hmem with heq | hmem
      · exact hnodup.1 (heq ▸ List.mem_map_of_mem hnode)
      · exact hseen node (List.mem_cons_of_mem _ hnode) hmem
    rw [firstNodes, if_neg hfirst, hrest]

/-- No input has too many edges if every input with pins in the table is within its capacity. -/
theorem capacityFindings_eq_nil {catalog : Catalog} {graph : Graph}
    (h : ∀ node ∈ graph.nodes, ∀ pins, catalog.pinsOf? node = some pins →
      ∀ pin ∈ pins, graph.WithinCapacity node.id pin) :
    graph.capacityFindings (graph.pinTable catalog) = [] := by
  unfold capacityFindings
  rw [List.flatMap_eq_nil_iff]
  intro node hnode
  rw [List.filterMap_eq_nil_iff]
  intro pin hpin
  rw [capacityFinding?_eq_none_iff]
  cases hlookup : (graph.pinTable catalog).lookup node.id with
  | none =>
    rw [hlookup] at hpin
    cases hpin
  | some pins =>
    rw [hlookup] at hpin
    obtain ⟨owner, howner, hid, hpins⟩ := exists_of_lookup_pinTable hlookup
    rw [← hid]
    exact h owner howner pins hpins pin hpin

end Graph

end AbilityGraph
