import AbilityGraph.Proofs.Catalog
import AbilityGraph.Proofs.Connect

/-!
# Graphs without errors

`WellFormed` says without reference to any pass of validation what a graph must be like. Validation
reports an error just if a graph is not well formed (`no_errors_iff_wellFormed`).

The passes are not independent: an edge at a node of an unknown type is passed over, and of nodes
with one id only the first is looked at for capacity. In both cases there is another error, so the
clauses for edges and capacity are taken from their passes only once ids are known to be different
and types to be known.
-/

set_option autoImplicit false

namespace AbilityGraph

open ControlFlow (OnLoop loopEdges_eq_filter)

/-! ## Config values -/

/-- A value is one that a config field may have. Bounds are compared with numbers as doubles. -/
structure ConfigField.Accepts (field : ConfigField) (value : Value) : Prop where
  type : field.type.admits value = true
  allowed : ∀ allowed, field.allowed = some allowed → allowed.contains value = true
  minimum : ∀ minimum number, field.minimum = some minimum → value.number? = some number →
    minimum ≤ number.toDouble
  maximum : ∀ maximum number, field.maximum = some maximum → value.number? = some number →
    number.toDouble ≤ maximum

/-- A double is not below another just if the other is at most it. -/
theorem Double.not_lt {x y : Double} : ¬ x < y ↔ y ≤ x := Int.not_lt

/-- A number passes the check of the bounds just if it is between those there are. -/
theorem ConfigField.checkBounds_eq_none_iff (field : ConfigField) (number : Double) :
    field.checkBounds number = none ↔
      (∀ minimum, field.minimum = some minimum → minimum ≤ number) ∧
        ∀ maximum, field.maximum = some maximum → number ≤ maximum := by
  unfold checkBounds
  split
  next minimum hminimum =>
    obtain ⟨hfield, hlt⟩ := Option.filter_eq_some_iff.1 hminimum
    constructor
    · intro h
      cases h
    · intro h
      exact absurd (of_decide_eq_true hlt) (Double.not_lt.2 (h.1 minimum hfield))
  next maximum hminimum hmaximum =>
    obtain ⟨hfield, hlt⟩ := Option.filter_eq_some_iff.1 hmaximum
    constructor
    · intro h
      cases h
    · intro h
      exact absurd (of_decide_eq_true hlt) (Double.not_lt.2 (h.2 maximum hfield))
  next hminimum hmaximum =>
    rw [Option.filter_eq_none_iff] at hminimum hmaximum
    refine ⟨fun _ => ⟨fun minimum h => ?_, fun maximum h => ?_⟩, fun _ => rfl⟩
    · exact Double.not_lt.1 fun hlt => hminimum minimum h (decide_eq_true hlt)
    · exact Double.not_lt.1 fun hlt => hmaximum maximum h (decide_eq_true hlt)

/-- A value passes the check of a field just if the field may have it. -/
theorem ConfigField.check_eq_none_iff (field : ConfigField) (value : Value) :
    field.check value = none ↔ field.Accepts value := by
  unfold check
  split
  next htype =>
    constructor
    · intro h
      cases h
    · intro h
      rw [h.type] at htype
      cases htype
  next htype =>
    have htype : field.type.admits value = true := by simpa using htype
    split
    next allowed hallowed =>
      obtain ⟨hfield, hnot⟩ := Option.filter_eq_some_iff.1 hallowed
      constructor
      · intro h
        cases h
      · intro h
        rw [h.allowed allowed hfield] at hnot
        cases hnot
    next hallowed =>
      rw [Option.filter_eq_none_iff] at hallowed
      have hallowed : ∀ allowed, field.allowed = some allowed →
          allowed.contains value = true := by
        intro allowed hfield
        simpa using hallowed allowed hfield
      cases hnumber : value.number? with
      | none =>
        constructor
        · intro _
          exact ⟨htype, hallowed, fun _ number _ h => by simp [hnumber] at h,
            fun _ number _ h => by simp [hnumber] at h⟩
        · intro _
          rfl
      | some number =>
        rw [Option.bind_some, checkBounds_eq_none_iff]
        constructor
        · rintro ⟨hminimum, hmaximum⟩
          refine ⟨htype, hallowed, fun minimum found hfield hfound => ?_,
            fun maximum found hfield hfound => ?_⟩
          · rw [hnumber] at hfound
            cases hfound
            exact hminimum minimum hfield
          · rw [hnumber] at hfound
            cases hfound
            exact hmaximum maximum hfield
        · intro h
          exact ⟨fun minimum hfield => h.minimum minimum number hfield hnumber,
            fun maximum hfield => h.maximum maximum number hfield hnumber⟩

namespace Graph

/-! ## Well-formed graphs -/

/-- A pin is among the pins of a node that a reference names. -/
def HasPin (catalog : Catalog) (graph : Graph) (ref : PinRef) (pin : Pin) : Prop :=
  ∃ node ∈ graph.nodes, node.id = ref.nodeId ∧
    ∃ pins, catalog.pinsOf? node = some pins ∧ pin ∈ pins ∧ pin.id = ref.pinId

/-- An edge of a pin's own kind is at the pin, on the pin's own side. -/
def Connected (graph : Graph) (nodeId : String) (pin : Pin) : Prop :=
  ∃ e ∈ graph.edges, e.kind = pin.kind ∧
    (match pin.direction with
      | .input => e.target
      | .output => e.source) = ⟨nodeId, pin.id⟩

/-- What a graph must be like to be compiled. -/
structure WellFormed (catalog : Catalog) (graph : Graph) : Prop where
  nodeIds : (graph.nodes.map (·.id)).Nodup
  edgeIds : (graph.edges.map (·.id)).Nodup
  known : ∀ node ∈ graph.nodes, ∃ definition, catalog.lookup? node.nodeType = some definition
  config : ∀ node ∈ graph.nodes, ∀ definition,
    catalog.lookup? node.nodeType = some definition →
    ∀ entry ∈ node.config.entries, ∀ field, definition.schema.get? entry.1 = some field →
      entry.2.isNull = false → field.Accepts entry.2
  required : ∀ node ∈ graph.nodes, ∀ pins, catalog.pinsOf? node = some pins →
    ∀ pin ∈ pins, pin.required = true → pin.defaultValue = none → graph.Connected node.id pin
  edges : ∀ e ∈ graph.edges, ∃ source target, graph.HasPin catalog e.source source ∧
    graph.HasPin catalog e.target target ∧ JoinsWell e source target
  capacity : ∀ node ∈ graph.nodes, ∀ pins, catalog.pinsOf? node = some pins →
    ∀ pin ∈ pins, graph.WithinCapacity node.id pin
  start : ∃ start definition next,
    graph.nodes.filter (fun node => catalog.isStart node.nodeType) = [start] ∧
      catalog.lookup? start.nodeType = some definition ∧ definition.lowering = .entry next ∧
      ∃ e ∈ graph.edges, e.kind = .control ∧ e.source = ⟨start.id, next⟩
  acyclic : ∀ e ∈ graph.edges, ¬ OnLoop graph.edges e

/-- If ids differ, then a reference resolves to the pin that it names. -/
theorem hasPin_iff_resolves {catalog : Catalog} {graph : Graph}
    (hnodup : (graph.nodes.map (·.id)).Nodup) (ref : PinRef) (pin : Pin) :
    graph.HasPin catalog ref pin ↔ graph.Resolves catalog ref pin := by
  constructor
  · rintro ⟨node, hnode, hid, pins, hpins, hpin, hpinId⟩
    refine ⟨node, pins, ?_, hpins, ?_⟩
    · rw [← hid]
      exact node?_eq_some_of_mem hnodup hnode
    · rw [← hpinId]
      exact Pin.find?_eq_some_of_mem (Catalog.pinsOf?_nodup hpins) hpin
  · rintro ⟨node, pins, hnode, hpins, hpin⟩
    obtain ⟨hmem, hid⟩ := Pin.mem_of_find? hpin
    exact ⟨node, List.mem_of_find?_eq_some hnode, by simpa using List.find?_some hnode, pins, hpins,
      hmem, hid⟩

/-- A pin is found connected just if an edge of its kind is at it. -/
theorem isConnected_iff (graph : Graph) (node : Node) (pin : Pin) :
    graph.isConnected node pin = true ↔ graph.Connected node.id pin := by
  unfold isConnected Connected edgesInto edgesFrom
  cases pin.direction <;> simp [List.any_eq_true, and_comm, and_left_comm]

/-! ## Errors among findings -/

/-- No finding of a list is an error. -/
def NoError (found : List Finding) : Prop := ∀ finding ∈ found, finding.severity ≠ .error

/-- There is no error in two lists together just if there is none in either. -/
theorem noError_append_iff (found others : List Finding) :
    NoError (found ++ others) ↔ NoError found ∧ NoError others :=
  List.forall_mem_append

/-- In a list of errors there is no error just if it is empty. -/
theorem noError_iff_eq_nil {found : List Finding}
    (h : ∀ finding ∈ found, finding.severity = .error) : NoError found ↔ found = [] := by
  constructor
  · intro hnone
    rw [List.eq_nil_iff_forall_not_mem]
    intro finding hfinding
    exact hnone finding hfinding (h finding hfinding)
  · rintro rfl finding hfinding
    cases hfinding

/-- If each entry gives an error, then there is none just if there are no entries. -/
theorem noError_map_iff {α : Type} (entries : List α) {f : α → Finding}
    (hf : ∀ x, (f x).severity = .error) : NoError (entries.map f) ↔ entries = [] := by
  rw [noError_iff_eq_nil, List.map_eq_nil_iff]
  intro finding hfinding
  obtain ⟨x, -, rfl⟩ := List.mem_map.1 hfinding
  exact hf x

/-- There is no error in what all entries give just if there is none in what each of them gives. -/
theorem noError_flatMap_iff {α : Type} (entries : List α) (f : α → List Finding) :
    NoError (entries.flatMap f) ↔ ∀ x ∈ entries, NoError (f x) := by
  unfold NoError
  simp only [List.mem_flatMap]
  constructor
  · intro h x hx finding hfinding
    exact h finding ⟨x, hx, hfinding⟩
  · rintro h finding ⟨x, hx, hfinding⟩
    exact h x hx finding hfinding

/-! ## The passes -/

/-- There is no error in a config just if each known field that is set and not null has a value that
it may have. -/
theorem noError_configFindings_iff (definition : Definition) (node : Node) :
    NoError (configFindings definition node) ↔ ∀ entry ∈ node.config.entries, ∀ field,
      definition.schema.get? entry.1 = some field → entry.2.isNull = false →
        field.Accepts entry.2 := by
  have hentry : ∀ entry : String × Value,
      (∀ finding, configFinding? definition node entry.1 entry.2 = some finding →
        finding.severity ≠ .error) ↔
      ∀ field, definition.schema.get? entry.1 = some field → entry.2.isNull = false →
        field.Accepts entry.2 := by
    intro entry
    unfold configFinding?
    cases definition.schema.get? entry.1 with
    | none => simp [Finding.severity]
    | some field =>
      cases hnull : entry.2.isNull with
      | true => simp
      | false =>
        cases hcheck : field.check entry.2 with
        | none =>
          have haccepts := (field.check_eq_none_iff entry.2).1 hcheck
          simpa [hcheck] using haccepts
        | some fault =>
          have hnot : ¬ field.Accepts entry.2 := fun haccepts => by
            rw [(field.check_eq_none_iff entry.2).2 haccepts] at hcheck
            cases hcheck
          simpa [hcheck, Finding.severity] using hnot
  unfold NoError configFindings
  constructor
  · intro h entry hmem
    rw [← hentry]
    intro finding hfinding
    exact h finding (List.mem_filterMap.2 ⟨entry, hmem, hfinding⟩)
  · intro h finding hfinding
    obtain ⟨entry, hmem, hfinding⟩ := List.mem_filterMap.1 hfinding
    exact (hentry entry).2 (h entry hmem) finding hfinding

/-- There is no error at the required pins of a node just if each without a default is connected. -/
theorem noError_requiredPinFindings_iff (graph : Graph) (node : Node) (pins : List Pin) :
    NoError (requiredPinFindings graph node pins) ↔ ∀ pin ∈ pins, pin.required = true →
      pin.defaultValue = none → graph.Connected node.id pin := by
  unfold requiredPinFindings
  rw [noError_map_iff _ fun _ => rfl, List.filter_eq_nil_iff]
  constructor
  · intro h pin hpin hrequired hdefault
    rw [← isConnected_iff]
    have := h pin hpin
    simpa [hrequired, hdefault] using this
  · intro h pin hpin hnot
    simp only [Bool.and_eq_true, Bool.not_eq_true', Option.isNone_iff_eq_none] at hnot
    have := (isConnected_iff graph node pin).2 (h pin hpin hnot.1.1 hnot.1.2)
    rw [this] at hnot
    exact absurd hnot.2 (by simp)

/-- A node with no error has a type that is known, and its config and its pins are as they should
be. -/
theorem noError_nodeFindings_iff {catalog : Catalog} (graph : Graph) {node : Node}
    (hpins : catalog.Materializes node) :
    NoError (nodeFindings catalog graph node) ↔ ∃ definition pins,
      catalog.lookup? node.nodeType = some definition ∧ catalog.pinsOf? node = some pins ∧
        NoError (configFindings definition node) ∧
        NoError (requiredPinFindings graph node pins) := by
  unfold nodeFindings
  cases hlookup : catalog.lookup? node.nodeType with
  | none =>
    constructor
    · intro h
      exact absurd rfl (h _ List.mem_cons_self)
    · rintro ⟨definition, pins, hdefinition, -⟩
      cases hdefinition
  | some definition =>
    obtain ⟨pins, hmaterialize⟩ := hpins definition hlookup
    have hsome : catalog.pinsOf? node = some pins :=
      Catalog.pinsOf?_eq_some_iff.2 ⟨definition, hlookup, hmaterialize⟩
    dsimp only
    rw [hsome, Option.getD_some, noError_append_iff]
    constructor
    · rintro ⟨hconfig, hrequired⟩
      exact ⟨definition, pins, rfl, rfl, hconfig, hrequired⟩
    · rintro ⟨found, others, hfound, hothers, h⟩
      cases hfound
      cases hothers
      exact h

/-- What is wrong with an edge is an error and is shown at the edge. -/
theorem error_of_mem_joinFindings {edge : Edge} {source target : Pin} {finding : Finding}
    (h : finding ∈ joinFindings edge source target) :
    finding.severity = .error ∧ finding.place = some (.edge edge.id) := by
  unfold joinFindings at h
  rcases List.mem_append.1 h with h | h
  · split at h
    · rw [List.mem_singleton.1 h]
      exact ⟨rfl, rfl⟩
    · cases h
  · split at h
    · rw [List.mem_singleton.1 h]
      exact ⟨rfl, rfl⟩
    · split at h
      · rw [List.mem_singleton.1 h]
        exact ⟨rfl, rfl⟩
      · split at h
        · rw [List.mem_singleton.1 h]
          exact ⟨rfl, rfl⟩
        · cases h

/-- What is wrong with an edge is an error, and is shown at the edge. -/
theorem error_of_mem_edgeFindings {graph : Graph} {table : PinTable} {edge : Edge}
    {finding : Finding} (h : finding ∈ graph.edgeFindings table edge) :
    finding.severity = .error ∧ finding.place = some (.edge edge.id) := by
  unfold edgeFindings at h
  split at h
  · rw [List.mem_singleton.1 h]
    exact ⟨rfl, rfl⟩
  · split at h
    · split at h
      · exact error_of_mem_joinFindings h
      · rw [List.mem_singleton.1 h]
        exact ⟨rfl, rfl⟩
    · cases h

/-- What is wrong with an edge is an error. -/
theorem severity_of_mem_edgeFindings {graph : Graph} {table : PinTable} {edge : Edge}
    {finding : Finding} (h : finding ∈ graph.edgeFindings table edge) :
    finding.severity = .error :=
  (error_of_mem_edgeFindings h).1

/-- There is no error at any edge just if each joins two pins of nodes well. -/
theorem noError_edges_iff {catalog : Catalog} {graph : Graph}
    (hnodup : (graph.nodes.map (·.id)).Nodup)
    (hknown : ∀ node ∈ graph.nodes, ∃ pins, catalog.pinsOf? node = some pins) :
    NoError (graph.edges.flatMap (graph.edgeFindings (graph.pinTable catalog))) ↔
      ∀ e ∈ graph.edges, ∃ source target, graph.HasPin catalog e.source source ∧
        graph.HasPin catalog e.target target ∧ JoinsWell e source target := by
  rw [noError_flatMap_iff]
  apply forall_congr'
  intro e
  rw [noError_iff_eq_nil fun _ => severity_of_mem_edgeFindings, edgeFindings_eq_nil_iff hknown]
  simp only [hasPin_iff_resolves hnodup]

/-- That a pin takes too many edges is an error. -/
theorem severity_of_mem_capacityFindings {graph : Graph} {table : PinTable} {finding : Finding}
    (h : finding ∈ graph.capacityFindings table) : finding.severity = .error := by
  obtain ⟨node, -, h⟩ := List.mem_flatMap.1 h
  obtain ⟨pin, -, h⟩ := List.mem_filterMap.1 h
  unfold capacityFinding? at h
  split at h
  · obtain ⟨limit, -, rfl⟩ := Option.map_eq_some_iff.1 h
    rfl
  · cases h

/-- There is no error about too many edges just if no pin takes more than it may. -/
theorem noError_capacityFindings_iff {catalog : Catalog} {graph : Graph}
    (hnodup : (graph.nodes.map (·.id)).Nodup) :
    NoError (graph.capacityFindings (graph.pinTable catalog)) ↔
      ∀ node ∈ graph.nodes, ∀ pins, catalog.pinsOf? node = some pins →
        ∀ pin ∈ pins, graph.WithinCapacity node.id pin := by
  rw [noError_iff_eq_nil fun _ => severity_of_mem_capacityFindings]
  constructor
  · intro h node hnode pins hpins pin hpin
    rw [← capacityFinding?_eq_none_iff]
    unfold capacityFindings at h
    rw [firstNodes_eq_self hnodup (by simp), List.flatMap_eq_nil_iff] at h
    have hnone := h node hnode
    rw [lookup_pinTable (node?_eq_some_of_mem hnodup hnode) hpins, Option.getD_some,
      List.filterMap_eq_nil_iff] at hnone
    exact hnone pin hpin
  · exact capacityFindings_eq_nil

/-- There is no error at a start node just if the flow leaves it. -/
theorem noError_startFindings_iff (catalog : Catalog) (graph : Graph) {start : Node}
    {definition : Definition} {next : String}
    (hlookup : catalog.lookup? start.nodeType = some definition)
    (hentry : definition.lowering = .entry next) :
    NoError (startFindings catalog graph start) ↔
      ∃ e ∈ graph.edges, e.kind = .control ∧ e.source = ⟨start.id, next⟩ := by
  have houtput : startOutput? catalog start = some next := by
    unfold startOutput?
    rw [hlookup, Option.bind_some, hentry]
    rfl
  have hedges : (graph.edgesFrom ⟨start.id, next⟩).any (·.kind == .control) = true ↔
      ∃ e ∈ graph.edges, e.kind = .control ∧ e.source = ⟨start.id, next⟩ := by
    unfold edgesFrom
    simp [List.any_eq_true, and_comm, and_left_comm]
  unfold startFindings
  dsimp only
  rw [houtput, Option.any_some, ← hedges]
  split
  next hconnected => exact ⟨fun _ => hconnected, fun _ finding h => by cases h⟩
  next hconnected =>
    constructor
    · intro h
      exact absurd rfl (h _ List.mem_cons_self)
    · intro h
      exact absurd h hconnected

/-- There is no error about the flow just if there is one start node and the flow leaves it. -/
theorem noError_flowFindings_iff {catalog : Catalog} (graph : Graph) (table : PinTable)
    {definition : Definition} {next : String}
    (hlookup : catalog.lookup? catalog.startType = some definition)
    (hentry : definition.lowering = .entry next) :
    NoError (flowFindings catalog graph table) ↔ ∃ start definition next,
      graph.nodes.filter (fun node => catalog.isStart node.nodeType) = [start] ∧
        catalog.lookup? start.nodeType = some definition ∧ definition.lowering = .entry next ∧
        ∃ e ∈ graph.edges, e.kind = .control ∧ e.source = ⟨start.id, next⟩ := by
  unfold flowFindings
  cases hstarts : startNodes catalog graph with
  | nil =>
    constructor
    · intro h
      exact absurd rfl (h _ List.mem_cons_self)
    · rintro ⟨start, -, -, hstart, -⟩
      rw [startNodes, hstart] at hstarts
      cases hstarts
  | cons start others =>
    have htype : start.nodeType = catalog.startType := by
      have hmem : start ∈ startNodes catalog graph := hstarts ▸ List.mem_cons_self
      exact eq_of_beq (List.mem_filter.1 hmem).2
    have hdefinition : catalog.lookup? start.nodeType = some definition := htype ▸ hlookup
    have hunreachable : NoError (unreachableFindings catalog graph table start) := by
      intro finding hfinding
      obtain ⟨node, -, rfl⟩ := List.mem_map.1 hfinding
      simp [Finding.severity]
    dsimp only
    rw [noError_append_iff, noError_append_iff, noError_map_iff _ fun _ => rfl,
      noError_startFindings_iff catalog graph hdefinition hentry]
    constructor
    · rintro ⟨⟨rfl, hedge⟩, -⟩
      exact ⟨start, definition, next, hstarts, hdefinition, hentry, hedge⟩
    · rintro ⟨found, other, output, hfound, hother, houtput, hedge⟩
      rw [← startNodes, hstarts] at hfound
      cases hfound
      rw [hdefinition] at hother
      cases hother
      rw [hentry] at houtput
      cases houtput
      exact ⟨⟨rfl, hedge⟩, hunreachable⟩

/-- There is no error about loops just if no edge lies on one. -/
theorem noError_loopEdges_iff (edges : List Edge) :
    NoError ((ControlFlow.loopEdges edges).map .controlCycle) ↔ ∀ e ∈ edges, ¬ OnLoop edges e := by
  classical
  rw [noError_map_iff _ fun _ => rfl, loopEdges_eq_filter, List.filter_eq_nil_iff]
  simp only [decide_eq_true_iff]

/-! ## All passes -/

/-- There is no error in a graph just if it is well formed. -/
theorem noError_foundIn_iff {catalog : Catalog} {graph : Graph} {definition : Definition}
    {next : String} (hlookup : catalog.lookup? catalog.startType = some definition)
    (hentry : definition.lowering = .entry next)
    (hall : ∀ node ∈ graph.nodes, catalog.Materializes node) :
    NoError (foundIn catalog graph) ↔ graph.WellFormed catalog := by
  unfold foundIn
  simp only [noError_append_iff]
  rw [noError_map_iff _ fun _ => rfl, noError_map_iff _ fun _ => rfl, repeats_eq_nil_iff,
    repeats_eq_nil_iff, noError_flatMap_iff, noError_flowFindings_iff graph _ hlookup hentry,
    noError_loopEdges_iff]
  constructor
  · rintro ⟨⟨⟨⟨⟨⟨hnodeIds, hedgeIds⟩, hnodes⟩, hedges⟩, hcapacity⟩, hstart⟩, hacyclic⟩
    have hnodes : ∀ node ∈ graph.nodes, _ := fun node hnode =>
      (noError_nodeFindings_iff graph (hall node hnode)).1 (hnodes node hnode)
    -- Every type is known, so the checks of edges find the pins of all nodes.
    have hknown : ∀ node ∈ graph.nodes, ∃ pins, catalog.pinsOf? node = some pins := by
      intro node hnode
      obtain ⟨-, pins, -, hpins, -⟩ := hnodes node hnode
      exact ⟨pins, hpins⟩
    refine ⟨hnodeIds, hedgeIds, ?_, ?_, ?_, (noError_edges_iff hnodeIds hknown).1 hedges,
      (noError_capacityFindings_iff hnodeIds).1 hcapacity, hstart, hacyclic⟩
    · intro node hnode
      obtain ⟨own, -, hown, -⟩ := hnodes node hnode
      exact ⟨own, hown⟩
    · intro node hnode own hown
      obtain ⟨found, -, hfound, -, hconfig, -⟩ := hnodes node hnode
      rw [hown] at hfound
      cases hfound
      exact (noError_configFindings_iff own node).1 hconfig
    · intro node hnode pins hpins
      obtain ⟨-, found, -, hfound, -, hrequired⟩ := hnodes node hnode
      rw [hpins] at hfound
      cases hfound
      exact (noError_requiredPinFindings_iff graph node pins).1 hrequired
  · intro h
    have hpinsOf : ∀ node ∈ graph.nodes, ∃ own pins, catalog.lookup? node.nodeType = some own ∧
        catalog.pinsOf? node = some pins := by
      intro node hnode
      obtain ⟨own, hown⟩ := h.known node hnode
      obtain ⟨pins, hpins⟩ := hall node hnode own hown
      exact ⟨own, pins, hown, Catalog.pinsOf?_eq_some_iff.2 ⟨own, hown, hpins⟩⟩
    have hknown : ∀ node ∈ graph.nodes, ∃ pins, catalog.pinsOf? node = some pins := by
      intro node hnode
      obtain ⟨-, pins, -, hpins⟩ := hpinsOf node hnode
      exact ⟨pins, hpins⟩
    refine ⟨⟨⟨⟨⟨⟨h.nodeIds, h.edgeIds⟩, ?_⟩, (noError_edges_iff h.nodeIds hknown).2 h.edges⟩,
      (noError_capacityFindings_iff h.nodeIds).2 h.capacity⟩, h.start⟩, h.acyclic⟩
    intro node hnode
    obtain ⟨own, pins, hown, hpins⟩ := hpinsOf node hnode
    rw [noError_nodeFindings_iff graph (hall node hnode)]
    exact ⟨own, pins, hown, hpins,
      (noError_configFindings_iff own node).2 (h.config node hnode own hown),
      (noError_requiredPinFindings_iff graph node pins).2 (h.required node hnode pins hpins)⟩

/-- The reports on findings have no error just if the findings have none. -/
theorem noError_report_iff (found : List Finding) :
    (∀ issue ∈ (if found.isEmpty then [.ok] else found).map Finding.report,
      issue.isError = false) ↔ NoError found := by
  have hreport : ∀ finding : Finding,
      finding.report.isError = false ↔ finding.severity ≠ .error := by
    intro finding
    simp [Issue.isError, Finding.report]
  rw [List.forall_mem_map]
  simp only [hreport]
  cases found with
  | nil => simp [NoError, Finding.severity]
  | cons first rest => exact Iff.rfl

end Graph

/-- The start type of a catalog that was loaded is defined as a start. -/
theorem Catalog.entry_of_load {definitions : List Definition} {startType : String}
    {catalog : Catalog} (h : Catalog.load definitions startType = .ok catalog) :
    ∃ definition next, catalog.lookup? catalog.startType = some definition ∧
      definition.lowering = .entry next := by
  obtain ⟨-, -, hcheck⟩ := load_eq_ok h
  obtain ⟨⟨definition, hlookup, hisEntry⟩, -⟩ := check_eq_ok hcheck
  cases hlowering : definition.lowering with
  | entry next => exact ⟨definition, next, hlookup, hlowering⟩
  | step type fields next => simp [hlowering, Lowering.isEntry] at hisEntry
  | branch type condition thenOut elseIf elseOut next =>
    simp [hlowering, Lowering.isEntry] at hisEntry
  | literal field => simp [hlowering, Lowering.isEntry] at hisEntry
  | data => simp [hlowering, Lowering.isEntry] at hisEntry

/-- Validation with a catalog that was loaded reports no error just if the graph is well formed. -/
theorem Graph.no_errors_iff_wellFormed {definitions : List Definition} {startType : String}
    {catalog : Catalog} {graph : Graph} {issues : List Issue}
    (hload : Catalog.load definitions startType = .ok catalog)
    (hvalidate : graph.validate catalog = .ok issues) :
    (∀ issue ∈ issues, issue.isError = false) ↔ graph.WellFormed catalog := by
  obtain ⟨definition, next, hlookup, hentry⟩ := Catalog.entry_of_load hload
  obtain ⟨hall, rfl⟩ := (Graph.validate_eq_ok_iff catalog graph issues).1 hvalidate
  rw [noError_report_iff, noError_foundIn_iff hlookup hentry hall]

/-- A catalog with the start and one action. -/
def Catalog.healing : Catalog :=
  ⟨[Builtin.start, Builtin.action "heal" "Heal" "HEAL" []], "start"⟩

/-- The flow comes from the start of the joined graph to both of its nodes. -/
theorem reachableFrom_joined :
    ControlFlow.reachableFrom joined.edges "start" = ["heal", "start"] := by
  decide +kernel

/-- The joined graph has no loops. -/
theorem loopEdges_joined : ControlFlow.loopEdges joined.edges = [] :=
  ControlFlow.loopEdges_eq_nil_of_rank (["start", "heal"].idxOf ·) (by decide)

/-- Nothing is wrong with the joined graph. -/
theorem foundIn_joined : Graph.foundIn .healing joined = [] := by
  have hstarts : Graph.startNodes .healing joined = [⟨"start", "start", .empty⟩] := by
    with_unfolding_all rfl
  rw [Graph.foundIn_of_searches hstarts reachableFrom_joined loopEdges_joined]
  with_unfolding_all rfl

/-- A graph whose start leads nowhere is not well formed, and becomes so when the start is joined to
the other node. -/
theorem joined_wellFormed :
    ¬ unjoined.WellFormed .healing ∧ joined.WellFormed .healing := by
  have hload : Catalog.load [Builtin.start, Builtin.action "heal" "Heal" "HEAL" []] "start" =
      .ok .healing := by
    with_unfolding_all rfl
  have hunjoined : unjoined.validate .healing =
      .ok ([.startUnconnected ⟨"start", "start", .empty⟩ "execOut",
        .unreachableNode ⟨"heal", "heal", .empty⟩].map Finding.report) := by
    with_unfolding_all rfl
  have hall := ((Graph.validate_eq_ok_iff _ _ _).1 hunjoined).1
  have hjoined : joined.validate .healing = .ok [Finding.ok.report] := by
    refine (Graph.validate_eq_ok_iff _ _ _).2 ⟨hall, ?_⟩
    rw [foundIn_joined]
    rfl
  constructor
  · rw [← Graph.no_errors_iff_wellFormed hload hunjoined]
    intro hnone
    have herror := hnone _ List.mem_cons_self
    cases herror
  · rw [← Graph.no_errors_iff_wellFormed hload hjoined]
    intro issue hissue
    rw [List.mem_singleton.1 hissue]
    rfl

end AbilityGraph
