import AbilityGraph.Proofs.Collisions
import AbilityGraph.Proofs.Edit

/-!
# What a history of config changes prunes

Configs are changed one after the other, at whatever nodes and in whatever order. A change prunes
the edges at the pins of those slots that its node loses (`isRemovedPin_iff`). Slots that the node
gains later do not bring edges back, and slots that it has gained in between had none. So an edge at
a slot that was there at first is gone in the end just if at some time its node had too few slots
for it (`Graph.applyAll_eq`).
-/

set_option autoImplicit false

namespace AbilityGraph

/-! ## Pins of slots -/

namespace Definition

/-- An id is that of a template pin with the number of a slot put in. -/
def IsSlotPin (definition : Definition) (index : Nat) (id : String) : Prop :=
  ∃ template, definition.slots = some template ∧
    ∃ pin ∈ template.pins, id = substitute pin.id index

/-- An id is that of a pin of a slot from one number on and below another. -/
def IsSlotPinFrom (definition : Definition) (least count : Nat) (id : String) : Prop :=
  ∃ index, least ≤ index ∧ index < count ∧ definition.IsSlotPin index id

variable {definition : Definition} {id : String} {count index : Nat}

/-- The pins of a node have the ids of its static pins and those of the pins of its slots. -/
theorem mem_ids_iff : id ∈ (definition.pinsWithSlots count).map (·.id) ↔
    id ∈ definition.pins.map (·.id) ∨ ∃ index < count, definition.IsSlotPin index id := by
  unfold pinsWithSlots IsSlotPin
  cases definition.slots with
  | none => simp
  | some template =>
    simp only [List.map_append, List.mem_append, List.map_flatMap, List.mem_flatMap,
      List.mem_range, List.map_map, List.mem_map, Function.comp_apply, Pin.atSlot,
      Option.some.injEq, exists_eq_left', eq_comm]

/-- Where pins have different ids, those of a slot are there just if there are slots enough. -/
theorem mem_ids_iff_lt (hnodup : ((definition.pinsWithSlots count).map (·.id)).Nodup)
    (hindex : index < count) (hslot : definition.IsSlotPin index id) (other : Nat) :
    id ∈ (definition.pinsWithSlots other).map (·.id) ↔ index < other := by
  constructor
  · intro hid
    by_contra hle
    obtain ⟨template, hslots, pin, hpin, rfl⟩ := hslot
    have hsucc : definition.pinsWithSlots (index + 1) =
        definition.pinsWithSlots index ++ template.pins.map (·.atSlot index) := by
      simp [pinsWithSlots, hslots, List.range_succ]
    have hfewer := (definition.pinsWithSlots_prefix hindex).sublist.map Pin.id
    have hapart := hnodup.sublist hfewer
    rw [hsucc, List.map_append, List.nodup_append] at hapart
    have hbefore := (definition.pinsWithSlots_prefix (Nat.not_lt.1 hle)).sublist.map Pin.id
    have hown : substitute pin.id index ∈ (template.pins.map (·.atSlot index)).map (·.id) :=
      List.mem_map_of_mem (List.mem_map_of_mem hpin)
    exact hapart.2.2 _ (hbefore.subset hid) _ hown rfl
  · intro hlt
    exact mem_ids_iff.2 (.inr ⟨index, hlt, hslot⟩)

/-- The slots from the smaller of a number and their count on are those from this number on. -/
theorem isSlotPinFrom_min_iff {least : Nat} :
    definition.IsSlotPinFrom (min count least) count id ↔
      definition.IsSlotPinFrom least count id := by
  constructor
  · rintro ⟨index, hleast, hcount, hslot⟩
    exact ⟨index, by omega, hcount, hslot⟩
  · rintro ⟨index, hleast, hcount, hslot⟩
    exact ⟨index, by omega, hcount, hslot⟩

/-- Of the pins that were there at first, those lost at any time are those lost at once and those
lost from then on. -/
theorem isSlotPinFrom_iff_or {next least : Nat}
    (hid : id ∈ (definition.pinsWithSlots count).map (·.id))
    (hnodup : ((definition.pinsWithSlots next).map (·.id)).Nodup) (hle : least ≤ next) :
    definition.IsSlotPinFrom least count id ↔
      definition.IsSlotPinFrom next count id ∨ definition.IsSlotPinFrom least next id := by
  constructor
  · rintro ⟨index, hleast, hcount, hslot⟩
    by_cases hnext : next ≤ index
    · exact .inl ⟨index, hnext, hcount, hslot⟩
    · exact .inr ⟨index, hleast, Nat.not_le.1 hnext, hslot⟩
  · rintro (⟨index, hnext, hcount, hslot⟩ | ⟨index, hleast, hnext, hslot⟩)
    · exact ⟨index, Nat.le_trans hle hnext, hcount, hslot⟩
    · -- A slot that the node has gained after the first change has no pin that was there before.
      have hcount := (mem_ids_iff_lt hnodup hnext hslot count).1 hid
      exact ⟨index, hleast, hcount, hslot⟩

/-- A pin that is not lost stays. -/
theorem mem_ids_of_not_isSlotPinFrom {next : Nat}
    (hid : id ∈ (definition.pinsWithSlots count).map (·.id))
    (hkept : ¬ definition.IsSlotPinFrom next count id) :
    id ∈ (definition.pinsWithSlots next).map (·.id) := by
  rcases mem_ids_iff.1 hid with hstatic | ⟨index, hindex, hslot⟩
  · exact mem_ids_iff.2 (.inl hstatic)
  · by_contra hnot
    refine hkept ⟨index, ?_, hindex, hslot⟩
    by_contra hlt
    exact hnot (mem_ids_iff.2 (.inr ⟨index, Nat.not_le.1 hlt, hslot⟩))

end Definition

/-- A node loses the pins of the slots that it does not have with its new config. -/
theorem isRemovedPin_iff {definition : Definition} {config other : Config}
    {oldPins newPins : List Pin} (hold : definition.materialize config = .ok oldPins)
    (hnew : definition.materialize other = .ok newPins) (nodeId : String) (ref : PinRef) :
    isRemovedPin nodeId oldPins newPins ref = true ↔ ref.nodeId = nodeId ∧
      definition.IsSlotPinFrom (definition.slotCount other) (definition.slotCount config)
        ref.pinId := by
  obtain ⟨rfl, hnodup⟩ := Definition.instantiate_eq_ok_iff.1 hold
  obtain ⟨rfl, -⟩ := Definition.instantiate_eq_ok_iff.1 hnew
  have hany : ∀ pins : List Pin, pins.any (·.id == ref.pinId) = true ↔
      ref.pinId ∈ pins.map (·.id) := by
    intro pins
    simp
  unfold isRemovedPin
  rw [Bool.and_eq_true, Bool.and_eq_true, beq_iff_eq, Bool.not_eq_true', ← Bool.not_eq_true, hany,
    hany, and_assoc]
  refine and_congr_right fun _ => ⟨?_, ?_⟩
  · rintro ⟨hid, hnot⟩
    by_contra hkept
    exact hnot (Definition.mem_ids_of_not_isSlotPinFrom hid hkept)
  · rintro ⟨index, hleast, hindex, hslot⟩
    have hmem := Definition.mem_ids_iff_lt hnodup hindex hslot
    exact ⟨(hmem _).2 hindex, fun hid => Nat.not_lt.2 hleast ((hmem _).1 hid)⟩

/-! ## Histories of changes -/

/-- A new config for a node. -/
structure ConfigChange where
  nodeId : String
  config : Config

/-- The config that a node has after a change. -/
def ConfigChange.configOf (change : ConfigChange) (nodeId : String) (config : Config) : Config :=
  if nodeId = change.nodeId then change.config else config

/-- The config that a node has after some changes. -/
def lastConfig (nodeId : String) : Config → List ConfigChange → Config
  | config, [] => config
  | config, change :: rest => lastConfig nodeId (change.configOf nodeId config) rest

/-- The least number of slots that a node has at any time, from before the first of some changes to
after the last. -/
def Definition.leastSlots (definition : Definition) (nodeId : String) :
    Config → List ConfigChange → Nat
  | config, [] => definition.slotCount config
  | config, change :: rest =>
    min (definition.slotCount config)
      (definition.leastSlots nodeId (change.configOf nodeId config) rest)

/-- The least number of slots that a node has at any time is at most the number it has at first. -/
theorem Definition.leastSlots_le (definition : Definition) (nodeId : String) (config : Config)
    (changes : List ConfigChange) :
    definition.leastSlots nodeId config changes ≤ definition.slotCount config := by
  cases changes with
  | nil => exact Nat.le_refl _
  | cons change rest => exact Nat.min_le_left _ _

namespace Node

/-- A node after some changes: with its last config, if its type is known. -/
def after (catalog : Catalog) (changes : List ConfigChange) (node : Node) : Node :=
  if (catalog.lookup? node.nodeType).isSome then
    { node with config := lastConfig node.id node.config changes }
  else node

/-- An id is that of a pin of a slot that a node has at first, but not at all times. -/
def LosesPin (catalog : Catalog) (changes : List ConfigChange) (node : Node) (id : String) : Prop :=
  ∃ definition, catalog.lookup? node.nodeType = some definition ∧
    definition.IsSlotPinFrom (definition.leastSlots node.id node.config changes)
      (definition.slotCount node.config) id

/-- If the pins of a node can be found, then one of them has an id. -/
def HasPinIfFound (catalog : Catalog) (node : Node) (id : String) : Prop :=
  ∀ pins, catalog.pinsOf? node = some pins → id ∈ pins.map (·.id)

instance (catalog : Catalog) (node : Node) (id : String) :
    Decidable (node.HasPinIfFound catalog id) :=
  decidable_of_iff ((catalog.pinsOf? node).all fun pins => (pins.map (·.id)).contains id) (by
    unfold HasPinIfFound
    cases catalog.pinsOf? node <;> simp)

/-- If a change is one of a node, then its pins can be found before and after. -/
def Takes (catalog : Catalog) (change : ConfigChange) (node : Node) : Prop :=
  node.id = change.nodeId → ∀ definition, catalog.lookup? node.nodeType = some definition →
    ∃ oldPins newPins, definition.materialize node.config = .ok oldPins ∧
      definition.materialize change.config = .ok newPins

variable {catalog : Catalog} {change : ConfigChange} {changes : List ConfigChange} {node : Node}
  {definition : Definition} {id : String}

/-- A node of an unknown type keeps its config. -/
theorem after_of_unknown (hlookup : catalog.lookup? node.nodeType = none) :
    node.after catalog changes = node := by
  simp [after, hlookup]

/-- A node of a known type has its last config. -/
theorem after_of_known (hlookup : catalog.lookup? node.nodeType = some definition) :
    node.after catalog changes =
      { node with config := lastConfig node.id node.config changes } := by
  simp [after, hlookup]

/-- A change of another node leaves a node as it is. -/
theorem after_single_of_ne (hid : node.id ≠ change.nodeId) :
    node.after catalog [change] = node := by
  simp [after, lastConfig, ConfigChange.configOf, hid]

/-- Without changes a node stays as it is. -/
theorem after_nil : node.after catalog [] = node := by
  simp [after, lastConfig]

/-- Changes of configs change no id. -/
theorem id_after : (node.after catalog changes).id = node.id := by
  unfold after
  split <;> rfl

/-- A node after several changes is what it is after the first, changed by the others. -/
theorem after_cons : (node.after catalog [change]).after catalog changes =
    node.after catalog (change :: changes) := by
  cases hlookup : catalog.lookup? node.nodeType with
  | none => simp only [after_of_unknown hlookup]
  | some definition => simp [after, hlookup, lastConfig]

/-! ## One change of a node -/

/-- Without changes no pin is lost. -/
theorem not_losesPin_nil : ¬ node.LosesPin catalog [] id := by
  rintro ⟨definition, -, index, hleast, hindex, -⟩
  exact Nat.not_le.2 hindex hleast

/-- A node loses no pins by a change of another node. -/
theorem not_losesPin_single_of_ne (hid : node.id ≠ change.nodeId) :
    ¬ node.LosesPin catalog [change] id := by
  rintro ⟨definition, -, index, hleast, hindex, -⟩
  simp only [Definition.leastSlots, ConfigChange.configOf, if_neg hid, Nat.min_self] at hleast
  exact Nat.not_le.2 hindex hleast

/-- A node loses the pins of the slots that it does not have with its new config. -/
theorem losesPin_single_iff (hid : node.id = change.nodeId)
    (hlookup : catalog.lookup? node.nodeType = some definition) :
    node.LosesPin catalog [change] id ↔
      definition.IsSlotPinFrom (definition.slotCount change.config)
        (definition.slotCount node.config) id := by
  have hleast : definition.leastSlots node.id node.config [change] =
      min (definition.slotCount node.config) (definition.slotCount change.config) := by
    simp only [Definition.leastSlots, ConfigChange.configOf, if_pos hid]
  unfold LosesPin
  simp only [hlookup, Option.some.injEq, exists_eq_left', hleast,
    Definition.isSlotPinFrom_min_iff]

/-- A pin that was there at first is lost by some changes just if it is lost by the first of them,
or by the others from then on. -/
theorem losesPin_cons_iff (htakes : node.Takes catalog change)
    (hpin : node.HasPinIfFound catalog id) :
    node.LosesPin catalog (change :: changes) id ↔
      node.LosesPin catalog [change] id ∨
        (node.after catalog [change]).LosesPin catalog changes id := by
  by_cases hid : node.id = change.nodeId
  · cases hlookup : catalog.lookup? node.nodeType with
    | none => simp [LosesPin, after_of_unknown hlookup, hlookup]
    | some definition =>
      obtain ⟨oldPins, newPins, hold, hnew⟩ := htakes hid definition hlookup
      have hmem := hpin oldPins (Catalog.pinsOf?_eq_some_iff.2 ⟨definition, hlookup, hold⟩)
      obtain ⟨rfl, -⟩ := Definition.instantiate_eq_ok_iff.1 hold
      obtain ⟨rfl, hapart⟩ := Definition.instantiate_eq_ok_iff.1 hnew
      have hle := definition.leastSlots_le node.id change.config changes
      rw [losesPin_single_iff hid hlookup, after_of_known hlookup]
      simp only [LosesPin, hlookup, Option.some.injEq, exists_eq_left', lastConfig,
        Definition.leastSlots, ConfigChange.configOf, if_pos hid,
        Definition.isSlotPinFrom_min_iff]
      exact Definition.isSlotPinFrom_iff_or hmem hapart hle
  · have hrest : node.LosesPin catalog (change :: changes) id ↔
        node.LosesPin catalog changes id := by
      simp only [LosesPin, Definition.leastSlots, ConfigChange.configOf, if_neg hid,
        Definition.isSlotPinFrom_min_iff]
    rw [after_single_of_ne hid, hrest, or_iff_right (not_losesPin_single_of_ne hid)]

/-- A change leaves those pins of a node that are not lost by it. -/
theorem HasPinIfFound.after (hpin : node.HasPinIfFound catalog id)
    (htakes : node.Takes catalog change) (hkept : ¬ node.LosesPin catalog [change] id) :
    (node.after catalog [change]).HasPinIfFound catalog id := by
  by_cases hid : node.id = change.nodeId
  · cases hlookup : catalog.lookup? node.nodeType with
    | none =>
      rw [after_of_unknown hlookup]
      exact hpin
    | some definition =>
      obtain ⟨oldPins, newPins, hold, hnew⟩ := htakes hid definition hlookup
      have hmem := hpin oldPins (Catalog.pinsOf?_eq_some_iff.2 ⟨definition, hlookup, hold⟩)
      obtain ⟨rfl, -⟩ := Definition.instantiate_eq_ok_iff.1 hold
      rw [losesPin_single_iff hid hlookup] at hkept
      intro pins hpins
      rw [after_of_known hlookup, Catalog.pinsOf?_eq_some_iff] at hpins
      obtain ⟨own, hown, hpins⟩ := hpins
      rw [hlookup] at hown
      cases hown
      obtain ⟨rfl, -⟩ := Definition.instantiate_eq_ok_iff.1 hpins
      simp only [lastConfig, ConfigChange.configOf, if_pos hid]
      exact Definition.mem_ids_of_not_isSlotPinFrom hmem hkept
  · rw [after_single_of_ne hid]
    exact hpin

end Node

namespace Graph

/-- Changes configs one after the other. -/
def applyAll (catalog : Catalog) (graph : Graph) (changes : List ConfigChange) :
    Except DuplicatePin Graph :=
  changes.foldlM (fun graph change => graph.applyConfig catalog change.nodeId change.config) graph

/-- A reference names a pin of a slot that its node has at first, but not at all times. -/
def IsLost (catalog : Catalog) (graph : Graph) (changes : List ConfigChange) (ref : PinRef) :
    Prop :=
  ∃ node ∈ graph.nodes, node.id = ref.nodeId ∧ node.LosesPin catalog changes ref.pinId

/-- Each end of an edge at a node whose pins can be found is at one of these. -/
def EndsPresent (catalog : Catalog) (graph : Graph) : Prop :=
  ∀ e ∈ graph.edges, ∀ ref ∈ [e.source, e.target], ∀ node ∈ graph.nodes, node.id = ref.nodeId →
    node.HasPinIfFound catalog ref.pinId

instance (catalog : Catalog) (graph : Graph) : Decidable (graph.EndsPresent catalog) :=
  inferInstanceAs (Decidable (∀ e ∈ graph.edges, ∀ ref ∈ [e.source, e.target],
    ∀ node ∈ graph.nodes, node.id = ref.nodeId → node.HasPinIfFound catalog ref.pinId))

/-! ## One change of a graph -/

section Step

variable {catalog : Catalog} {graph next : Graph} {change : ConfigChange} {node : Node}
  {definition : Definition} {ref : PinRef}

/-- If ids differ, then changing the config of a node changes the node with its id and no others. -/
theorem setConfig_eq_map {nodeId : String} {config : Config} {nodes : List Node}
    (hnodup : (nodes.map (·.id)).Nodup) :
    setConfig nodeId config nodes =
      nodes.map fun node => if node.id = nodeId then { node with config := config } else node := by
  induction nodes with
  | nil => rfl
  | cons node rest ih =>
    rw [List.map_cons, List.nodup_cons] at hnodup
    rw [setConfig, List.map_cons]
    by_cases hid : node.id = nodeId
    · have hrest : (rest.map fun other : Node =>
          if other.id = nodeId then { other with config := config } else other) = rest := by
        rw [List.map_congr_left, List.map_id]
        intro other hother
        have hne : other.id ≠ nodeId := by
          rintro rfl
          exact hnodup.1 (hid ▸ List.mem_map_of_mem hother)
        exact if_neg hne
      rw [if_pos hid, if_pos hid, hrest]
    · rw [if_neg hid, if_neg hid, ih hnodup.2]

/-- If a change succeeds, then the pins of its node can be found before and after. -/
theorem takes_of_applyConfig (hnodup : (graph.nodes.map (·.id)).Nodup)
    (h : graph.applyConfig catalog change.nodeId change.config = .ok next)
    (hnode : node ∈ graph.nodes) : node.Takes catalog change := by
  intro hid definition hlookup
  have hfound := node?_eq_some_of_mem hnodup hnode
  rw [hid] at hfound
  rcases applyConfig_eq_ok h with ⟨-, hunknown⟩ |
    ⟨other, own, oldPins, newPins, hother, hown, hold, hnew, -⟩
  · rw [hunknown node hfound] at hlookup
    cases hlookup
  · rw [hfound] at hother
    cases hother
    rw [hlookup] at hown
    cases hown
    exact ⟨oldPins, newPins, hold, hnew⟩

/-- If ids differ, then a reference to a node names a lost pin just if this node loses the pin. -/
theorem isLost_iff_losesPin {changes : List ConfigChange}
    (hnodup : (graph.nodes.map (·.id)).Nodup) (hnode : node ∈ graph.nodes)
    (hid : node.id = ref.nodeId) :
    graph.IsLost catalog changes ref ↔ node.LosesPin catalog changes ref.pinId := by
  constructor
  · rintro ⟨other, hother, hotherId, hlost⟩
    have hsame := node?_eq_some_of_mem hnodup hother
    rw [hotherId, ← hid, node?_eq_some_of_mem hnodup hnode] at hsame
    cases hsame
    exact hlost
  · intro hlost
    exact ⟨node, hnode, hid, hlost⟩

open scoped Classical in
/-- One change gives its node the new config and prunes the edges at the pins that are lost. -/
theorem applyConfig_eq (hnodup : (graph.nodes.map (·.id)).Nodup)
    (h : graph.applyConfig catalog change.nodeId change.config = .ok next) :
    next = { graph with
      nodes := graph.nodes.map (·.after catalog [change])
      edges := graph.edges.filter fun e =>
        ¬ graph.IsLost catalog [change] e.source ∧ ¬ graph.IsLost catalog [change] e.target } := by
  rcases applyConfig_eq_ok h with ⟨rfl, hunknown⟩ |
    ⟨node, definition, oldPins, newPins, hnode, hlookup, hold, hnew, rfl⟩
  · -- The node is not there or its type is unknown: nothing changes, and nothing is lost.
    have huntouched : ∀ node ∈ next.nodes, node.id = change.nodeId →
        catalog.lookup? node.nodeType = none := by
      intro node hnode hid
      exact hunknown node (hid ▸ node?_eq_some_of_mem hnodup hnode)
    have hnodes : next.nodes.map (·.after catalog [change]) = next.nodes := by
      rw [List.map_congr_left, List.map_id]
      intro node hnode
      by_cases hid : node.id = change.nodeId
      · exact Node.after_of_unknown (huntouched node hnode hid)
      · exact Node.after_single_of_ne hid
    have hkept : ∀ ref, ¬ next.IsLost catalog [change] ref := by
      rintro ref ⟨node, hnode, -, hlost⟩
      by_cases hid : node.id = change.nodeId
      · obtain ⟨definition, hlookup, -⟩ := hlost
        rw [huntouched node hnode hid] at hlookup
        cases hlookup
      · exact Node.not_losesPin_single_of_ne hid hlost
    simp [hnodes, hkept]
  · -- The node is there: it alone gets the new config, and only its pins can be lost.
    have hmem := List.mem_of_find?_eq_some hnode
    have hid : node.id = change.nodeId := by simpa using List.find?_some hnode
    have hnodes : setConfig change.nodeId change.config graph.nodes =
        graph.nodes.map (·.after catalog [change]) := by
      rw [setConfig_eq_map hnodup]
      apply List.map_congr_left
      intro other hother
      by_cases hotherId : other.id = change.nodeId
      · have hfound := node?_eq_some_of_mem hnodup hother
        rw [hotherId, hnode] at hfound
        cases hfound
        rw [if_pos hid, Node.after_of_known hlookup, lastConfig, lastConfig,
          ConfigChange.configOf, if_pos hid]
      · rw [if_neg hotherId, Node.after_single_of_ne hotherId]
    have hremoved : ∀ ref, isRemovedPin change.nodeId oldPins newPins ref = true ↔
        graph.IsLost catalog [change] ref := by
      intro ref
      rw [isRemovedPin_iff hold hnew, ← Node.losesPin_single_iff hid hlookup]
      constructor
      · rintro ⟨href, hlost⟩
        exact ⟨node, hmem, hid.trans href.symm, hlost⟩
      · rintro ⟨other, hother, hotherId, hlost⟩
        have href : other.id = change.nodeId := by
          by_contra hne
          exact Node.not_losesPin_single_of_ne hne hlost
        have hnodeId : node.id = ref.nodeId := by rw [← hotherId, hid, href]
        have hgraphLost : graph.IsLost catalog [change] ref := ⟨other, hother, hotherId, hlost⟩
        exact ⟨hnodeId.symm.trans hid, (isLost_iff_losesPin hnodup hmem hnodeId).1 hgraphLost⟩
    have hedges : reconcile change.nodeId oldPins newPins graph.edges =
        graph.edges.filter fun e =>
          ¬ graph.IsLost catalog [change] e.source ∧ ¬ graph.IsLost catalog [change] e.target := by
      apply List.filter_congr
      intro e _
      simp [← hremoved, JoinsPins.sourcePin, JoinsPins.targetPin]
    rw [hnodes, hedges]

end Step

/-! ## All changes -/

section Run

variable {catalog : Catalog} {graph next later : Graph} {change : ConfigChange}
  {changes : List ConfigChange} {ref : PinRef}

/-- What is lost by some changes is lost by the first of them, or by the others from then on. -/
theorem isLost_cons_iff (hnodup : (graph.nodes.map (·.id)).Nodup)
    (h : graph.applyConfig catalog change.nodeId change.config = .ok next)
    (hpresent : ∀ node ∈ graph.nodes, node.id = ref.nodeId →
      node.HasPinIfFound catalog ref.pinId) :
    graph.IsLost catalog (change :: changes) ref ↔
      graph.IsLost catalog [change] ref ∨ next.IsLost catalog changes ref := by
  have hnodes : next.nodes = graph.nodes.map (·.after catalog [change]) :=
    congrArg Graph.nodes (applyConfig_eq hnodup h)
  have hcons : ∀ node ∈ graph.nodes, node.id = ref.nodeId →
      (node.LosesPin catalog (change :: changes) ref.pinId ↔ _) := fun node hnode hid =>
    Node.losesPin_cons_iff (takes_of_applyConfig hnodup h hnode) (hpresent node hnode hid)
  constructor
  · rintro ⟨node, hnode, hid, hlost⟩
    rcases (hcons node hnode hid).1 hlost with hlost | hlost
    · exact .inl ⟨node, hnode, hid, hlost⟩
    · refine .inr ⟨_, ?_, Node.id_after.trans hid, hlost⟩
      rw [hnodes]
      exact List.mem_map_of_mem hnode
  · rintro (⟨node, hnode, hid, hlost⟩ | ⟨after, hafter, hid, hlost⟩)
    · exact ⟨node, hnode, hid, (hcons node hnode hid).2 (.inl hlost)⟩
    · rw [hnodes] at hafter
      obtain ⟨node, hnode, rfl⟩ := List.mem_map.1 hafter
      rw [Node.id_after] at hid
      exact ⟨node, hnode, hid, (hcons node hnode hid).2 (.inr hlost)⟩

/-- A change that succeeds leaves no end of an edge at a pin that is not there. -/
theorem EndsPresent.applyConfig (hnodup : (graph.nodes.map (·.id)).Nodup)
    (h : graph.applyConfig catalog change.nodeId change.config = .ok next)
    (hends : graph.EndsPresent catalog) : next.EndsPresent catalog := by
  classical
  rw [applyConfig_eq hnodup h]
  intro e he ref href after hafter hid
  obtain ⟨he, hkept⟩ := List.mem_filter.1 he
  rw [decide_eq_true_iff] at hkept
  obtain ⟨node, hnode, rfl⟩ := List.mem_map.1 hafter
  rw [Node.id_after] at hid
  apply (hends e he ref href node hnode hid).after (takes_of_applyConfig hnodup h hnode)
  rw [← isLost_iff_losesPin hnodup hnode hid]
  rw [List.mem_pair] at href
  rcases href with rfl | rfl
  · exact hkept.1
  · exact hkept.2

/-- Changes succeed in turn just if the first does and the others do after it. -/
theorem applyAll_cons_eq_ok_iff :
    graph.applyAll catalog (change :: changes) = .ok later ↔ ∃ next,
      graph.applyConfig catalog change.nodeId change.config = .ok next ∧
        next.applyAll catalog changes = .ok later := by
  unfold applyAll
  rw [List.foldlM_cons, bind_eq_ok_iff]

end Run

open scoped Classical in
/-- After some changes each node of a known type has the last config that it was given, and the
edges are those from before, but for those with an end at a pin of a slot that was there at first
and that its node did not have at some time since. -/
theorem applyAll_eq {catalog : Catalog} {graph later : Graph} {changes : List ConfigChange}
    (hnodup : (graph.nodes.map (·.id)).Nodup) (hends : graph.EndsPresent catalog)
    (h : graph.applyAll catalog changes = .ok later) :
    later = { graph with
      nodes := graph.nodes.map (·.after catalog changes)
      edges := graph.edges.filter fun e =>
        ¬ graph.IsLost catalog changes e.source ∧ ¬ graph.IsLost catalog changes e.target } := by
  induction changes generalizing graph with
  | nil =>
    cases h
    have hkept : ∀ ref, ¬ later.IsLost catalog [] ref := by
      rintro ref ⟨node, -, -, hlost⟩
      exact Node.not_losesPin_nil hlost
    simp [Node.after_nil, hkept]
  | cons change rest ih =>
    obtain ⟨next, hnext, hrest⟩ := applyAll_cons_eq_ok_iff.1 h
    have hstep := applyConfig_eq hnodup hnext
    have hnodes : next.nodes = graph.nodes.map (·.after catalog [change]) :=
      congrArg Graph.nodes hstep
    have hids : next.nodes.map (·.id) = graph.nodes.map (·.id) := by
      rw [hnodes, List.map_map]
      exact List.map_congr_left fun node _ => Node.id_after
    have hafter : next.nodes.map (·.after catalog rest) =
        graph.nodes.map (·.after catalog (change :: rest)) := by
      rw [hnodes, List.map_map]
      exact List.map_congr_left fun node _ => Node.after_cons
    -- What is lost is lost by the first change or by the others. The ends have to be there for
    -- that: a slot that the node does not have at first is not lost when it comes and goes.
    have hkept : (next.edges.filter fun e =>
          ¬ next.IsLost catalog rest e.source ∧ ¬ next.IsLost catalog rest e.target) =
        graph.edges.filter fun e => ¬ graph.IsLost catalog (change :: rest) e.source ∧
          ¬ graph.IsLost catalog (change :: rest) e.target := by
      rw [congrArg Graph.edges hstep, List.filter_filter]
      apply List.filter_congr
      intro e he
      have hsource : graph.IsLost catalog (change :: rest) e.source ↔ _ :=
        isLost_cons_iff hnodup hnext (hends e he e.source (by simp))
      have htarget : graph.IsLost catalog (change :: rest) e.target ↔ _ :=
        isLost_cons_iff hnodup hnext (hends e he e.target (by simp))
      simp only [hsource, htarget, ← Bool.decide_and, decide_eq_decide]
      tauto
    rw [ih (hids ▸ hnodup) (hends.applyConfig hnodup hnext) hrest, hafter, hkept,
      congrArg Graph.id hstep]

end Graph

/-- A node with two outputs for its slots and one more, all of them in use. -/
def fannedOut : Graph where
  id := "fans"
  nodes := [⟨"fan", "fan", outputs 2⟩, ⟨"sink", "unknown", .empty⟩]
  edges := [
    .plain "first" .data ⟨"fan", "out_0"⟩ ⟨"sink", "in"⟩,
    .plain "second" .data ⟨"fan", "out_1"⟩ ⟨"sink", "in"⟩,
    .plain "last" .data ⟨"fan", "out_2"⟩ ⟨"sink", "in"⟩]

/-- One of the outputs for slots is taken away and added again. -/
def shrinkAndGrow : List ConfigChange :=
  [⟨"fan", outputs 1⟩, ⟨"sink", outputs 0⟩, ⟨"fan", outputs 2⟩]

open scoped Classical in
/-- The edge at the output that was taken away is lost, though the output is there again at the end;
the edge at the pin of the same form that is no slot's stays. -/
theorem fannedOut_shrinkAndGrow :
    fannedOut.applyAll .fans shrinkAndGrow = .ok { fannedOut with
        edges := fannedOut.edges.filter (·.id != "second") } ∧
      { fannedOut with edges := fannedOut.edges.filter (·.id != "second") } =
        { fannedOut with
          nodes := fannedOut.nodes.map (·.after .fans shrinkAndGrow)
          edges := fannedOut.edges.filter fun e =>
            ¬ fannedOut.IsLost .fans shrinkAndGrow e.source ∧
              ¬ fannedOut.IsLost .fans shrinkAndGrow e.target } := by
  have hnodup : (fannedOut.nodes.map (·.id)).Nodup := by
    decide
  have hends : fannedOut.EndsPresent .fans := by
    decide +kernel
  have hrun : fannedOut.applyAll .fans shrinkAndGrow = .ok { fannedOut with
      edges := fannedOut.edges.filter (·.id != "second") } := by
    with_unfolding_all rfl
  exact ⟨hrun, Graph.applyAll_eq hnodup hends hrun⟩

end AbilityGraph
