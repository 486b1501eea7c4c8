import AbilityGraph.Catalog
import AbilityGraph.Proofs.Checks
import AbilityGraph.Proofs.Pins

/-!
# What loading a catalog makes sure of

In a catalog that was loaded no type is defined twice and all definitions have passed their checks
(`Catalog.load_eq_ok`). The checks try out the pins for a few numbers of slots only. Fewer slots
cause no collision where more do not, and if the count field has a maximum, then no node has more
slots than were tried out. Without a maximum it may (`Definition.Untried`); in all other cases the
pins of a node can be found (`Definition.materialize_of_check`).
-/

set_option autoImplicit false

namespace AbilityGraph

namespace Definition

/-! ## Slots that were tried out -/

/-- A node with the config has more slots than are tried out when a catalog is loaded: more than
two, where the count field has no maximum. Its slots are counted after the default and the minimum
of the field have been applied, so a config that sets nothing may be such a one. -/
def Untried (definition : Definition) (config : Config) : Prop :=
  ∃ template field, definition.slots = some template ∧
    definition.schema.get? template.countField = some field ∧ field.maximum = none ∧
      2 < definition.slotCount config

/-- Where the count field has a maximum, no node has more slots than the greatest number that is
tried out. -/
theorem slotCount_le_of_maximum {definition : Definition} {template : SlotTemplate}
    {field : ConfigField} {maximum : Double} (hslots : definition.slots = some template)
    (hfield : definition.schema.get? template.countField = some field)
    (hmaximum : field.maximum = some maximum) (config : Config) :
    definition.slotCount config ≤ min maximum.floor.toNat maxSlots := by
  have hclamp : ∀ count, field.clampSlots count ≤ maximum.floor := by
    intro count
    simp only [ConfigField.clampSlots, hmaximum]
    exact Int.min_le_right _ _
  simp only [slotCount, hslots, hfield]
  exact Nat.le_min.2 ⟨Nat.le_trans (Nat.min_le_left _ _) (Int.toNat_le_toNat (hclamp _)),
    Nat.min_le_right _ _⟩

/-- Unless a node has more slots than are tried out, some number that is tried out is as great as
the number of its slots. -/
theorem exists_probe {definition : Definition} {counts : List Nat} {config : Config}
    (hcounts : definition.probeCounts = .ok counts) (htried : ¬definition.Untried config) :
    ∃ count ∈ counts, definition.slotCount config ≤ count := by
  unfold probeCounts at hcounts
  cases hslots : definition.slots with
  | none =>
    have hzero : definition.slotCount config = 0 := by simp only [slotCount, hslots]
    simp only [hslots] at hcounts
    cases hcounts
    exact ⟨0, List.mem_cons_self, Nat.le_of_eq hzero⟩
  | some template =>
    simp only [hslots] at hcounts
    cases hfield : definition.schema.get? template.countField with
    | none =>
      simp only [hfield] at hcounts
      cases hcounts
    | some field =>
      simp only [hfield] at hcounts
      cases hmaximum : field.maximum with
      | some maximum =>
        simp only [hmaximum] at hcounts
        cases hcounts
        exact ⟨_, by simp, slotCount_le_of_maximum hslots hfield hmaximum config⟩
      | none =>
        -- Without a maximum two slots are tried out at most, and more are excluded.
        simp only [hmaximum] at hcounts
        cases hcounts
        have htwo : definition.slotCount config ≤ 2 := by
          apply Nat.not_lt.1
          exact fun hmore => htried ⟨template, field, hslots, hfield, hmaximum, hmore⟩
        exact ⟨2, by simp, htwo⟩

/-- If the pins of a node with some number of slots can be found, then so can those with fewer. -/
theorem instantiate_of_le {definition : Definition} {count more : Nat} {pins : List Pin}
    (hle : count ≤ more) (hpins : definition.instantiate more = .ok pins) :
    definition.instantiate count = .ok (definition.pinsWithSlots count) := by
  obtain ⟨rfl, hnodup⟩ := instantiate_eq_ok_iff.1 hpins
  have hfewer : (definition.pinsWithSlots count).Sublist (definition.pinsWithSlots more) :=
    (definition.pinsWithSlots_prefix hle).sublist
  exact instantiate_eq_ok_iff.2 ⟨rfl, hnodup.sublist (hfewer.map _)⟩

/-- A definition that passes its check has different pins with every number of slots that is tried
out, and its lowering names what there is. -/
theorem check_eq_ok {definition : Definition} (h : definition.check = .ok ()) :
    (∃ counts, definition.probeCounts = .ok counts ∧
      ∀ count ∈ counts, ∃ pins, definition.instantiate count = .ok pins) ∧
      definition.checkLowering = .ok () := by
  obtain ⟨counts, hcounts, h⟩ := bind_eq_ok_iff.1 h
  obtain ⟨_, htried, hlowering⟩ := bind_eq_ok_iff.1 h
  refine ⟨⟨counts, hcounts, fun count hcount => ?_⟩, mapError_eq_ok_iff.1 hlowering⟩
  have hcheck := forM_eq_ok_iff.1 htried count hcount
  cases hpins : definition.instantiate count with
  | error fault => simp [hpins, Except.mapError, Except.map] at hcheck
  | ok pins => exact ⟨pins, rfl⟩

/-- If a definition has passed its check, then the pins of a node can be found unless it has more
slots than were tried out. -/
theorem materialize_of_check {definition : Definition} {config : Config}
    (hcheck : definition.check = .ok ()) (htried : ¬definition.Untried config) :
    ∃ pins, definition.materialize config = .ok pins := by
  obtain ⟨⟨counts, hcounts, hprobes⟩, -⟩ := check_eq_ok hcheck
  obtain ⟨count, hcount, hle⟩ := exists_probe hcounts htried
  obtain ⟨pins, hpins⟩ := hprobes count hcount
  exact ⟨_, instantiate_of_le hle hpins⟩

end Definition

namespace Catalog

/-! ## Loading -/

/-- The definition that is found for a type is one of the catalog, and of this type. -/
theorem mem_of_lookup? {catalog : Catalog} {nodeType : String} {definition : Definition}
    (h : catalog.lookup? nodeType = some definition) :
    definition ∈ catalog.definitions ∧ definition.nodeType = nodeType :=
  ⟨List.mem_of_find?_eq_some h, by simpa using List.find?_some h⟩

/-- In a catalog that passes its check the start type is defined as a start, and all definitions
pass theirs. -/
theorem check_eq_ok {catalog : Catalog} (h : catalog.check = .ok ()) :
    (∃ definition, catalog.lookup? catalog.startType = some definition ∧
      definition.lowering.isEntry = true) ∧
      ∀ definition ∈ catalog.definitions, definition.check = .ok () := by
  unfold check at h
  cases hstart : (catalog.lookup? catalog.startType).filter (·.lowering.isEntry) with
  | none =>
    rw [hstart] at h
    cases h
  | some definition =>
    rw [hstart] at h
    exact ⟨⟨definition, Option.filter_eq_some_iff.1 hstart⟩, forM_eq_ok_iff.1 h⟩

/-- A catalog that was loaded is made of the given definitions and the given start type. No type is
defined twice, and all checks have passed. -/
theorem load_eq_ok {definitions : List Definition} {startType : String} {catalog : Catalog}
    (h : load definitions startType = .ok catalog) :
    catalog = ⟨definitions, startType⟩ ∧ (definitions.map (·.nodeType)).Nodup ∧
      catalog.check = .ok () := by
  unfold load at h
  cases hrepeats : repeats (definitions.map (·.nodeType)) with
  | cons nodeType rest =>
    rw [hrepeats] at h
    cases h
  | nil =>
    rw [hrepeats] at h
    obtain ⟨_, hcheck, hcatalog⟩ := bind_eq_ok_iff.1 h
    cases hcatalog
    exact ⟨rfl, (repeats_eq_nil_iff _).1 hrepeats, hcheck⟩

/-- In a catalog that was loaded the definition that is found for a type has passed its check. -/
theorem check_of_lookup? {definitions : List Definition} {startType : String} {catalog : Catalog}
    (hload : load definitions startType = .ok catalog) {nodeType : String}
    {definition : Definition} (hlookup : catalog.lookup? nodeType = some definition) :
    definition.check = .ok () := by
  obtain ⟨-, -, hcheck⟩ := load_eq_ok hload
  exact (check_eq_ok hcheck).2 definition (mem_of_lookup? hlookup).1

end Catalog

end AbilityGraph
