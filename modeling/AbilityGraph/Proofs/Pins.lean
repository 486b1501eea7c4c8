import AbilityGraph.Slots
import Mathlib.Data.List.Basic

/-!
# The pins of nodes

Two configs of a node of one type give it pins of which one list goes on where the other ends: they
differ only in how many slots are put in. So a pin id that both have stands for the same pin
(`find?_of_materialize`). Within one node every pin has an id of its own.
-/

set_option autoImplicit false

namespace AbilityGraph

/-! ## Repeated entries -/

section Repeats

variable {α : Type} [BEq α] [LawfulBEq α]

/-- Nothing is repeated after entries seen before just if no entry occurs twice and none was
seen. -/
theorem repeatsAfter_eq_nil_iff {seen : List α} (hseen : seen.Nodup) (entries : List α) :
    repeatsAfter seen entries = [] ↔ entries.Nodup ∧ ∀ x ∈ entries, x ∉ seen := by
  induction entries generalizing seen with
  | nil => simp [repeatsAfter]
  | cons x rest ih =>
    unfold repeatsAfter
    by_cases hx : x ∈ seen
    · have hcount : seen.count x = 1 := by
        rw [List.Nodup.count hseen, if_pos hx]
      simp [hcount, hx]
    · have hcount : seen.count x = 0 := List.count_eq_zero.2 hx
      rw [hcount, if_neg (by simp), ih (List.nodup_cons.2 ⟨hx, hseen⟩), List.nodup_cons]
      constructor
      · rintro ⟨hrest, hnew⟩
        refine ⟨⟨fun hmem => hnew x hmem List.mem_cons_self, hrest⟩, fun y hy => ?_⟩
        rcases List.mem_cons.1 hy with rfl | hy
        · exact hx
        · exact fun hmem => hnew y hy (List.mem_cons_of_mem _ hmem)
      · rintro ⟨⟨hxrest, hrest⟩, hnew⟩
        refine ⟨hrest, fun y hy hmem => ?_⟩
        rcases List.mem_cons.1 hmem with rfl | hmem
        · exact hxrest hy
        · exact hnew y (List.mem_cons_of_mem _ hy) hmem

/-- Nothing is repeated in a list just if no entry occurs twice. -/
theorem repeats_eq_nil_iff (entries : List α) : repeats entries = [] ↔ entries.Nodup := by
  unfold repeats
  rw [repeatsAfter_eq_nil_iff List.nodup_nil]
  simp

/-- An entry is found once if it has its second occurrence after the entries seen before, and else
never. -/
theorem count_repeatsAfter (seen entries : List α) (x : α) :
    (repeatsAfter seen entries).count x =
      if seen.count x ≤ 1 ∧ 1 < seen.count x + entries.count x then 1 else 0 := by
  induction entries generalizing seen with
  | nil =>
    have hnone : ¬ (seen.count x ≤ 1 ∧ 1 < seen.count x + [].count x) := by
      rw [List.count_nil]
      omega
    rw [repeatsAfter, if_neg hnone, List.count_nil]
  | cons y rest ih =>
    have hrest := ih (y :: seen)
    unfold repeatsAfter
    by_cases hx : y = x
    · subst hx
      rw [List.count_cons_self] at hrest ⊢
      split
      next hseen =>
        have hone : seen.count y = 1 := eq_of_beq hseen
        rw [List.count_cons_self, hrest, if_neg (by omega), if_pos (by omega)]
      next hseen =>
        have hne : seen.count y ≠ 1 := fun heq => hseen (beq_iff_eq.2 heq)
        rw [hrest]
        exact if_congr (by omega) rfl rfl
    · rw [List.count_cons_of_ne hx] at hrest ⊢
      split
      · rw [List.count_cons_of_ne hx, hrest]
      · exact hrest

/-- What is repeated occurs more than once. -/
theorem one_lt_count_of_mem_repeats {x : α} {entries : List α} (h : x ∈ repeats entries) :
    1 < entries.count x := by
  by_contra hcount
  have hzero := count_repeatsAfter [] entries x
  rw [if_neg (by simpa using hcount)] at hzero
  exact List.count_eq_zero.1 hzero h

/-- Which entries are repeated does not depend on their order. -/
theorem repeats_perm {entries others : List α} (h : entries.Perm others) :
    (repeats entries).Perm (repeats others) := by
  rw [List.perm_iff_count]
  intro x
  rw [repeats, repeats, count_repeatsAfter, count_repeatsAfter, h.count_eq]

/-- A new entry at the end adds nothing to what is repeated after entries seen before. -/
theorem repeatsAfter_concat {x : α} {seen entries : List α} (hseen : x ∉ seen)
    (hentries : x ∉ entries) :
    repeatsAfter seen (entries ++ [x]) = repeatsAfter seen entries := by
  induction entries generalizing seen with
  | nil =>
    have hcount : seen.count x = 0 := List.count_eq_zero.2 hseen
    simp [repeatsAfter, hcount]
  | cons y rest ih =>
    have hy : x ≠ y := fun heq => hentries (heq ▸ List.mem_cons_self)
    have hrest : x ∉ rest := fun hmem => hentries (List.mem_cons_of_mem _ hmem)
    have hseen' : x ∉ y :: seen := by simp [hy, hseen]
    simp only [List.cons_append, repeatsAfter, ih hseen' hrest]

/-- A new entry at the end adds nothing to what is repeated. -/
theorem repeats_concat {x : α} {entries : List α} (hentries : x ∉ entries) :
    repeats (entries ++ [x]) = repeats entries :=
  repeatsAfter_concat List.not_mem_nil hentries

omit [LawfulBEq α] in
/-- What is repeated in two lists together is what is repeated in the first, and then in the second
after all entries of the first. -/
theorem repeatsAfter_append (seen entries others : List α) :
    repeatsAfter seen (entries ++ others) =
      repeatsAfter seen entries ++ repeatsAfter (entries.reverse ++ seen) others := by
  induction entries generalizing seen with
  | nil => rfl
  | cons x rest ih =>
    rw [List.cons_append, repeatsAfter, repeatsAfter, ih, List.reverse_cons, List.append_assoc,
      List.singleton_append]
    split <;> rfl

omit [LawfulBEq α] in
/-- Later entries leave what is repeated among the first ones as it is. -/
theorem repeats_prefix {entries others : List α} (h : entries <+: others) :
    repeats entries <+: repeats others := by
  obtain ⟨rest, rfl⟩ := h
  rw [repeats, repeats, repeatsAfter_append]
  exact List.prefix_append _ _

end Repeats

/-! ## Finding by id -/

/-- What is found at a name is an entry of this name. -/
theorem mem_of_lookup_eq_some {α : Type} {name : String} {value : α}
    {entries : List (String × α)} (h : entries.lookup name = some value) :
    (name, value) ∈ entries := by
  obtain ⟨before, after, rfl, -⟩ := List.lookup_eq_some_iff.1 h
  exact List.mem_append_right _ List.mem_cons_self

/-- If ids differ, then an entry is found by its id. -/
theorem find?_eq_some_of_mem {α : Type} (id : α → String) {entries : List α}
    (hnodup : (entries.map id).Nodup) {x : α} (hx : x ∈ entries) :
    entries.find? (id · == id x) = some x := by
  induction entries with
  | nil => cases hx
  | cons first rest ih =>
    rw [List.map_cons, List.nodup_cons] at hnodup
    rcases List.mem_cons.1 hx with rfl | hx
    · simp
    · have hne : id first ≠ id x := fun heq => hnodup.1 (heq ▸ List.mem_map_of_mem hx)
      rw [List.find?_cons_of_neg (by simpa using hne)]
      exact ih hnodup.2 hx

/-- If ids differ, then what is found for an id is the entry with this id. -/
theorem find?_eq_some_iff {α : Type} (id : α → String) {entries : List α}
    (hnodup : (entries.map id).Nodup) {name : String} {x : α} :
    entries.find? (id · == name) = some x ↔ x ∈ entries ∧ id x = name := by
  constructor
  · intro h
    exact ⟨List.mem_of_find?_eq_some h, by simpa using List.find?_some h⟩
  · rintro ⟨hx, rfl⟩
    exact find?_eq_some_of_mem id hnodup hx

/-- Where ids are distinct, the order of the entries does not matter for finding one. -/
theorem find?_of_perm {α : Type} (id : α → String) {entries others : List α}
    (hperm : others.Perm entries) (hnodup : (entries.map id).Nodup) (name : String) :
    others.find? (id · == name) = entries.find? (id · == name) := by
  have hothers : (others.map id).Nodup := (hperm.map _).nodup_iff.2 hnodup
  apply Option.ext
  intro x
  rw [find?_eq_some_iff id hothers, find?_eq_some_iff id hnodup, hperm.mem_iff]

/-- If the ids of pins differ, then a pin is found by its id. -/
theorem Pin.find?_eq_some_of_mem {pins : List Pin} (hnodup : (pins.map (·.id)).Nodup) {pin : Pin}
    (hpin : pin ∈ pins) : Pin.find? pins pin.id = some pin :=
  AbilityGraph.find?_eq_some_of_mem Pin.id hnodup hpin

/-- The pin found for an id is one of the pins and has this id. -/
theorem Pin.mem_of_find? {pins : List Pin} {id : String} {pin : Pin}
    (h : Pin.find? pins id = some pin) : pin ∈ pins ∧ pin.id = id := by
  refine ⟨List.mem_of_find?_eq_some h, ?_⟩
  simpa using List.find?_some h

namespace Definition

/-- A definition gives its pins for a number of slots just if no id is used twice by them. -/
theorem instantiate_eq_ok_iff {definition : Definition} {count : Nat} {pins : List Pin} :
    definition.instantiate count = .ok pins ↔
      pins = definition.pinsWithSlots count ∧ (pins.map (·.id)).Nodup := by
  simp only [instantiate]
  split
  next hrepeats =>
    have hnodup := (repeats_eq_nil_iff _).1 hrepeats
    constructor
    · intro h
      cases h
      exact ⟨rfl, hnodup⟩
    · rintro ⟨rfl, -⟩
      rfl
  next id rest hrepeats =>
    constructor
    · intro h
      cases h
    · rintro ⟨rfl, hnodup⟩
      rw [(repeats_eq_nil_iff _).2 hnodup] at hrepeats
      cases hrepeats

/-- Where the pins of a node cannot be found, two of them have the id that is named. -/
theorem one_lt_count_of_instantiate {definition : Definition} {count : Nat} {fault : DuplicatePin}
    (h : definition.instantiate count = .error fault) :
    fault.nodeType = definition.nodeType ∧
      1 < ((definition.pinsWithSlots count).map (·.id)).count fault.pinId := by
  simp only [instantiate] at h
  split at h
  · cases h
  next id rest hrepeats =>
    cases h
    refine ⟨rfl, one_lt_count_of_mem_repeats ?_⟩
    rw [hrepeats]
    exact List.mem_cons_self

/-- More slots only add pins at the end. -/
theorem pinsWithSlots_prefix (definition : Definition) {m n : Nat} (h : m ≤ n) :
    definition.pinsWithSlots m <+: definition.pinsWithSlots n := by
  unfold pinsWithSlots
  cases definition.slots with
  | none => exact List.prefix_rfl
  | some template =>
    obtain ⟨k, rfl⟩ := Nat.exists_eq_add_of_le h
    rw [List.prefix_append_right_inj, List.range_add]
    simp only [List.flatMap_append]
    exact List.prefix_append _ _

/-- A pin that a node has under two configs is the same pin under both. -/
theorem find?_of_materialize {definition : Definition} {config other : Config}
    {pins otherPins : List Pin} (hpins : definition.materialize config = .ok pins)
    (hother : definition.materialize other = .ok otherPins) {id : String} {pin : Pin}
    (hpin : Pin.find? pins id = some pin) (hid : otherPins.any (·.id == id) = true) :
    Pin.find? otherPins id = some pin := by
  obtain ⟨rfl, -⟩ := instantiate_eq_ok_iff.1 hpins
  obtain ⟨rfl, -⟩ := instantiate_eq_ok_iff.1 hother
  rcases Nat.le_total (definition.slotCount config) (definition.slotCount other) with hle | hle
  · obtain ⟨rest, hrest⟩ := definition.pinsWithSlots_prefix hle
    rw [Pin.find?] at hpin ⊢
    rw [← hrest, List.find?_append, hpin]
    rfl
  · obtain ⟨rest, hrest⟩ := definition.pinsWithSlots_prefix hle
    rw [Pin.find?] at hpin ⊢
    rw [← hrest, List.find?_append] at hpin
    cases hfound : (definition.pinsWithSlots (definition.slotCount other)).find? (·.id == id) with
    | none =>
      obtain ⟨found, hmem, heq⟩ := List.any_eq_true.1 hid
      exact absurd heq (List.find?_eq_none.1 hfound found hmem)
    | some found =>
      rw [hfound] at hpin
      exact hpin

end Definition

end AbilityGraph
