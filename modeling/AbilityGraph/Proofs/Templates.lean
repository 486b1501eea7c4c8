import AbilityGraph.Proofs.Pins
import Mathlib.Data.List.Nodup

/-!
# Templates and the numbers of slots

A template text is put in for many slots, and the texts that this gives are all different just if
the template has a placeholder somewhere (`substitute_separates`). Numbers of different lengths move
the rest of a text by different distances, so texts are first compared by length: each placeholder
is three characters long, and what is put in its place is as long as the number. If that says
nothing because both numbers are as long, then the texts differ at the first placeholder.

So a pin template without a placeholder is the same pin in every slot, and two slots are enough for
a collision.
-/

set_option autoImplicit false

namespace AbilityGraph

/-- What stands in a template for the number of a slot. -/
def placeholder : List Char := ['\x7b', 'i', '\x7d']

/-- The number of a slot is put in somewhere in a template. -/
def HasPlaceholder (template : String) : Prop := placeholder <:+: template.toList

/-- How many placeholders a template has. -/
def placeholders : List Char → Nat
  | '\x7b' :: 'i' :: '\x7d' :: rest => placeholders rest + 1
  | _ :: rest => placeholders rest
  | [] => 0

/-- A template has placeholders just if one stands somewhere in it. -/
theorem placeholders_pos_iff (chars : List Char) :
    0 < placeholders chars ↔ placeholder <:+: chars := by
  fun_induction placeholders chars with
  | case1 rest ih =>
    have hwithin : placeholder <:+: '\x7b' :: 'i' :: '\x7d' :: rest := ⟨[], rest, rfl⟩
    simp [hwithin]
  | case2 c rest hother ih =>
    have hstarts : ¬placeholder <+: c :: rest := by
      rintro ⟨more, hmore⟩
      cases hmore
      exact hother more rfl rfl
    rw [ih, List.infix_cons_iff]
    simp [hstarts]
  | case3 => decide

instance (template : String) : Decidable (HasPlaceholder template) :=
  decidable_of_iff _ (placeholders_pos_iff template.toList)

/-- Each placeholder gives its three characters for those of the number. -/
theorem length_substituteChars (index chars : List Char) :
    (substituteChars index chars).length + 3 * placeholders chars =
      chars.length + placeholders chars * index.length := by
  fun_induction placeholders chars with
  | case1 rest ih =>
    have hone := Nat.add_one_mul (placeholders rest) index.length
    rw [substituteChars, List.length_append]
    simp only [List.length_cons]
    omega
  | case2 c rest hother ih =>
    rw [substituteChars.eq_2 index c rest hother]
    simp only [List.length_cons]
    omega
  | case3 => simp [substituteChars]

/-- Substitution changes nothing if there is no placeholder. -/
theorem substituteChars_of_placeholders_eq_zero {chars : List Char} (h : placeholders chars = 0)
    (index : List Char) : substituteChars index chars = chars := by
  fun_induction placeholders chars with
  | case1 rest ih => cases h
  | case2 c rest hother ih => rw [substituteChars.eq_2 index c rest hother, ih h]
  | case3 => rfl

/-- Different numbers of one length can be told apart at the first placeholder. -/
theorem placeholders_eq_zero_of_length_eq {index other chars : List Char} (hne : index ≠ other)
    (hlength : index.length = other.length)
    (h : substituteChars index chars = substituteChars other chars) : placeholders chars = 0 := by
  fun_induction placeholders chars with
  | case1 rest ih =>
    rw [substituteChars, substituteChars] at h
    exact absurd (List.append_inj_left h hlength) hne
  | case2 c rest hother ih =>
    rw [substituteChars.eq_2 index c rest hother, substituteChars.eq_2 other c rest hother] at h
    exact ih (List.tail_eq_of_cons_eq h)
  | case3 => rfl

/-- Putting in two different texts gives the same just if there is no placeholder. If there were
one, then results of one length would come from texts of one length. -/
theorem substituteChars_eq_iff {index other : List Char} (hne : index ≠ other)
    (chars : List Char) :
    substituteChars index chars = substituteChars other chars ↔ placeholders chars = 0 := by
  constructor
  · intro h
    have hindex := length_substituteChars index chars
    have hother := length_substituteChars other chars
    have hproducts : placeholders chars * index.length = placeholders chars * other.length := by
      rw [h] at hindex
      omega
    rcases Nat.eq_zero_or_pos (placeholders chars) with hzero | hpos
    · exact hzero
    · exact placeholders_eq_zero_of_length_eq hne (Nat.eq_of_mul_eq_mul_left hpos hproducts) h
  · intro h
    rw [substituteChars_of_placeholders_eq_zero h, substituteChars_of_placeholders_eq_zero h]

/-- Different numbers have different digits. -/
theorem toDigits_ten_ne {i j : Nat} (hne : i ≠ j) : Nat.toDigits 10 i ≠ Nat.toDigits 10 j := by
  intro h
  have hnumbers := congrArg (Nat.ofDigitChars 10 · 0) h
  simp only [Nat.ofDigitChars_ten_toDigits] at hnumbers
  exact hne hnumbers

/-- The numbers of two slots give two texts just if the template has a placeholder. -/
theorem substitute_eq_iff {i j : Nat} (hne : i ≠ j) (template : String) :
    substitute template i = substitute template j ↔ ¬HasPlaceholder template := by
  rw [HasPlaceholder, ← placeholders_pos_iff, Nat.not_lt, Nat.le_zero, substitute, substitute,
    String.ofList_inj]
  exact substituteChars_eq_iff (toDigits_ten_ne hne) _

/-- A template without a placeholder is the same for every slot. -/
theorem substitute_of_not_hasPlaceholder {template : String} (h : ¬HasPlaceholder template)
    (index : Nat) : substitute template index = template := by
  rw [HasPlaceholder, ← placeholders_pos_iff, Nat.not_lt, Nat.le_zero] at h
  rw [substitute, substituteChars_of_placeholders_eq_zero h, String.ofList_toList]

/-! ## One pin for each slot -/

namespace Definition

variable {definition : Definition} {pin : Pin} {countField : String}

/-- The pins of a node with no pins but those that one template gives it. -/
theorem pinsWithSlots_of_single (hpins : definition.pins = [])
    (hslots : definition.slots = some ⟨countField, [pin]⟩) (count : Nat) :
    definition.pinsWithSlots count = (List.range count).map pin.atSlot := by
  simp only [pinsWithSlots, hpins, hslots, List.nil_append, List.map_cons, List.map_nil]
  exact (List.map_eq_flatMap ..).symm

/-- The pins of two or more slots have different ids just if the id of their template has a
placeholder. -/
theorem nodup_atSlot_iff {count : Nat} (hcount : 1 < count) (pin : Pin) :
    (((List.range count).map pin.atSlot).map (·.id)).Nodup ↔ HasPlaceholder pin.id := by
  rw [List.map_map]
  constructor
  · intro hnodup
    by_contra hnone
    have hsame : substitute pin.id 0 = substitute pin.id 1 :=
      (substitute_eq_iff Nat.zero_ne_one pin.id).2 hnone
    have hfirst : 0 ∈ List.range count := List.mem_range.2 (Nat.zero_lt_of_lt hcount)
    have hinj := List.inj_on_of_nodup_map hnodup hfirst (List.mem_range.2 hcount) hsame
    cases hinj
  · intro hplaceholder
    refine List.Nodup.map_on ?_ List.nodup_range
    intro i _ j _ hsame
    by_contra hne
    exact (substitute_eq_iff hne pin.id).1 hsame hplaceholder

/-- A definition with one template pin and no others gives pins for two or more slots just if the id
of this pin has a placeholder; else its fault names this id. -/
theorem instantiate_of_single (hpins : definition.pins = [])
    (hslots : definition.slots = some ⟨countField, [pin]⟩) {count : Nat} (hcount : 1 < count) :
    ((∃ pins, definition.instantiate count = .ok pins) ↔ HasPlaceholder pin.id) ∧
      (definition.instantiate count = .error ⟨definition.nodeType, pin.id⟩ ↔
        ¬HasPlaceholder pin.id) := by
  have hall := definition.pinsWithSlots_of_single hpins hslots count
  have hok : (∃ pins, definition.instantiate count = .ok pins) ↔ HasPlaceholder pin.id := by
    simp only [instantiate_eq_ok_iff, exists_eq_left, hall]
    exact nodup_atSlot_iff hcount pin
  refine ⟨hok, fun hfault hplaceholder => ?_, fun hnone => ?_⟩
  · obtain ⟨pins, hfound⟩ := hok.2 hplaceholder
    rw [hfault] at hfound
    cases hfound
  · cases hresult : definition.instantiate count with
    | ok pins => exact absurd (hok.1 ⟨pins, hresult⟩) hnone
    | error fault =>
      obtain ⟨htype, htwice⟩ := one_lt_count_of_instantiate hresult
      rw [hall] at htwice
      have hmem := List.count_pos_iff.1 (Nat.zero_lt_of_lt htwice)
      simp only [List.mem_map, List.mem_range] at hmem
      obtain ⟨_, ⟨index, -, rfl⟩, hid⟩ := hmem
      -- Without a placeholder the id of the pin is that of the template.
      have hself : substitute pin.id index = pin.id := substitute_of_not_hasPlaceholder hnone index
      have hpinId : fault.pinId = pin.id := hid.symm.trans hself
      rw [← htype, ← hpinId]

end Definition

/-- The texts that a template gives for two slots are different just if it has a placeholder, and so
are the ids of the pins that it is put in for. Where a node has but the pins of one such template,
two or more slots have pins if the id has a placeholder; if not, they collide in the id itself. -/
theorem substitute_separates {i j : Nat} (hne : i ≠ j) :
    (∀ template, substitute template i = substitute template j ↔ ¬HasPlaceholder template) ∧
    (∀ pin : Pin, (pin.atSlot i).id = (pin.atSlot j).id ↔ ¬HasPlaceholder pin.id) ∧
    ∀ (definition : Definition) (pin : Pin) (countField : String) (count : Nat),
      definition.pins = [] → definition.slots = some ⟨countField, [pin]⟩ → 1 < count →
      ((∃ pins, definition.instantiate count = .ok pins) ↔ HasPlaceholder pin.id) ∧
        (definition.instantiate count = .error ⟨definition.nodeType, pin.id⟩ ↔
          ¬HasPlaceholder pin.id) := by
  refine ⟨substitute_eq_iff hne, fun pin => substitute_eq_iff hne pin.id, ?_⟩
  intro definition pin countField count hpins hslots hcount
  exact Definition.instantiate_of_single hpins hslots hcount

/-- An output for each slot. -/
def slottedOutput (id : String) : Pin := .dataOut id "Out" (.single DataType.any)

/-- A node of slots alone, each with one output. -/
def slotted (outputId : String) : Definition where
  nodeType := "slotted"
  label := "Slotted"
  category := "data"
  schema := .ofList [("n", .ofType .integer)]
  pins := []
  slots := some ⟨"n", [slottedOutput outputId]⟩
  lowering := .data

/-- Numbers of one and of two digits are put in twice and give different texts. Outputs that are all
called the same collide; those with a number in their ids do not. -/
theorem slotted_separates :
    substitute "\x7bi\x7d0\x7bi\x7d" 1 ≠ substitute "\x7bi\x7d0\x7bi\x7d" 10 ∧
      substitute "extra" 1 = substitute "extra" 10 ∧
      (slotted "extra").instantiate 2 = .error ⟨"slotted", "extra"⟩ ∧
      ∃ pins, (slotted "out_\x7bi\x7d").instantiate 64 = .ok pins := by
  have hne : 1 ≠ 10 := by
    decide
  obtain ⟨htexts, -, hpins⟩ := substitute_separates hne
  have hpins := fun id count hcount =>
    hpins (slotted id) (slottedOutput id) "n" count rfl rfl hcount
  have htwice : HasPlaceholder "\x7bi\x7d0\x7bi\x7d" := by
    decide
  have hextra : ¬HasPlaceholder "extra" := by
    decide
  have hnumbered : HasPlaceholder "out_\x7bi\x7d" := by
    decide
  refine ⟨fun h => (htexts _).1 h htwice, (htexts _).2 hextra, ?_, ?_⟩
  · exact (hpins "extra" 2 (by decide)).2.2 hextra
  · exact (hpins "out_\x7bi\x7d" 64 (by decide)).1.2 hnumbered

end AbilityGraph
