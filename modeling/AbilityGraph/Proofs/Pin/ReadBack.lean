import AbilityGraph.Pin.Wire
import AbilityGraph.Proofs.Json.ReadBack

/-!
# Pins are read back

A pin is read back if its default value is not null, which is read as no default value, and if its
limit is one that fits into 64 bits (`Pin.Expressible`). Pins that were read are like that.
-/

set_option autoImplicit false

namespace AbilityGraph

open Wire (Member ReadsBack)

/-- The kind of a pin is read back. -/
theorem PinKind.readsBack (kind : PinKind) : ReadsBack ofWire? kind.toJson kind :=
  Wire.readsBack_choice (by cases kind <;> rfl)

/-- The direction of a pin is read back. -/
theorem PinDirection.readsBack (direction : PinDirection) :
    ReadsBack ofWire? direction.toJson direction :=
  Wire.readsBack_choice (by cases direction <;> rfl)

/-- A data type is read back. -/
theorem DataType.readsBack (dataType : DataType) :
    ReadsBack ofWire? dataType.toJson dataType := by
  cases dataType with
  | single tag => exact Wire.readsBack_of_isPlain rfl rfl
  | oneOf tags =>
    have htags : ReadsBack (Wire.list? Wire.string?) (Json.list .string tags) tags :=
      Wire.readsBack_list fun tag _ => Wire.readsBack_string tag
    apply Wire.readsBack_of_alike htags.isValue
    intro w hw
    have hread := htags.read_eq hw
    cases w with
    | array items =>
      show (Wire.list? Wire.string? (.array items)).map oneOf = _
      rw [hread, Option.map_some]
    | _ => cases hread

/-- No data type is written as null, which would be read as no data type. -/
theorem DataType.toJson_ne_null (dataType : DataType) : dataType.toJson ≠ .null := by
  cases dataType <;> nofun

namespace Pin

/-- A pin says nothing that cannot be read back: its default value is not null, and its limit fits
into 64 bits. -/
structure Expressible (pin : Pin) : Prop where
  defaultValue : ∀ value, pin.defaultValue = some value → value.tree ≠ .null
  maxConnections : ∀ limit, pin.maxConnections = some limit → limit ≤ 18446744073709551615

/-- A pin is read back if it can be written. -/
theorem readsBack {pin : Pin} (h : pin.Expressible) : ReadsBack ofWire? pin.toJson pin := by
  apply Wire.readsBack_record [
    .required "id" (Wire.readsBack_string pin.id),
    .required "label" (Wire.readsBack_string pin.label),
    .optional "group" .string pin.group (fun group _ => Wire.readsBack_string group) nofun,
    .required "kind" pin.kind.readsBack,
    .required "direction" pin.direction.readsBack,
    .optional "dataType" DataType.toJson pin.dataType (fun dataType _ => dataType.readsBack)
      fun dataType _ => dataType.toJson_ne_null,
    .withDefault "required" false (Wire.readsBack_bool pin.required),
    .optional "defaultValue" Value.tree pin.defaultValue (fun value _ => Wire.readsBack_value value)
      h.defaultValue,
    .withDefault "multi" false (Wire.readsBack_bool pin.multi),
    .optional "maxConnections" Json.count pin.maxConnections
      (fun limit hlimit => Wire.readsBack_count (h.maxConnections limit hlimit)) nofun]
  · simp [Member.always, Member.required, Member.withDefault, Member.optional]
  · intro w find hfound hread
    simp only [Member.always, Member.required, Member.withDefault, Member.optional, List.map_cons,
      List.map_nil, List.forall_mem_cons] at hfound hread
    simp [ofWire?, memberNames, hfound, hread]

/-- A pin that was read can be written. -/
theorem expressible_of_ofWire? {w : Wire} {pin : Pin} (h : ofWire? w = some pin) :
    pin.Expressible := by
  simp only [ofWire?, Option.bind_eq_bind, Option.bind_eq_some_iff] at h
  obtain ⟨found, -, h⟩ := h
  split at h
  next =>
    simp only [Option.bind_eq_some_iff] at h
    obtain ⟨_, -, _, -, _, -, _, -, _, -, _, -, _, -, _, hdefault, _, -, _, hlimit, ⟨⟩⟩ := h
    constructor
    · rintro value rfl
      obtain ⟨part, hnull, hpart⟩ := Wire.exists_of_optional hdefault
      exact Wire.tree_ne_null_of_toValue? hpart hnull
    · rintro limit rfl
      obtain ⟨part, -, hpart⟩ := Wire.exists_of_optional hlimit
      exact Wire.le_of_count? hpart
  next => cases h

end Pin

end AbilityGraph
