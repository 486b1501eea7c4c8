import AbilityGraph.Definition.Wire
import AbilityGraph.Proofs.Pin.ReadBack

/-!
# Definitions are read back

A definition is read back if its pins are, those of the slot template too, and if no default value
of a config field is null (`Definition.Expressible`). Definitions that were read are like that. A
lowering is read back in any case: its tag says how the other members are read.
-/

set_option autoImplicit false

namespace AbilityGraph

open Wire (Member ReadsBack)

/-! ## Config fields -/

/-- The type of a field is read back. -/
theorem FieldType.readsBack (type : FieldType) : ReadsBack ofWire? type.toJson type :=
  Wire.readsBack_choice (by cases type <;> rfl)

/-- A number is read back. -/
theorem Double.readsBack (x : Double) : ReadsBack Wire.double? x.toJson x :=
  Wire.readsBack_of_isPlain rfl rfl

namespace ConfigField

/-- The default value of a config field is not null, which would be read as no default value. -/
def Expressible (field : ConfigField) : Prop :=
  ∀ value, field.default = some value → value.tree ≠ .null

/-- A field is read back if its default can be written. -/
theorem readsBack {field : ConfigField} (h : field.Expressible) :
    ReadsBack ofWire? field.toJson field := by
  apply Wire.readsBack_record [
    .required "type" field.type.readsBack,
    .optional "default" Value.tree field.default (fun value _ => Wire.readsBack_value value) h,
    .optional "enum" (Json.list Value.tree) field.allowed
      (fun _ _ => Wire.readsBack_list fun value _ => Wire.readsBack_value value) nofun,
    .optional "minimum" Double.toJson field.minimum (fun minimum _ => minimum.readsBack) nofun,
    .optional "maximum" Double.toJson field.maximum (fun maximum _ => maximum.readsBack) nofun]
  · simp [Member.always, Member.required, Member.optional]
  · intro w find hfound hread
    simp only [Member.always, Member.required, Member.optional, List.map_cons, List.map_nil,
      List.forall_mem_cons] at hfound hread
    simp [ofWire?, memberNames, hfound, hread]

/-- A field that was read has a default that can be written. -/
theorem expressible_of_ofWire? {w : Wire} {field : ConfigField} (h : ofWire? w = some field) :
    field.Expressible := by
  simp only [ofWire?, Option.bind_eq_bind, Option.bind_eq_some_iff] at h
  obtain ⟨found, -, h⟩ := h
  split at h
  next =>
    simp only [Option.bind_eq_some_iff] at h
    obtain ⟨_, -, _, hdefault, _, -, _, -, _, -, ⟨⟩⟩ := h
    rintro value rfl
    obtain ⟨part, hnull, hpart⟩ := Wire.exists_of_optional hdefault
    exact Wire.tree_ne_null_of_toValue? hpart hnull
  next => cases h

end ConfigField

/-! ## Slot templates -/

namespace SlotTemplate

/-- The template of a slot is read back if its pins can be written. -/
theorem readsBack {template : SlotTemplate} (h : ∀ pin ∈ template.pins, pin.Expressible) :
    ReadsBack ofWire? template.toJson template := by
  apply Wire.readsBack_record [
    .required "countField" (Wire.readsBack_string template.countField),
    .required "pins" (Wire.readsBack_list fun pin hpin => Pin.readsBack (h pin hpin))]
  · simp [Member.always, Member.required]
  · intro w find hfound hread
    simp only [Member.always, Member.required, List.map_cons, List.map_nil,
      List.forall_mem_cons] at hfound hread
    simp [ofWire?, hfound, hread]

/-- The pins of a template that was read can be written. -/
theorem expressible_of_ofWire? {w : Wire} {template : SlotTemplate}
    (h : ofWire? w = some template) : ∀ pin ∈ template.pins, pin.Expressible := by
  simp only [ofWire?, Option.bind_eq_bind, Option.bind_eq_some_iff] at h
  obtain ⟨found, -, h⟩ := h
  split at h
  next =>
    simp only [Option.bind_eq_some_iff] at h
    obtain ⟨_, -, _, hpins, ⟨⟩⟩ := h
    intro pin hpin
    obtain ⟨_, hlist⟩ := Wire.exists_of_required hpins
    obtain ⟨_, -, _, -, hread⟩ := Wire.exists_of_list? hlist hpin
    exact Pin.expressible_of_ofWire? hread
  next => cases h

end SlotTemplate

/-! ## Lowerings -/

/-- The pins of else-if clauses are read back. -/
theorem ElseIfPins.readsBack (pins : ElseIfPins) : ReadsBack ofWire? pins.toJson pins := by
  apply Wire.readsBack_record [
    .required "condition" (Wire.readsBack_string pins.condition),
    .required "then" (Wire.readsBack_string pins.thenOut)]
  · simp [Member.always, Member.required]
  · intro w find hfound hread
    simp only [Member.always, Member.required, List.map_cons, List.map_nil,
      List.forall_mem_cons] at hfound hread
    simp [ofWire?, hfound, hread]

namespace Lowering

/-- A lowering is read back if it is read from what is left when its tag is taken off. -/
theorem readsBack_tagged (members : List Member) {tag : String} {lowering : Lowering}
    (hnodup : ("kind" :: members.map (·.name)).Nodup)
    (hread : ∀ content : Wire, content.Alike (Wire.ofJson (.record (members.map (·.written)))) →
      ofTagged? tag content = some lowering) :
    ReadsBack ofWire? (.record (Json.member "kind" (.string tag) :: members.map (·.written)))
      lowering := by
  apply Wire.readsBack_of_alike
  · exact Wire.isValue_record (.required "kind" (Wire.readsBack_string tag) :: members) hnodup
  · intro w hw
    obtain ⟨content, htagged, hcontent⟩ := hw.exists_tagged hnodup
    show (w.tagged? "kind").bind _ = _
    rw [htagged]
    exact hread content hcontent

/-- An alternative is read back if it is put together from the contents of its members. -/
theorem readsBack_alternative (members : List Member) {tag : String} {lowering : Lowering}
    (hnodup : ("kind" :: members.map (·.name)).Nodup)
    (hread : ∀ (content : Wire) (find : String → Option Wire),
      content.members? (members.map fun m => [m.name]) = some (members.map fun m => find m.name) →
        (∀ m ∈ members, m.read (find m.name) = some m.content) →
          ofTagged? tag content = some lowering) :
    ReadsBack ofWire? (.record (Json.member "kind" (.string tag) :: members.map (·.written)))
      lowering := by
  apply readsBack_tagged members hnodup
  intro content hcontent
  obtain ⟨find, hfound, hmembers⟩ := hcontent.exists_find (List.nodup_cons.1 hnodup).2
  exact hread content find hfound hmembers

/-- The lowering of a start node is read back. -/
theorem readsBack_entry (next : String) :
    ReadsBack ofWire? (toJson (.entry next)) (.entry next) := by
  apply readsBack_alternative [.required "next" (Wire.readsBack_string next)]
  · simp [Member.always, Member.required]
  · intro content find hfound hread
    simp only [Member.always, Member.required, List.map_cons, List.map_nil,
      List.forall_mem_cons] at hfound hread
    simp [ofTagged?, hfound, hread]

/-- The lowering of an action is read back. -/
theorem readsBack_step (stepType : String) (fields : List String) (next : Option String) :
    ReadsBack ofWire? (toJson (.step stepType fields next)) (.step stepType fields next) := by
  apply readsBack_alternative [
    .required "stepType" (Wire.readsBack_string stepType),
    .withDefault "fields" [] (Wire.readsBack_list fun field _ => Wire.readsBack_string field),
    .optional "next" .string next (fun next _ => Wire.readsBack_string next) nofun]
  · simp [Member.always, Member.required, Member.withDefault, Member.optional]
  · intro content find hfound hread
    simp only [Member.always, Member.required, Member.withDefault, Member.optional, List.map_cons,
      List.map_nil, List.forall_mem_cons] at hfound hread
    simp [ofTagged?, hfound, hread]

/-- The lowering of a branch is read back. -/
theorem readsBack_branch (stepType condition thenOut : String) (elseIf : Option ElseIfPins)
    (elseOut : String) (next : Option String) :
    ReadsBack ofWire? (toJson (.branch stepType condition thenOut elseIf elseOut next))
      (.branch stepType condition thenOut elseIf elseOut next) := by
  apply readsBack_alternative [
    .required "stepType" (Wire.readsBack_string stepType),
    .required "condition" (Wire.readsBack_string condition),
    .required "then" (Wire.readsBack_string thenOut),
    .optional "elseIf" ElseIfPins.toJson elseIf (fun pins _ => pins.readsBack) nofun,
    .required "else" (Wire.readsBack_string elseOut),
    .optional "next" .string next (fun next _ => Wire.readsBack_string next) nofun]
  · simp [Member.always, Member.required, Member.optional]
  · intro content find hfound hread
    simp only [Member.always, Member.required, Member.optional, List.map_cons, List.map_nil,
      List.forall_mem_cons] at hfound hread
    simp [ofTagged?, hfound, hread]

/-- The lowering of a constant is read back. -/
theorem readsBack_literal (field : String) :
    ReadsBack ofWire? (toJson (.literal field)) (.literal field) := by
  apply readsBack_alternative [.required "field" (Wire.readsBack_string field)]
  · simp [Member.always, Member.required]
  · intro content find hfound hread
    simp only [Member.always, Member.required, List.map_cons, List.map_nil,
      List.forall_mem_cons] at hfound hread
    simp [ofTagged?, hfound, hread]

/-- The alternative without members does not look at what is left. -/
theorem readsBack_data : ReadsBack ofWire? (toJson .data) .data := by
  apply readsBack_tagged [] (by simp)
  intro content hcontent
  show content.nothing?.map _ = _
  rw [hcontent.nothing?_eq]
  rfl

/-- Every lowering is read back. -/
theorem readsBack (lowering : Lowering) : ReadsBack ofWire? lowering.toJson lowering := by
  cases lowering with
  | entry next => exact readsBack_entry next
  | step stepType fields next => exact readsBack_step stepType fields next
  | branch stepType condition thenOut elseIf elseOut next =>
    exact readsBack_branch stepType condition thenOut elseIf elseOut next
  | literal field => exact readsBack_literal field
  | data => exact readsBack_data

end Lowering

/-! ## Definitions -/

namespace Definition

/-- A definition says nothing that cannot be read back. -/
structure Expressible (definition : Definition) : Prop where
  schema : ∀ entry ∈ definition.schema.entries, entry.2.Expressible
  pins : ∀ pin ∈ definition.pins, pin.Expressible
  slots : ∀ template, definition.slots = some template →
    ∀ pin ∈ template.pins, pin.Expressible

/-- A definition is read back if its fields and pins can be written. -/
theorem readsBack {definition : Definition} (h : definition.Expressible) :
    ReadsBack ofWire? definition.toJson definition := by
  apply Wire.readsBack_record [
    .required "nodeType" (Wire.readsBack_string definition.nodeType),
    .required "label" (Wire.readsBack_string definition.label),
    .required "category" (Wire.readsBack_string definition.category),
    .withDefault "configSchema" .empty (Wire.readsBack_fieldMap fun entry hentry =>
      ConfigField.readsBack (h.schema entry hentry)),
    .withDefault "pins" [] (Wire.readsBack_list fun pin hpin => Pin.readsBack (h.pins pin hpin)),
    .optional "dynamicPins" SlotTemplate.toJson definition.slots
      (fun template htemplate => SlotTemplate.readsBack (h.slots template htemplate)) nofun,
    .required "compile" definition.lowering.readsBack]
  · simp [Member.always, Member.required, Member.withDefault, Member.optional]
  · intro w find hfound hread
    simp only [Member.always, Member.required, Member.withDefault, Member.optional, List.map_cons,
      List.map_nil, List.forall_mem_cons] at hfound hread
    simp [ofWire?, memberNames, hfound, hread]

/-- A definition that was read has only fields and pins that can be written. -/
theorem expressible_of_ofWire? {w : Wire} {definition : Definition}
    (h : ofWire? w = some definition) : definition.Expressible := by
  simp only [ofWire?, Option.bind_eq_bind, Option.bind_eq_some_iff] at h
  obtain ⟨found, -, h⟩ := h
  split at h
  next =>
    simp only [Option.bind_eq_some_iff] at h
    obtain ⟨_, -, _, -, _, -, _, hschema, _, hpins, _, hslots, _, -, ⟨⟩⟩ := h
    constructor
    · intro entry hentry
      obtain rfl | ⟨_, -, hmap⟩ := Wire.exists_of_withDefault hschema
      · cases hentry
      · obtain ⟨_, hread⟩ := Wire.exists_of_fieldMap? hmap hentry
        exact ConfigField.expressible_of_ofWire? hread
    · intro pin hpin
      obtain rfl | ⟨_, -, hlist⟩ := Wire.exists_of_withDefault hpins
      · cases hpin
      · obtain ⟨_, -, _, -, hread⟩ := Wire.exists_of_list? hlist hpin
        exact Pin.expressible_of_ofWire? hread
    · rintro template rfl
      obtain ⟨_, -, hread⟩ := Wire.exists_of_optional hslots
      exact SlotTemplate.expressible_of_ofWire? hread
  next => cases h

end Definition

end AbilityGraph
