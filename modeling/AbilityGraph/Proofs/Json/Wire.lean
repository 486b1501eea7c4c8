import AbilityGraph.Json.Record
import AbilityGraph.Proofs.FieldMap
import Mathlib.Data.List.Forall2

/-!
# What arriving JSON shows

`Wire.Shows` says that JSON as it arrives is a value: each part of it has a value, and no object in
it repeats a name. In which order an object lists its members does not matter. A value that arrives
as it is kept is what is shown (`Wire.shows_ofJson`). What is shown determines the parts of an array
and of an object (`Wire.shows_array_iff`, `Wire.shows_object_iff`), so two arrivals that show one
value (`Wire.Alike`) have parts that show one value each.
-/

set_option autoImplicit false

namespace AbilityGraph

/-! ## Options and lists of them -/

section Options

variable {α β γ : Type} {r : α → β → Prop} {x : Option α} {y : Option β} {z : Option γ}

/-- A value that is there is related only to a value that is there. -/
theorem rel_some_left_iff {a : α} : Option.Rel r (some a) y ↔ ∃ b, y = some b ∧ r a b := by
  cases y <;> simp

/-- A missing value is related only to a missing value. -/
theorem rel_none_left_iff : Option.Rel r none y ↔ y = none := by
  cases y <;> simp

/-- A function applied on the left may be put into the relation. -/
theorem rel_map_left_iff {f : γ → α} :
    Option.Rel r (z.map f) y ↔ Option.Rel (fun c b => r (f c) b) z y := by
  cases z <;> cases y <;> simp

/-- Results of functions are related if these relate what they are applied to. -/
theorem rel_map {δ : Type} {f : γ → α} {g : δ → β} {w : Option δ}
    (h : Option.Rel (fun c d => r (f c) (g d)) z w) : Option.Rel r (z.map f) (w.map g) := by
  cases h with
  | none => exact .none
  | some hr => exact .some hr

/-- What is related by one relation is related by every relation that follows from it. -/
theorem rel_imp {s : α → β → Prop} (h : Option.Rel r x y) (himp : ∀ a ∈ x, ∀ b, r a b → s a b) :
    Option.Rel s x y := by
  cases h with
  | none => exact .none
  | some hr => exact .some (himp _ rfl _ hr)

/-- What is related one way is related by the opposite relation the other way. -/
theorem rel_swap (h : Option.Rel r x y) : Option.Rel (fun b a => r a b) y x := by
  cases h with
  | none => exact .none
  | some hr => exact .some hr

/-- Options that are related to one option are related to each other. -/
theorem rel_both {s : γ → β → Prop} {t : α → γ → Prop} (hr : Option.Rel r x y)
    (hs : Option.Rel s z y) (h : ∀ a b c, r a b → s c b → t a c) : Option.Rel t x z := by
  cases hr with
  | none =>
    cases hs with
    | none => exact .none
  | some hr =>
    cases hs with
    | some hs => exact .some (h _ _ _ hr hs)

/-- What is related by equality is equal. -/
theorem eq_of_rel {y : Option α} (h : Option.Rel (· = ·) x y) : x = y := by
  cases h with
  | none => rfl
  | some heq => rw [heq]

/-- All entries of a list are read just if each is. -/
theorem mapM_eq_some_iff {read : α → Option β} {entries : List α} {values : List β} :
    entries.mapM read = some values ↔
      List.Forall₂ (fun entry value => read entry = some value) entries values := by
  induction entries generalizing values with
  | nil => simp [eq_comm]
  | cons entry rest ih =>
    simp only [List.mapM_cons, Option.pure_def, Option.bind_eq_bind, Option.bind_eq_some_iff,
      Option.some.injEq, ih, List.forall₂_cons_left_iff]
    constructor
    · rintro ⟨value, hvalue, others, hothers, rfl⟩
      exact ⟨value, others, hvalue, hothers, rfl⟩
    · rintro ⟨value, others, hvalue, hothers, rfl⟩
      exact ⟨value, hvalue, others, hothers, rfl⟩

/-- A list can be read if each of its entries can. -/
theorem exists_mapM {read : α → Option β} {entries : List α}
    (h : ∀ entry ∈ entries, ∃ value, read entry = some value) :
    ∃ values, entries.mapM read = some values := by
  induction entries with
  | nil => exact ⟨[], rfl⟩
  | cons entry rest ih =>
    obtain ⟨value, hvalue⟩ := h entry List.mem_cons_self
    obtain ⟨values, hvalues⟩ := ih fun other hother => h other (List.mem_cons_of_mem _ hother)
    refine ⟨value :: values, ?_⟩
    rw [mapM_eq_some_iff] at hvalues ⊢
    exact .cons hvalue hvalues

/-- Each value of a list was read from one of its entries. -/
theorem exists_of_mapM {read : α → Option β} {entries : List α} {values : List β}
    (h : entries.mapM read = some values) {value : β} (hvalue : value ∈ values) :
    ∃ entry ∈ entries, read entry = some value := by
  have hall := mapM_eq_some_iff.1 h
  obtain ⟨i, hi, rfl⟩ := List.getElem_of_mem hvalue
  have hentry : i < entries.length := hall.length_eq ▸ hi
  exact ⟨entries[i], List.getElem_mem hentry, hall.get hentry hi⟩

/-- Named entries keep their names when their values are read. -/
theorem names_mapM {read : α → Option β} {entries : List (String × α)} {values : List (String × β)}
    (h : entries.mapM (fun e => (read e.2).map (e.1, ·)) = some values) :
    entries.map (·.1) = values.map (·.1) := by
  have hall := mapM_eq_some_iff.1 h
  clear h
  induction hall with
  | nil => rfl
  | cons hfirst _ ih =>
    obtain ⟨value, -, rfl⟩ := Option.map_eq_some_iff.1 hfirst
    rw [List.map_cons, List.map_cons, ih]

/-- A name has what is read from the entry that it has. -/
theorem lookup_mapM {read : α → Option β} {entries : List (String × α)}
    {values : List (String × β)}
    (h : entries.mapM (fun e => (read e.2).map (e.1, ·)) = some values) (name : String) :
    Option.Rel (fun entry value => read entry = some value) (entries.lookup name)
      (values.lookup name) := by
  have hall := mapM_eq_some_iff.1 h
  clear h
  induction hall with
  | nil => exact .none
  | @cons entry _ rest others hfirst _ ih =>
    obtain ⟨value, hvalue, rfl⟩ := Option.map_eq_some_iff.1 hfirst
    obtain ⟨own, first⟩ := entry
    rw [lookup_cons_eq, lookup_cons_eq]
    by_cases heq : name = own
    · rw [if_pos heq, if_pos heq]
      exact .some hvalue
    · rw [if_neg heq, if_neg heq]
      exact ih

end Options

namespace Wire

/-! ## The value of what arrives -/

/-- No object in what arrives repeats a name. -/
inductive Distinct : Wire → Prop
  | unreadable : Distinct .unreadable
  | null : Distinct .null
  | bool (value : Bool) : Distinct (.bool value)
  | number (value : Number) : Distinct (.number value)
  | string (value : String) : Distinct (.string value)
  | array {items : List Wire} (hitems : ∀ item ∈ items, Distinct item) : Distinct (.array items)
  | object {members : List (String × Wire)} (hnodup : (members.map (·.1)).Nodup)
      (hmembers : ∀ member ∈ members, Distinct member.2) : Distinct (.object members)

/-- The items of an array arrive one by one. -/
theorem ofItems_eq_map (items : List Json) : ofItems items = items.map ofJson := by
  induction items with
  | nil => rfl
  | cons item rest ih => rw [ofItems, ih, List.map_cons]

/-- The members of an object arrive one by one, under their names. -/
theorem ofMembers_eq_map (members : List (String × Json)) :
    ofMembers members = members.map fun m => (m.1, ofJson m.2) := by
  induction members with
  | nil => rfl
  | cons member rest ih => rw [ofMembers, ih, List.map_cons]

/-- The items of an array have values if each of them has one. -/
theorem toItems?_eq_mapM (items : List Wire) : toItems? items = items.mapM toJson? := by
  induction items with
  | nil => rfl
  | cons item rest ih => rw [toItems?, ih, List.mapM_cons]

/-- The members of an object have values if each of them has one. -/
theorem toMembers?_eq_mapM (members : List (String × Wire)) :
    toMembers? members = members.mapM fun m => (m.2.toJson?).map (m.1, ·) := by
  induction members with
  | nil => rfl
  | cons member rest ih =>
    rw [toMembers?, ih, List.mapM_cons]
    cases member.2.toJson? <;> rfl

/-- What arrives is a value: each part has a value, and no object repeats a name. -/
structure Shows (w : Wire) (value : Json) : Prop where
  distinct : w.Distinct
  toJson?_eq : w.toJson? = some value

/-- What arrives shows only values in normal form. -/
theorem Shows.normal {w : Wire} {value : Json} (h : w.Shows value) : value.Normal :=
  toJson?_normal h.toJson?_eq

/-- Of what shows a value, every part has one. -/
theorem Shows.isReadable {w : Wire} {value : Json} (h : w.Shows value) : w.isReadable = true := by
  rw [Wire.isReadable, h.toJson?_eq]
  rfl

/-- What repeats no name shows a value if every part has one. -/
theorem Distinct.exists_shows {w : Wire} (h : w.Distinct) (hreadable : w.isReadable = true) :
    ∃ value, w.Shows value := by
  obtain ⟨value, hvalue⟩ := Option.isSome_iff_exists.1 hreadable
  exact ⟨value, h, hvalue⟩

/-! ## Parts -/

/-- Items show some values one by one if none repeats a name and these are the values of all. -/
theorem forall₂_shows_iff {items : List Wire} {values : List Json} :
    List.Forall₂ Shows items values ↔
      (∀ item ∈ items, item.Distinct) ∧ toItems? items = some values := by
  rw [toItems?_eq_mapM, mapM_eq_some_iff, ← List.forall₂_and_left]
  constructor
  · exact fun h => h.imp fun _ _ hshows => ⟨hshows.distinct, hshows.toJson?_eq⟩
  · exact fun h => h.imp fun _ _ hshows => ⟨hshows.1, hshows.2⟩

/-- An array shows an array, and its items show the items of that. -/
theorem shows_array_iff {items : List Wire} {value : Json} :
    (array items).Shows value ↔
      ∃ values, value = .array values ∧ List.Forall₂ Shows items values := by
  constructor
  · rintro ⟨hdistinct, hvalue⟩
    rw [toJson?, Option.map_eq_some_iff] at hvalue
    obtain ⟨values, hvalues, rfl⟩ := hvalue
    cases hdistinct with
    | array hitems => exact ⟨values, rfl, forall₂_shows_iff.2 ⟨hitems, hvalues⟩⟩
  · rintro ⟨values, rfl, hall⟩
    obtain ⟨hitems, hvalues⟩ := forall₂_shows_iff.1 hall
    refine ⟨.array hitems, ?_⟩
    rw [toJson?, hvalues]
    rfl

/-- What shows a value and arrives as an object repeats no name, and shows an object with members
that its own members show. -/
theorem Shows.exists_fields {members : List (String × Wire)} {value : Json}
    (h : (object members).Shows value) : (members.map (·.1)).Nodup ∧
      ∃ fields : FieldMap Json, value = .object fields.entries ∧
        ∀ name, Option.Rel Shows (members.lookup name) (fields.get? name) := by
  have hvalue := h.toJson?_eq
  rw [toJson?, Option.map_eq_some_iff] at hvalue
  obtain ⟨values, hvalues, rfl⟩ := hvalue
  rw [toMembers?_eq_mapM] at hvalues
  cases h.distinct with
  | object hnodup hmembers =>
    refine ⟨hnodup, .ofList values, rfl, fun name => ?_⟩
    rw [FieldMap.get?_ofList (names_mapM hvalues ▸ hnodup)]
    apply rel_imp (lookup_mapM hvalues name)
    intro w hw value hvalue
    exact ⟨hmembers _ ((lookup_eq_some_iff_mem hnodup).1 hw), hvalue⟩

/-- What arrives is some value. -/
def IsValue (w : Wire) : Prop := ∃ value, w.Shows value

/-- A text is a value. -/
theorem isValue_string (text : String) : (string text).IsValue :=
  ⟨.string text, .string text, rfl⟩

/-- An array is a value if each of its items is. -/
theorem isValue_array {items : List Wire} (h : ∀ item ∈ items, item.IsValue) :
    (array items).IsValue := by
  obtain ⟨values, hvalues⟩ := exists_mapM fun item hitem =>
    (h item hitem).imp fun _ hshows => hshows.toJson?_eq
  refine ⟨.array values, .array fun item hitem => ?_, ?_⟩
  · obtain ⟨value, hshows⟩ := h item hitem
    exact hshows.distinct
  · rw [toJson?, toItems?_eq_mapM, hvalues, Option.map_some]

/-- An object is a value if it repeats no name and each of its members is one. -/
theorem isValue_object {members : List (String × Wire)} (hnodup : (members.map (·.1)).Nodup)
    (h : ∀ member ∈ members, member.2.IsValue) : (object members).IsValue := by
  have hread : ∀ member ∈ members, ∃ value : String × Json,
      (member.2.toJson?).map (member.1, ·) = some value := by
    intro member hmember
    obtain ⟨value, hshows⟩ := h member hmember
    exact ⟨(member.1, value), by rw [hshows.toJson?_eq, Option.map_some]⟩
  obtain ⟨values, hvalues⟩ := exists_mapM hread
  refine ⟨.object (FieldMap.ofList values).entries, .object hnodup fun member hmember => ?_, ?_⟩
  · obtain ⟨value, hshows⟩ := h member hmember
    exact hshows.distinct
  · rw [toJson?, toMembers?_eq_mapM, hvalues, Option.map_some]

/-- An object shows an object with the same names, and what it has for a name shows what that has
for the name. -/
theorem shows_object_iff {members : List (String × Wire)} {value : Json} :
    (object members).Shows value ↔ (members.map (·.1)).Nodup ∧
      ∃ fields : FieldMap Json, value = .object fields.entries ∧
        ∀ name, Option.Rel Shows (members.lookup name) (fields.get? name) := by
  refine ⟨Shows.exists_fields, ?_⟩
  rintro ⟨hnodup, fields, rfl, hlookup⟩
  have hvalues : ∀ member ∈ members, member.2.IsValue := by
    intro member hmember
    have hmem := hlookup member.1
    rw [(lookup_eq_some_iff_mem hnodup).2 hmember] at hmem
    obtain ⟨value, -, h⟩ := rel_some_left_iff.1 hmem
    exact ⟨value, h⟩
  obtain ⟨value, h⟩ := isValue_object hnodup hvalues
  obtain ⟨-, shown, rfl, hshown⟩ := h.exists_fields
  have hfields : shown = fields := by
    apply FieldMap.ext_get?
    intro name
    apply eq_of_rel
    apply rel_both (rel_swap (hshown name)) (rel_swap (hlookup name))
    intro value w other hvalue hother
    exact Option.some.inj (hvalue.toJson?_eq.symm.trans hother.toJson?_eq)
  exact hfields ▸ h

/-- What shows given fields has the same names, each with what shows its field. -/
theorem shows_fields_iff {members : List (String × Wire)} {fields : FieldMap Json} :
    (object members).Shows (.object fields.entries) ↔ (members.map (·.1)).Nodup ∧
      ∀ name, Option.Rel Shows (members.lookup name) (fields.get? name) := by
  rw [shows_object_iff]
  constructor
  · rintro ⟨hnodup, own, heq, hlookup⟩
    obtain rfl : fields = own := FieldMap.ext (Json.object.inj heq)
    exact ⟨hnodup, hlookup⟩
  · rintro ⟨hnodup, hlookup⟩
    exact ⟨hnodup, fields, rfl, hlookup⟩

/-- What shows an array is an array whose items show its items. -/
theorem Shows.exists_items {w : Wire} {values : List Json} (h : w.Shows (.array values)) :
    ∃ items, w = array items ∧ List.Forall₂ Shows items values := by
  cases w with
  | array items =>
    obtain ⟨_, ⟨⟩, hall⟩ := shows_array_iff.1 h
    exact ⟨items, rfl, hall⟩
  | object members =>
    obtain ⟨-, fields, heq, -⟩ := shows_object_iff.1 h
    cases heq
  | _ => cases h.toJson?_eq

/-- What shows an object is an object that repeats no name and whose members show its members. -/
theorem Shows.exists_members {w : Wire} {entries : List (String × Json)}
    (h : w.Shows (.object entries)) : ∃ members, w = object members ∧
      (members.map (·.1)).Nodup ∧
        ∀ name, Option.Rel Shows (members.lookup name) (entries.lookup name) := by
  cases w with
  | array items =>
    obtain ⟨_, heq, -⟩ := shows_array_iff.1 h
    cases heq
  | object members =>
    obtain ⟨hnodup, fields, ⟨⟩, hlookup⟩ := shows_object_iff.1 h
    exact ⟨members, rfl, hnodup, hlookup⟩
  | _ => cases h.toJson?_eq

/-- What arrives is neither an array nor an object. -/
def isPlain : Wire → Bool
  | array _ => false
  | object _ => false
  | _ => true

/-- What shows a value that is neither an array nor an object is this value as it is written. -/
theorem Shows.eq_ofJson {w : Wire} {value : Json} (h : w.Shows value)
    (hplain : (ofJson value).isPlain = true) : w = ofJson value := by
  cases w with
  | array items =>
    obtain ⟨_, rfl, -⟩ := shows_array_iff.1 h
    cases hplain
  | object members =>
    obtain ⟨-, fields, rfl, -⟩ := shows_object_iff.1 h
    cases hplain
  | unreadable => cases h.toJson?_eq
  | null =>
    cases h.toJson?_eq
    rfl
  | bool value =>
    cases h.toJson?_eq
    rfl
  | number value =>
    cases h.toJson?_eq
    rfl
  | string value =>
    cases h.toJson?_eq
    rfl

/-- A value that is neither an array nor an object arrives in one way. -/
theorem Shows.eq_of_isPlain {w other : Wire} {value : Json} (h : w.Shows value)
    (hother : other.Shows value) (hplain : (ofJson value).isPlain = true) :
    w.isPlain = true ∧ w = other := by
  obtain rfl := h.eq_ofJson hplain
  obtain rfl := hother.eq_ofJson hplain
  exact ⟨hplain, rfl⟩

/-- A text shows itself and nothing else. -/
theorem rel_string_left_iff {text : String} {value : Option Json} :
    Option.Rel Shows (some (string text)) value ↔ value = some (.string text) := by
  rw [rel_some_left_iff]
  constructor
  · rintro ⟨shown, rfl, hshows⟩
    rw [← hshows.toJson?_eq]
    rfl
  · rintro rfl
    exact ⟨_, rfl, .string text, rfl⟩

/-- Nothing but a text shows it. -/
theorem rel_string_right_iff {text : String} {w : Option Wire} :
    Option.Rel Shows w (some (.string text)) ↔ w = some (string text) := by
  constructor
  · intro h
    obtain ⟨own, rfl, hshows⟩ := rel_some_left_iff.1 (rel_swap h)
    exact congrArg some (hshows.eq_ofJson rfl)
  · rintro rfl
    exact .some ⟨.string text, rfl⟩

/-- A config value is read from what has its tree as value. -/
theorem toValue?_eq_some_iff {w : Wire} {value : Value} :
    w.toValue? = some value ↔ w.toJson? = some value.tree := by
  unfold toValue?
  split
  next tree htree => simp [htree, Value.ext_iff]
  next hnone => simp [hnone]

/-- What shows a value is read as this config value. -/
theorem Shows.toValue?_eq {w : Wire} {value : Json} (h : w.Shows value) :
    w.toValue? = some ⟨value, h.normal⟩ := toValue?_eq_some_iff.2 h.toJson?_eq

/-! ## Values that arrive as they are kept -/

/-- A value that arrives as it is kept is what is shown. -/
theorem shows_ofJson {value : Json} (h : value.Normal) : (ofJson value).Shows value := by
  induction h with
  | null => exact ⟨.null, rfl⟩
  | bool value => exact ⟨.bool value, rfl⟩
  | number value => exact ⟨.number value, rfl⟩
  | string value => exact ⟨.string value, rfl⟩
  | @array items _ ih =>
    rw [ofJson, ofItems_eq_map, shows_array_iff]
    refine ⟨items, rfl, ?_⟩
    rw [List.forall₂_map_left_iff, List.forall₂_same]
    exact ih
  | @object members hordered _ ih =>
    rw [ofJson, ofMembers_eq_map, shows_object_iff]
    have hnodup := FieldMap.nodup_names ⟨members, hordered⟩
    refine ⟨?_, ⟨members, hordered⟩, rfl, fun name => ?_⟩
    · rw [List.map_map]
      exact hnodup
    · rw [lookup_map_snd]
      show Option.Rel Shows ((members.lookup name).map ofJson) (members.lookup name)
      cases hfound : members.lookup name with
      | none => exact .none
      | some value => exact .some (ih _ ((lookup_eq_some_iff_mem hnodup).1 hfound))

/-! ## Arrivals of one value -/

/-- Two arrivals show one value. -/
def Alike (w other : Wire) : Prop := ∃ value, w.Shows value ∧ other.Shows value

namespace Alike

variable {w other : Wire}

/-- Arrivals that are alike show the same value. -/
theorem shows (h : w.Alike other) {value : Json} (hw : w.Shows value) : other.Shows value := by
  obtain ⟨shown, hshown, hother⟩ := h
  have heq : shown = value := Option.some.inj (hshown.toJson?_eq.symm.trans hw.toJson?_eq)
  exact heq ▸ hother

/-- If one arrival is like another, then the other is like the one. -/
theorem symm (h : w.Alike other) : other.Alike w := by
  obtain ⟨value, hw, hother⟩ := h
  exact ⟨value, hother, hw⟩

/-- If two arrivals are alike, then every part has a value in both or in neither. -/
theorem isReadable_eq (h : w.Alike other) : w.isReadable = other.isReadable := by
  obtain ⟨value, hw, hother⟩ := h
  rw [hw.isReadable, hother.isReadable]

/-- Arrivals that are alike are read as the same config value. -/
theorem toValue?_eq (h : w.Alike other) : w.toValue? = other.toValue? := by
  obtain ⟨value, hw, hother⟩ := h
  apply Option.ext
  intro v
  rw [toValue?_eq_some_iff, toValue?_eq_some_iff, hw.toJson?_eq, hother.toJson?_eq]

/-- Two arrivals of one value are equal, or have items or members that are alike. -/
theorem parts (h : w.Alike other) :
    w.isPlain = true ∧ w = other ∨
    (∃ items others, w = array items ∧ other = array others ∧
      List.Forall₂ Alike items others) ∨
    ∃ members others, w = object members ∧ other = object others ∧
      (members.map (·.1)).Nodup ∧ (others.map (·.1)).Nodup ∧
        ∀ name, Option.Rel Alike (members.lookup name) (others.lookup name) := by
  obtain ⟨value, hw, hother⟩ := h
  cases value with
  | array values =>
    obtain ⟨items, rfl, hitems⟩ := hw.exists_items
    obtain ⟨others, rfl, hothers⟩ := hother.exists_items
    refine .inr (.inl ⟨items, others, rfl, rfl, ?_⟩)
    clear hw hother
    induction hitems generalizing others with
    | nil =>
      cases hothers
      exact .nil
    | cons hfirst _ ih =>
      cases hothers with
      | cons hother hothers => exact .cons ⟨_, hfirst, hother⟩ (ih _ hothers)
  | object entries =>
    obtain ⟨members, rfl, hnodup, hlookup⟩ := hw.exists_members
    obtain ⟨others, rfl, hothersNodup, hothersLookup⟩ := hother.exists_members
    refine .inr (.inr ⟨members, others, rfl, rfl, hnodup, hothersNodup, fun name => ?_⟩)
    apply rel_both (hlookup name) (hothersLookup name)
    exact fun _ value _ hw hother => ⟨value, hw, hother⟩
  | null => exact .inl (hw.eq_of_isPlain hother rfl)
  | bool value => exact .inl (hw.eq_of_isPlain hother rfl)
  | number value => exact .inl (hw.eq_of_isPlain hother rfl)
  | string value => exact .inl (hw.eq_of_isPlain hother rfl)

/-- What is like another arrival is a value. -/
theorem isValue (h : w.Alike other) : w.IsValue := by
  obtain ⟨value, hw, -⟩ := h
  exact ⟨value, hw⟩

end Alike

/-- What is a value is like itself. -/
theorem IsValue.alike {w : Wire} (h : w.IsValue) : w.Alike w := by
  obtain ⟨value, hw⟩ := h
  exact ⟨value, hw, hw⟩

/-- The items of an array that is a value are values. -/
theorem IsValue.of_mem {items : List Wire} (h : (array items).IsValue) {item : Wire}
    (hitem : item ∈ items) : item.IsValue := by
  obtain ⟨hplain, -⟩ | ⟨_, _, ⟨⟩, ⟨⟩, hall⟩ | ⟨_, _, heq, -⟩ := h.alike.parts
  · cases hplain
  · exact (List.forall₂_same.1 hall item hitem).isValue
  · cases heq

/-- Arrays are alike if their items are, one by one. -/
theorem alike_array {items others : List Wire} (h : List.Forall₂ Alike items others) :
    (array items).Alike (array others) := by
  have hvalues : ∃ values, List.Forall₂ Shows items values ∧ List.Forall₂ Shows others values := by
    induction h with
    | nil => exact ⟨[], .nil, .nil⟩
    | cons hfirst _ ih =>
      obtain ⟨value, hitem, hother⟩ := hfirst
      obtain ⟨values, hitems, hothers⟩ := ih
      exact ⟨value :: values, .cons hitem hitems, .cons hother hothers⟩
  obtain ⟨values, hitems, hothers⟩ := hvalues
  exact ⟨.array values, shows_array_iff.2 ⟨values, rfl, hitems⟩,
    shows_array_iff.2 ⟨values, rfl, hothers⟩⟩

/-- Objects that repeat no name are alike if at each name both have nothing or what they have is
alike. -/
theorem alike_object {members others : List (String × Wire)}
    (hnodup : (members.map (·.1)).Nodup) (hothers : (others.map (·.1)).Nodup)
    (h : ∀ name, Option.Rel Alike (members.lookup name) (others.lookup name)) :
    (object members).Alike (object others) := by
  have hvalues : ∀ member ∈ members, member.2.IsValue := by
    intro member hmember
    have hmem := h member.1
    rw [(lookup_eq_some_iff_mem hnodup).2 hmember, rel_some_left_iff] at hmem
    obtain ⟨_, -, value, hvalue, -⟩ := hmem
    exact ⟨value, hvalue⟩
  obtain ⟨value, hvalue⟩ := isValue_object hnodup hvalues
  obtain ⟨-, fields, heq, hfields⟩ := hvalue.exists_fields
  refine ⟨value, hvalue, shows_object_iff.2 ⟨hothers, fields, heq, fun name => ?_⟩⟩
  apply rel_both (rel_swap (h name)) (rel_swap (hfields name))
  exact fun other w shown halike hshown => halike.shows hshown

/-! ## Reading records -/

/-- If no name is repeated, then a member with one name is what is found there. -/
theorem member?_singleton {members : List (String × Wire)} (hnodup : (members.map (·.1)).Nodup)
    (name : String) : member? members [name] = some (members.lookup name) := by
  have hfilter : members.filter (fun m => [name].contains m.1) =
      ((members.lookup name).map (name, ·)).toList := by
    rw [← filter_name_eq hnodup]
    exact List.filter_congr fun m _ => by simp [Bool.beq_eq_decide_eq]
  unfold member?
  rw [hfilter]
  cases members.lookup name <;> rfl

/-- An object without repeated names has for each member what it has for its name. -/
theorem members?_object {members : List (String × Wire)} (hnodup : (members.map (·.1)).Nodup)
    (names : List String) : (object members).members? (names.map ([·])) =
      some (names.map fun name => members.lookup name) := by
  simp only [members?]
  induction names with
  | nil => rfl
  | cons name rest ih =>
    rw [List.map_cons, List.mapM_cons, member?_singleton hnodup, ih]
    rfl

/-- What is neither an array nor an object has no members. -/
theorem members?_of_isPlain {w : Wire} (h : w.isPlain = true) (names : List Names) :
    w.members? names = none := by
  cases w with
  | array items => cases h
  | object members => cases h
  | _ => rfl

/-- What is neither an array nor an object has no tag. -/
theorem tagged?_of_isPlain {w : Wire} (h : w.isPlain = true) (tag : String) :
    w.tagged? tag = none := by
  unfold Wire.tagged?
  cases w with
  | array items => cases h
  | object members => cases h
  | _ => exact ite_self none

/-- The tag of an object without repeated names is what it has for the name of the tag. -/
theorem tagged?_object {members : List (String × Wire)} (hnodup : (members.map (·.1)).Nodup)
    (hreadable : (object members).isReadable = true) (tag : String) :
    (object members).tagged? tag =
      (members.lookup tag).map fun w => (w, object (members.filter (·.1 != tag))) := by
  unfold Wire.tagged?
  rw [if_pos hreadable]
  dsimp only
  rw [filter_name_eq hnodup]
  cases members.lookup tag <;> rfl

/-- Two arrivals of one value have alike members. -/
theorem Alike.members? {w other : Wire} (h : w.Alike other) (names : List String) :
    Option.Rel (List.Forall₂ (Option.Rel Alike)) (w.members? (names.map ([·])))
      (other.members? (names.map ([·]))) := by
  obtain ⟨hplain, rfl⟩ | ⟨items, others, rfl, rfl, hall⟩ |
    ⟨members, others, rfl, rfl, hnodup, hothers, hlookup⟩ := h.parts
  · rw [members?_of_isPlain hplain]
    exact .none
  · simp only [Wire.members?, ← hall.length_eq]
    split
    · have hfound : List.Forall₂ (Option.Rel Alike) (items.map some) (others.map some) := by
        rw [List.forall₂_map_left_iff, List.forall₂_map_right_iff]
        exact hall.imp fun _ _ => .some
      have hmissing : List.Forall₂ (Option.Rel Alike)
          (List.replicate ((names.map ([·])).length - items.length) none)
          (List.replicate ((names.map ([·])).length - items.length) none) := by
        rw [List.forall₂_same]
        intro member hmember
        rw [List.eq_of_mem_replicate hmember]
        exact .none
      exact .some (List.rel_append hfound hmissing)
    · exact .none
  · rw [members?_object hnodup, members?_object hothers, Option.rel_some_some,
      List.forall₂_map_left_iff, List.forall₂_map_right_iff, List.forall₂_same]
    exact fun name _ => hlookup name

/-- The members of a value are values. -/
theorem IsValue.of_members? {w : Wire} (h : w.IsValue) {names : List String}
    {found : List (Option Wire)} (hfound : w.members? (names.map ([·])) = some found) {a : Wire}
    (ha : some a ∈ found) : a.IsValue := by
  have hmembers := h.alike.members? names
  rw [hfound, Option.rel_some_some, List.forall₂_same] at hmembers
  exact (Option.rel_some_some.1 (hmembers _ ha)).isValue

/-- Two arrivals of one value have alike tags, and what is left of them is alike. -/
theorem Alike.tagged? {w other : Wire} (h : w.Alike other) (tag : String) :
    Option.Rel (fun parts others => parts.1.Alike others.1 ∧ parts.2.Alike others.2)
      (w.tagged? tag) (other.tagged? tag) := by
  have hreadable : w.isReadable = true ∧ other.isReadable = true := by
    obtain ⟨value, hw, hother⟩ := h
    exact ⟨hw.isReadable, hother.isReadable⟩
  obtain ⟨hplain, rfl⟩ | ⟨items, others, rfl, rfl, hall⟩ |
    ⟨members, others, rfl, rfl, hnodup, hothers, hlookup⟩ := h.parts
  · rw [tagged?_of_isPlain hplain]
    exact .none
  · unfold Wire.tagged?
    rw [if_pos hreadable.1, if_pos hreadable.2]
    cases hall with
    | nil => exact .none
    | cons hfirst hrest => exact .some ⟨hfirst, alike_array hrest⟩
  · have hcontent : (object (members.filter (·.1 != tag))).Alike
        (object (others.filter (·.1 != tag))) := by
      refine alike_object (hnodup.sublist (List.filter_sublist.map _))
        (hothers.sublist (List.filter_sublist.map _)) fun name => ?_
      rw [lookup_filter_bne, lookup_filter_bne]
      split
      · exact .none
      · exact hlookup name
    rw [tagged?_object hnodup hreadable.1, tagged?_object hothers hreadable.2]
    exact rel_map (rel_imp (hlookup tag) fun _ _ _ htag => ⟨htag, hcontent⟩)

/-- Arrivals that are alike are both an alternative without members or neither is. -/
theorem Alike.nothing?_eq {w other : Wire} (h : w.Alike other) : w.nothing? = other.nothing? := by
  obtain ⟨-, rfl⟩ | ⟨items, others, rfl, rfl, hall⟩ | ⟨members, others, rfl, rfl, -⟩ := h.parts
  · rfl
  · cases hall <;> rfl
  · rfl

end Wire

end AbilityGraph
