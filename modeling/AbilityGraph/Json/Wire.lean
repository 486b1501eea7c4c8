import AbilityGraph.FieldMap
import AbilityGraph.Json

/-!
# JSON as it arrives

A reader of model types is given more than a JSON value: objects may repeat a member name, which is
an error where the name means something and harmless where it does not, and a part may be
well formed without having a value (a number beyond all doubles, half of a surrogate pair, too many
levels), which matters only if the part is looked at. `Wire` is JSON in that form.

`Wire.ofJson` embeds a value. `Wire.toValue?` takes the value of a part: of members with one name
the last counts, and members are put in order.
-/

set_option autoImplicit false

namespace AbilityGraph

/-- JSON as it arrives: members in the order and number in which they were written, and parts that
are well formed but have no value. -/
inductive Wire where
  | unreadable
  | null
  | bool (value : Bool)
  | number (value : Number)
  | string (value : String)
  | array (items : List Wire)
  | object (members : List (String × Wire))
  deriving Inhabited

namespace Wire

mutual

/-- A JSON value as it would arrive. -/
def ofJson : Json → Wire
  | .null => null
  | .bool value => bool value
  | .number value => number value
  | .string value => string value
  | .array items => array (ofItems items)
  | .object members => object (ofMembers members)

/-- The items of an array as they would arrive. -/
def ofItems : List Json → List Wire
  | [] => []
  | item :: rest => ofJson item :: ofItems rest

/-- The members of an object as they would arrive. -/
def ofMembers : List (String × Json) → List (String × Wire)
  | [] => []
  | (name, value) :: rest => (name, ofJson value) :: ofMembers rest

end

mutual

/-- The normal tree of the value of a part, if every part of it has a value. -/
def toJson? : Wire → Option Json
  | unreadable => none
  | null => some .null
  | bool value => some (.bool value)
  | number value => some (.number value)
  | string value => some (.string value)
  | array items => (toItems? items).map .array
  | object members => (toMembers? members).map fun ms => .object (FieldMap.ofList ms).entries

/-- The values of the items of an array. -/
def toItems? : List Wire → Option (List Json)
  | [] => some []
  | item :: rest => do return (← toJson? item) :: (← toItems? rest)

/-- The values of the members of an object. -/
def toMembers? : List (String × Wire) → Option (List (String × Json))
  | [] => some []
  | (name, value) :: rest => do return (name, ← toJson? value) :: (← toMembers? rest)

end

mutual

/-- What arrives becomes a tree in normal form, if it has a value. -/
theorem toJson?_normal : ∀ {w : Wire} {j : Json}, w.toJson? = some j → j.Normal
  | null, _, h => by cases h; exact .null
  | bool b, _, h => by cases h; exact .bool b
  | number n, _, h => by cases h; exact .number n
  | string s, _, h => by cases h; exact .string s
  | array items, j, h => by
    obtain ⟨js, hjs, rfl⟩ := Option.map_eq_some_iff.1 (by simpa only [toJson?] using h)
    exact .array (toItems?_normal hjs)
  | object members, j, h => by
    obtain ⟨ms, hms, rfl⟩ := Option.map_eq_some_iff.1 (by simpa only [toJson?] using h)
    exact .object (FieldMap.ofList ms).ordered fun m hm =>
      toMembers?_normal hms m (FieldMap.mem_ofList hm)

/-- The items of an array become trees in normal form. -/
theorem toItems?_normal : ∀ {items : List Wire} {js : List Json},
    toItems? items = some js → ∀ j ∈ js, j.Normal
  | [], _, h => by cases h; simp
  | item :: rest, js, h => by
    simp only [toItems?, Option.pure_def, Option.bind_eq_bind, Option.bind_eq_some_iff] at h
    obtain ⟨j, hj, js', hjs', h⟩ := h
    cases h
    intro x hx
    rcases List.mem_cons.1 hx with rfl | hx
    · exact toJson?_normal hj
    · exact toItems?_normal hjs' x hx

/-- The members of an object become trees in normal form. -/
theorem toMembers?_normal : ∀ {members : List (String × Wire)} {ms : List (String × Json)},
    toMembers? members = some ms → ∀ m ∈ ms, m.2.Normal
  | [], _, h => by cases h; simp
  | (name, value) :: rest, ms, h => by
    simp only [toMembers?, Option.pure_def, Option.bind_eq_bind, Option.bind_eq_some_iff] at h
    obtain ⟨j, hj, ms', hms', h⟩ := h
    cases h
    intro x hx
    rcases List.mem_cons.1 hx with rfl | hx
    · exact toJson?_normal hj
    · exact toMembers?_normal hms' x hx

end

/-- The value of a part, if it has one. -/
def toValue? (w : Wire) : Option Value :=
  match h : w.toJson? with
  | some j => some ⟨j, toJson?_normal h⟩
  | none => none

end Wire

end AbilityGraph
