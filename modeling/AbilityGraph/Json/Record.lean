import AbilityGraph.Json.Wire

/-!
# Reading records

How the model types are read from JSON as it arrives. A record is an object whose members are found
by name: unknown members are ignored, and a known one must not be repeated. It may also be an array
that lists the members in the order of the record. `Wire.members?` gives what was found for each
member, and `required`, `optional` and `withDefault` say what a missing one means.

An alternative of a tagged type says in a member of its own, the tag, which alternative it is;
`Wire.tagged?` splits the tag off. A bare name, as of a kind or a code, is read by `Wire.name?`.
-/

set_option autoImplicit false

namespace AbilityGraph

namespace Wire

/-- The names under which a member is known. -/
abbrev Names := List String

/-- What an object has for one member: nothing, or one value. Two values are an error. -/
def member? (members : List (String × Wire)) (names : Names) : Option (Option Wire) :=
  match members.filter fun m => names.contains m.1 with
  | [] => some none
  | [(_, value)] => some (some value)
  | _ :: _ :: _ => none

/-- What a record has for each of its members, in their order. -/
def members? (names : List Names) : Wire → Option (List (Option Wire))
  | object members => names.mapM (member? members)
  | array items =>
    if items.length ≤ names.length then
      some (items.map some ++ List.replicate (names.length - items.length) none)
    else none
  | _ => none

/-! ## Missing members -/

/-- A member that must be there. -/
def required {α : Type} (read : Wire → Option α) : Option Wire → Option α
  | some w => read w
  | none => none

/-- A member that may be missing; null says the same. -/
def optional {α : Type} (read : Wire → Option α) : Option Wire → Option (Option α)
  | none => some none
  | some null => some none
  | some w => (read w).map some

/-- A member that has a default value if it is missing; null is no value. -/
def withDefault {α : Type} (default : α) (read : Wire → Option α) : Option Wire → Option α
  | none => some default
  | some w => read w

/-! ## Plain values -/

def string? : Wire → Option String
  | string s => some s
  | _ => none

def bool? : Wire → Option Bool
  | bool b => some b
  | _ => none

def double? : Wire → Option Double
  | number n => some n.toDouble
  | _ => none

/-- A whole number of 64 bits without sign. -/
def count? : Wire → Option Nat
  | number (.integer n) => if 0 ≤ n ∧ n ≤ 18446744073709551615 then some n.toNat else none
  | _ => none

def list? {α : Type} (read : Wire → Option α) : Wire → Option (List α)
  | array items => items.mapM read
  | _ => none

/-- A map from names to values; of entries with one name the last counts, but all are read. -/
def fieldMap? {α : Type} (read : Wire → Option α) : Wire → Option (FieldMap α)
  | object members => do
    let entries ← members.mapM fun m => (read m.2).map (m.1, ·)
    some (.ofList entries)
  | _ => none

/-- A name standing for itself, or an object whose only member has that name and is null. -/
def name? : Wire → Option String
  | string s => some s
  | object [(name, null)] => some name
  | _ => none

/-- One of a number of alternatives that are written as their names. -/
def choice? {α : Type} (text : α → String) (all : List α) (w : Wire) : Option α := do
  let name ← name? w
  all.find? (text · == name)

/-! ## Tagged alternatives -/

/-- Whether every part has a value. -/
def isReadable (w : Wire) : Bool := w.toJson?.isSome

/-- The tag of a tagged object and the other members, or the first item of an array and the other
items. A tagged value is looked at as a whole, so all of it must have a value. -/
def tagged? (tag : String) (w : Wire) : Option (Wire × Wire) :=
  if w.isReadable then
    match w with
    | object members =>
      match members.filter (·.1 == tag) with
      | [(_, value)] => some (value, object (members.filter (·.1 != tag)))
      | _ => none
    | array (value :: items) => some (value, array items)
    | _ => none
  else none

/-- An alternative without members: an object, whose members do not matter, or an empty array. -/
def nothing? : Wire → Option Unit
  | object _ => some ()
  | array [] => some ()
  | _ => none

end Wire

end AbilityGraph
