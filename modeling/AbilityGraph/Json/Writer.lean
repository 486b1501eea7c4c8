import AbilityGraph.FieldMap
import AbilityGraph.Json

/-!
# Writing records

How the model types are written as JSON: a record is an object with its members in the order of the
record, and members that are absent are left out.
-/

set_option autoImplicit false

namespace AbilityGraph

namespace Json

/-- A member that is always written. -/
def member (name : String) (value : Json) : List (String × Json) := [(name, value)]

/-- A member that is left out when it is absent. -/
def member? {α : Type} (name : String) (write : α → Json) : Option α → List (String × Json)
  | some value => [(name, write value)]
  | none => []

/-- An object whose members are given in groups. -/
def record (groups : List (List (String × Json))) : Json := .object groups.flatten

def list {α : Type} (write : α → Json) (items : List α) : Json := .array (items.map write)

/-- A value that may be absent; an absent one is written as null. -/
def orNull {α : Type} (write : α → Json) : Option α → Json
  | some value => write value
  | none => .null

def count (n : Nat) : Json := .integer n

/-- A map from names to values. -/
def fieldMap {α : Type} (write : α → Json) (m : FieldMap α) : Json :=
  .object (m.entries.map fun e => (e.1, write e.2))

end Json

end AbilityGraph
