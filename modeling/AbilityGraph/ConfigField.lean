import AbilityGraph.Json.Printer

/-!
# Config fields

A definition declares for each config field which type its values have, which values are allowed,
between which bounds a number must lie, and which value stands in for a missing one.
`ConfigField.check` says what is wrong with a value, if anything. Bounds are compared with numbers
as doubles, and so are integers.
-/

set_option autoImplicit false

namespace AbilityGraph

/-- The type of the values of a config field. -/
inductive FieldType where
  | number
  | integer
  | string
  | boolean
  | json
  deriving DecidableEq, Inhabited

namespace FieldType

def all : List FieldType := [number, integer, string, boolean, json]

def text : FieldType → String
  | number => "number"
  | integer => "integer"
  | string => "string"
  | boolean => "boolean"
  | json => "json"

/-- Whether a value is of a type. A whole number that is written as a double is no integer. -/
def admits (type : FieldType) (value : Value) : Bool :=
  match type, value.tree with
  | number, .number _ => true
  | integer, .number (.integer _) => true
  | string, .string _ => true
  | boolean, .bool _ => true
  | json, _ => true
  | _, _ => false

end FieldType

/-- What a definition declares about one config field. -/
structure ConfigField where
  type : FieldType
  default : Option Value
  allowed : Option (List Value)
  minimum : Option Double
  maximum : Option Double
  deriving Inhabited

/-- What may be wrong with the value of a config field. -/
inductive ValueFault where
  | wrongType (expected : FieldType) (found : Value)
  | notAllowed (allowed : List Value) (found : Value)
  | belowMinimum (minimum found : Double)
  | aboveMaximum (maximum found : Double)

namespace ValueFault

def message : ValueFault → String
  | wrongType expected found => s!"must be of type {expected.text}, found {found.text}"
  | notAllowed allowed found =>
    s!"must be one of [" ++ ", ".intercalate (allowed.map Value.text) ++ s!"], found {found.text}"
  | belowMinimum minimum found =>
    s!"must be at least {DecimalLayout.plain.write minimum}, found "
      ++ DecimalLayout.plain.write found
  | aboveMaximum maximum found =>
    s!"must be at most {DecimalLayout.plain.write maximum}, found "
      ++ DecimalLayout.plain.write found

end ValueFault

namespace ConfigField

/-- A field of a type, with nothing else said about it. -/
def ofType (type : FieldType) : ConfigField := ⟨type, none, none, none, none⟩

/-- What is wrong with a number that must lie between the bounds of a field. -/
def checkBounds (field : ConfigField) (number : Double) : Option ValueFault :=
  match field.minimum.filter (number < ·), field.maximum.filter (· < number) with
  | some minimum, _ => some (.belowMinimum minimum number)
  | none, some maximum => some (.aboveMaximum maximum number)
  | none, none => none

/-- The first thing that is wrong with a value: its type, then the list of allowed values, then the
bounds. -/
def check (field : ConfigField) (value : Value) : Option ValueFault :=
  if !field.type.admits value then some (.wrongType field.type value) else
    match field.allowed.filter (!·.contains value) with
    | some allowed => some (.notAllowed allowed value)
    | none => value.number?.bind fun number => field.checkBounds number.toDouble

end ConfigField

end AbilityGraph
