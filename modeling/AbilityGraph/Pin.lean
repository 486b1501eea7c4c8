import AbilityGraph.Json

/-!
# Pins

A pin is a connection point of a node. It carries execution flow or a value, it is an input or an
output, and a pin that carries a value may say which type of value. `DataType.flowsInto` says which
types of values may flow where, and `Pin.capacity` how many connections an input takes.
-/

set_option autoImplicit false

namespace AbilityGraph

/-- Whether a pin or an edge carries execution flow or a value. -/
inductive PinKind where
  | control
  | data
  deriving DecidableEq, Inhabited

namespace PinKind

def all : List PinKind := [control, data]

def text : PinKind → String
  | control => "CONTROL"
  | data => "DATA"

end PinKind

/-- Whether a pin takes connections in or sends them out. -/
inductive PinDirection where
  | input
  | output
  deriving DecidableEq, Inhabited

namespace PinDirection

def all : List PinDirection := [input, output]

def text : PinDirection → String
  | input => "IN"
  | output => "OUT"

end PinDirection

/-- The type of the value at a data pin: one tag, or a list of accepted tags. -/
inductive DataType where
  | single (tag : String)
  | oneOf (tags : List String)
  deriving DecidableEq, Inhabited

namespace DataType

/-- The tag of values of any type. -/
def any : String := "any"

/-- The tag of values that are JSON; like `any` it agrees with every type. -/
def json : String := "json"

/-- Whether a type agrees with every type. -/
def isWildcard : DataType → Bool
  | single tag => tag == any || tag == json
  | oneOf _ => false

/-- Whether a value of one type may flow into a pin of another. -/
def flowsInto (source target : DataType) : Bool :=
  source.isWildcard || target.isWildcard ||
    match source, target with
    | single tag, oneOf accepted => accepted.contains tag
    | source, target => source == target

def text : DataType → String
  | single tag => tag
  | oneOf tags => "|".intercalate tags

/-- Whether a value may flow between pins whose types may be unknown; an unknown type agrees with
every type. -/
def compatible (source target : Option DataType) : Bool :=
  match source, target with
  | some source, some target => source.flowsInto target
  | _, _ => true

end DataType

/-- A connection point of a node. -/
structure Pin where
  id : String
  label : String
  group : Option String
  kind : PinKind
  direction : PinDirection
  dataType : Option DataType
  required : Bool
  defaultValue : Option Value
  multi : Bool
  maxConnections : Option Nat
  deriving Inhabited

namespace Pin

/-- A pin of a kind and direction, with nothing else said about it. -/
def plain (id label : String) (kind : PinKind) (direction : PinDirection) : Pin where
  id := id
  label := label
  group := none
  kind := kind
  direction := direction
  dataType := none
  required := false
  defaultValue := none
  multi := false
  maxConnections := none

/-- An input for execution flow. -/
def controlIn (id label : String) : Pin := plain id label .control .input

/-- An output for execution flow. -/
def controlOut (id label : String) : Pin := plain id label .control .output

/-- An input for a value of a type. -/
def dataIn (id label : String) (dataType : DataType) : Pin :=
  { plain id label .data .input with dataType := some dataType }

/-- An output for a value of a type. -/
def dataOut (id label : String) (dataType : DataType) : Pin :=
  { plain id label .data .output with dataType := some dataType }

/-- How many connections may arrive at the pin; nothing if there is no limit. A pin that neither
gives a limit nor takes many takes one. -/
def capacity (pin : Pin) : Option Nat :=
  match pin.maxConnections with
  | some limit => some limit
  | none => if pin.multi then none else some 1

/-- Whether the pin has a kind and a direction. -/
def isOf (pin : Pin) (kind : PinKind) (direction : PinDirection) : Bool :=
  pin.kind == kind && pin.direction == direction

/-- The text of a pin's type in messages; an unknown type counts as `any`. -/
def typeText (pin : Pin) : String :=
  match pin.dataType with
  | some dataType => dataType.text
  | none => DataType.any

/-- The first pin of a list with an id. -/
def find? (pins : List Pin) (id : String) : Option Pin := pins.find? (·.id == id)

end Pin

end AbilityGraph
