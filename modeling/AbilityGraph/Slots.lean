import AbilityGraph.Definition
import AbilityGraph.Number.Numeral
import AbilityGraph.Repeats
import AbilityGraph.Text.Blank

/-!
# The pins of a node

The pins of a node are never stored. They follow from its definition and its config: first the pins
of the definition, then, for each slot in order, the pins of the template with the number of the
slot put into their ids, labels and groups.

How many slots there are is read from the config (`Definition.slotCount`). Two pins of one node must
not have the same id; a definition for which they do is at fault (`DuplicatePin`).
-/

set_option autoImplicit false

namespace AbilityGraph

/-! ## Templates -/

/-- Puts the number of a slot in place of each placeholder, which is `i` in braces. -/
def substituteChars (index : List Char) : List Char → List Char
  | '\x7b' :: 'i' :: '\x7d' :: rest => index ++ substituteChars index rest
  | c :: rest => c :: substituteChars index rest
  | [] => []

/-- A template text with the number of a slot put in. -/
def substitute (template : String) (index : Nat) : String :=
  String.ofList (substituteChars (Nat.toDigits 10 index) template.toList)

/-- A template pin with the number of a slot put in. -/
def Pin.atSlot (template : Pin) (index : Nat) : Pin :=
  { template with
    id := substitute template.id index
    label := substitute template.label index
    group := template.group.map (substitute · index) }

/-! ## Counting slots -/

/-- No node has more slots than this, whatever its config and schema say. -/
def maxSlots : Nat := 64

/-- The number of slots that a config value asks for: the whole part of a positive number, or of a
text that is one; anything else asks for none. -/
def requestedSlots (value : Value) : Nat :=
  match value.tree with
  | .number (.integer n) => n.toNat
  | .number (.double x) => if x.negative then 0 else x.wholePart
  | .string text =>
    match Numeral.ofText? (trimBlanks text.toList) >>= Numeral.nearest? with
    | some x => if x.negative then 0 else x.wholePart
    | none => 0
  | _ => 0

namespace ConfigField

/-- A number of slots brought between the bounds of the field; where the bounds contradict each
other the upper one counts. -/
def clampSlots (field : ConfigField) (count : Int) : Int :=
  let raised := match field.minimum with
    | some minimum => max count minimum.ceil
    | none => count
  match field.maximum with
  | some maximum => min raised maximum.floor
  | none => raised

end ConfigField

namespace Definition

/-- How many slots a node with a config has. -/
def slotCount (definition : Definition) (config : Config) : Nat :=
  match definition.slots with
  | none => 0
  | some template =>
    let requested : Int := match definition.fieldValue? config template.countField with
      | some value => requestedSlots value
      | none => 0
    let count := match definition.schema.get? template.countField with
      | some field => field.clampSlots requested
      | none => requested
    min count.toNat maxSlots

/-! ## Materializing pins -/

/-- The pins of a node with the given number of slots. -/
def pinsWithSlots (definition : Definition) (count : Nat) : List Pin :=
  definition.pins ++
    match definition.slots with
    | some template => (List.range count).flatMap fun index => template.pins.map (·.atSlot index)
    | none => []

end Definition

/-- A definition for which a node has two pins with one id. -/
structure DuplicatePin where
  nodeType : String
  pinId : String
  deriving DecidableEq, Inhabited

namespace Definition

/-- The pins of a node with the given number of slots, unless two of them have one id. -/
def instantiate (definition : Definition) (count : Nat) : Except DuplicatePin (List Pin) :=
  let pins := definition.pinsWithSlots count
  match repeats (pins.map (·.id)) with
  | [] => .ok pins
  | pinId :: _ => .error ⟨definition.nodeType, pinId⟩

/-- The pins of a node with a config. -/
def materialize (definition : Definition) (config : Config) : Except DuplicatePin (List Pin) :=
  definition.instantiate (definition.slotCount config)

end Definition

end AbilityGraph
