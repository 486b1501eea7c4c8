import AbilityGraph.ConfigField
import AbilityGraph.FieldMap
import AbilityGraph.Pin

/-!
# Definitions of node types

A definition says what nodes of one type look like: the config fields they have, their pins, a
template of pins that is repeated once for each slot, and how they are lowered into compiled steps.
-/

set_option autoImplicit false

namespace AbilityGraph

/-- The config of a node: values by field name. -/
abbrev Config := FieldMap Value

/-- Pins that are repeated once for each slot; a config field holds the number of slots. -/
structure SlotTemplate where
  countField : String
  pins : List Pin
  deriving Inhabited

/-- The templates of the two pins that make a slot an else-if clause. -/
structure ElseIfPins where
  condition : String
  thenOut : String
  deriving DecidableEq, Inhabited

/-- How a node is lowered into compiled steps. -/
inductive Lowering where
  /-- The start: no step of its own. -/
  | entry (next : String)
  /-- One step, made from config fields. -/
  | step (stepType : String) (fields : List String) (next : Option String)
  /-- One branch step with nested sequences. -/
  | branch (stepType condition thenOut : String) (elseIf : Option ElseIfPins) (elseOut : String)
      (next : Option String)
  /-- A constant: the value of a config field. -/
  | literal (field : String)
  /-- A node that gives a value and is not lowered. -/
  | data
  deriving DecidableEq, Inhabited

namespace Lowering

/-- The output at which the flow goes on after the node's own step. -/
def primaryOut? : Lowering → Option String
  | entry next => some next
  | step _ _ next => next
  | branch _ _ _ _ _ next => next
  | literal _ => none
  | data => none

/-- Whether the lowering is that of a start node. -/
def isEntry : Lowering → Bool
  | entry _ => true
  | _ => false

end Lowering

/-- What nodes of one type look like and how they are lowered. -/
structure Definition where
  nodeType : String
  label : String
  category : String
  schema : FieldMap ConfigField
  pins : List Pin
  slots : Option SlotTemplate
  lowering : Lowering
  deriving Inhabited

namespace Definition

/-- The first of the pins outside the template that has an id. -/
def staticPin? (definition : Definition) (id : String) : Option Pin :=
  Pin.find? definition.pins id

/-- The value of a config field: what the config says, unless that is null, and else the default
of the schema. -/
def fieldValue? (definition : Definition) (config : Config) (field : String) : Option Value :=
  match (config.get? field).filter (!·.isNull) with
  | some value => some value
  | none => (definition.schema.get? field).bind (·.default)

end Definition

end AbilityGraph
