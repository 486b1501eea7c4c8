import AbilityGraph.Catalog

/-!
# The built-in catalog

The node types that are there when no other catalog is given: the start, a branch with up to eight
else-if clauses, actions, constants, and nodes that give values but are not lowered.
-/

set_option autoImplicit false

namespace AbilityGraph

namespace Builtin

/-- The input at which a node is run. -/
def execIn : String := "execIn"

/-- The output at which the flow goes on. -/
def execOut : String := "execOut"

/-- The output of a node that gives a value. -/
def valueOut : String := "valueOut"

/-- A config field with a default value. -/
def fieldWithDefault (type : FieldType) (default : Value) : ConfigField :=
  { ConfigField.ofType type with default := some default }

/-- A config field for whole numbers from zero to a limit, with a default value. -/
def boundedField (default limit : Nat) : ConfigField :=
  { fieldWithDefault .integer (.integer default) with
    minimum := some (.ofInt 0), maximum := some (.ofInt limit) }

/-- A config field for texts of which some are allowed; the first is the default. -/
def choiceField (default : String) (others : List String) : ConfigField :=
  { fieldWithDefault .string (.string default) with
    allowed := some ((default :: others).map .string) }

/-- The input at which a node in the flow is run; it takes many connections. -/
def runPin : Pin := { Pin.controlIn execIn "In" with multi := true }

def start : Definition where
  nodeType := "start"
  label := "Start"
  category := "flow"
  schema := .empty
  pins := [Pin.controlOut execOut "Start"]
  slots := none
  lowering := .entry execOut

/-- The template of the condition of an else-if clause. -/
def elseIfCondition : String := "elseIfCondIn_\x7bi\x7d"

/-- The template of the output of an else-if clause. -/
def elseIfOut : String := "elseIfExecOut_\x7bi\x7d"

/-- The template of the group of the pins of an else-if clause. -/
def elseIfGroup : String := "elseIf_\x7bi\x7d"

def branch : Definition where
  nodeType := "branch"
  label := "Branch"
  category := "flow"
  schema := .ofList [("elseIfCount", boundedField 0 8)]
  pins := [
    runPin,
    { Pin.dataIn "condIn" "Condition" (.single "boolean") with required := true },
    Pin.controlOut "thenOut" "Then",
    Pin.controlOut "elseOut" "Else",
    Pin.controlOut execOut "Done"]
  slots := some {
    countField := "elseIfCount"
    pins := [
      { Pin.dataIn elseIfCondition "Else If \x7bi\x7d" (.single "boolean") with
        group := some elseIfGroup },
      { Pin.controlOut elseIfOut "Else If \x7bi\x7d Then" with group := some elseIfGroup }] }
  lowering := .branch "IF" "condIn" "thenOut" (some ⟨elseIfCondition, elseIfOut⟩) "elseOut"
    (some execOut)

/-- A node in the flow that becomes one step made from all its config fields. -/
def action (nodeType label stepType : String) (fields : List (String × ConfigField)) :
    Definition where
  nodeType := nodeType
  label := label
  category := "action"
  schema := .ofList fields
  pins := [runPin, Pin.controlOut execOut "Out"]
  slots := none
  lowering := .step stepType (fields.map (·.1)) (some execOut)

/-- Whom an action is aimed at. -/
def targetField : ConfigField := choiceField "opponent" ["self", "all"]

def actions : List Definition := [
  action "showText" "Show Text" "SHOW_TEXT" [("text", fieldWithDefault .string (.string ""))],
  action "dealDamage" "Deal Damage" "DEAL_DAMAGE"
    [("amount", boundedField 1 999), ("target", targetField)],
  action "heal" "Heal" "HEAL" [("amount", boundedField 1 999), ("target", targetField)],
  action "drawCards" "Draw Cards" "DRAW_CARDS" [("count", boundedField 1 10)],
  action "setFlag" "Set Flag" "SET_FLAG"
    [("key", .ofType .string), ("value", fieldWithDefault .json (.bool true))]]

/-- A constant of a type. -/
def constant (nodeType label dataType : String) (field : ConfigField) : Definition where
  nodeType := nodeType
  label := label
  category := "literal"
  schema := .ofList [("value", field)]
  pins := [Pin.dataOut valueOut "Value" (.single dataType)]
  slots := none
  lowering := .literal "value"

def constants : List Definition := [
  constant "boolLiteral" "Boolean" "boolean" (fieldWithDefault .boolean (.bool false)),
  constant "numberLiteral" "Number" "number" (fieldWithDefault .number (.integer 0)),
  constant "stringLiteral" "Text" "string" (fieldWithDefault .string (.string ""))]

/-- A node that gives a value and is not lowered. -/
def valueNode (nodeType label field : String) (declared : ConfigField) (pins : List Pin) :
    Definition where
  nodeType := nodeType
  label := label
  category := "data"
  schema := .ofList [(field, declared)]
  pins := pins
  slots := none
  lowering := .data

/-- The type of a side of a comparison. -/
def comparable : DataType := .oneOf ["number", "string"]

def valueNodes : List Definition := [
  valueNode "readFlag" "Read Flag" "key" (.ofType .string)
    [Pin.dataOut valueOut "Value" (.single DataType.any)],
  valueNode "compare" "Compare" "op" (choiceField "==" ["!=", "<", "<=", ">", ">="])
    [Pin.dataIn "left" "Left" comparable, Pin.dataIn "right" "Right" comparable,
      Pin.dataOut "result" "Result" (.single "boolean")]]

end Builtin

def Catalog.builtin : Catalog where
  definitions := Builtin.start :: Builtin.branch ::
    (Builtin.actions ++ Builtin.constants ++ Builtin.valueNodes)
  startType := "start"

end AbilityGraph
