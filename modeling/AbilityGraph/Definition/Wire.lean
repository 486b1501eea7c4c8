import AbilityGraph.Definition
import AbilityGraph.Pin.Wire

/-!
# Definitions as JSON

How definitions of node types and their parts are read and written. A lowering is an object whose
member `kind` says which lowering it is.
-/

set_option autoImplicit false

namespace AbilityGraph

def FieldType.ofWire? : Wire → Option FieldType := Wire.choice? FieldType.text FieldType.all

def FieldType.toJson (type : FieldType) : Json := .string type.text

def Double.toJson (x : Double) : Json := .number (.double x)

namespace ConfigField

def memberNames : List Wire.Names := [["type"], ["default"], ["enum"], ["minimum"], ["maximum"]]

def ofWire? (w : Wire) : Option ConfigField := do
  let [type, default, allowed, minimum, maximum] ← w.members? memberNames | none
  return {
    type := ← Wire.required FieldType.ofWire? type
    default := ← Wire.optional Wire.toValue? default
    allowed := ← Wire.optional (Wire.list? Wire.toValue?) allowed
    minimum := ← Wire.optional Wire.double? minimum
    maximum := ← Wire.optional Wire.double? maximum
  }

def toJson (field : ConfigField) : Json :=
  .record [
    Json.member "type" field.type.toJson,
    Json.member? "default" Value.tree field.default,
    Json.member? "enum" (Json.list Value.tree) field.allowed,
    Json.member? "minimum" Double.toJson field.minimum,
    Json.member? "maximum" Double.toJson field.maximum]

end ConfigField

namespace SlotTemplate

def ofWire? (w : Wire) : Option SlotTemplate := do
  let [countField, pins] ← w.members? [["countField"], ["pins"]] | none
  return {
    countField := ← Wire.required Wire.string? countField
    pins := ← Wire.required (Wire.list? Pin.ofWire?) pins
  }

def toJson (template : SlotTemplate) : Json :=
  .record [
    Json.member "countField" (.string template.countField),
    Json.member "pins" (Json.list Pin.toJson template.pins)]

end SlotTemplate

namespace ElseIfPins

def ofWire? (w : Wire) : Option ElseIfPins := do
  let [condition, thenOut] ← w.members? [["condition"], ["then"]] | none
  return {
    condition := ← Wire.required Wire.string? condition
    thenOut := ← Wire.required Wire.string? thenOut
  }

def toJson (pins : ElseIfPins) : Json :=
  .record [
    Json.member "condition" (.string pins.condition),
    Json.member "then" (.string pins.thenOut)]

end ElseIfPins

namespace Lowering

/-- Reads the lowering that a tag announces from the other members. -/
def ofTagged? (tag : String) (content : Wire) : Option Lowering :=
  match tag with
  | "entry" => do
    let [next] ← content.members? [["next"]] | none
    return .entry (← Wire.required Wire.string? next)
  | "step" => do
    let [stepType, fields, next] ← content.members? [["stepType"], ["fields"], ["next"]] | none
    return .step (← Wire.required Wire.string? stepType)
      (← Wire.withDefault [] (Wire.list? Wire.string?) fields)
      (← Wire.optional Wire.string? next)
  | "branch" => do
    let [stepType, condition, thenOut, elseIf, elseOut, next] ←
      content.members? [["stepType"], ["condition"], ["then"], ["elseIf"], ["else"], ["next"]]
      | none
    return .branch (← Wire.required Wire.string? stepType)
      (← Wire.required Wire.string? condition)
      (← Wire.required Wire.string? thenOut)
      (← Wire.optional ElseIfPins.ofWire? elseIf)
      (← Wire.required Wire.string? elseOut)
      (← Wire.optional Wire.string? next)
  | "literal" => do
    let [field] ← content.members? [["field"]] | none
    return .literal (← Wire.required Wire.string? field)
  | "data" => content.nothing?.map fun _ => .data
  | _ => none

def ofWire? (w : Wire) : Option Lowering := do
  let (tag, content) ← w.tagged? "kind"
  ofTagged? (← tag.string?) content

def toJson : Lowering → Json
  | entry next =>
    .record [Json.member "kind" (.string "entry"), Json.member "next" (.string next)]
  | step stepType fields next =>
    .record [
      Json.member "kind" (.string "step"),
      Json.member "stepType" (.string stepType),
      Json.member "fields" (Json.list .string fields),
      Json.member? "next" .string next]
  | branch stepType condition thenOut elseIf elseOut next =>
    .record [
      Json.member "kind" (.string "branch"),
      Json.member "stepType" (.string stepType),
      Json.member "condition" (.string condition),
      Json.member "then" (.string thenOut),
      Json.member? "elseIf" ElseIfPins.toJson elseIf,
      Json.member "else" (.string elseOut),
      Json.member? "next" .string next]
  | literal field =>
    .record [Json.member "kind" (.string "literal"), Json.member "field" (.string field)]
  | data => .record [Json.member "kind" (.string "data")]

end Lowering

namespace Definition

def memberNames : List Wire.Names :=
  [["nodeType"], ["label"], ["category"], ["configSchema"], ["pins"], ["dynamicPins"], ["compile"]]

def ofWire? (w : Wire) : Option Definition := do
  let [nodeType, label, category, schema, pins, slots, lowering] ← w.members? memberNames | none
  return {
    nodeType := ← Wire.required Wire.string? nodeType
    label := ← Wire.required Wire.string? label
    category := ← Wire.required Wire.string? category
    schema := ← Wire.withDefault .empty (Wire.fieldMap? ConfigField.ofWire?) schema
    pins := ← Wire.withDefault [] (Wire.list? Pin.ofWire?) pins
    slots := ← Wire.optional SlotTemplate.ofWire? slots
    lowering := ← Wire.required Lowering.ofWire? lowering
  }

def toJson (definition : Definition) : Json :=
  .record [
    Json.member "nodeType" (.string definition.nodeType),
    Json.member "label" (.string definition.label),
    Json.member "category" (.string definition.category),
    Json.member "configSchema" (Json.fieldMap ConfigField.toJson definition.schema),
    Json.member "pins" (Json.list Pin.toJson definition.pins),
    Json.member? "dynamicPins" SlotTemplate.toJson definition.slots,
    Json.member "compile" definition.lowering.toJson]

end Definition

end AbilityGraph
