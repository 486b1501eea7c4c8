import AbilityGraph.Json.Record
import AbilityGraph.Json.Writer
import AbilityGraph.Pin

/-!
# Pins as JSON

How pins and their parts are read and written.
-/

set_option autoImplicit false

namespace AbilityGraph

def PinKind.ofWire? : Wire → Option PinKind := Wire.choice? PinKind.text PinKind.all

def PinKind.toJson (kind : PinKind) : Json := .string kind.text

def PinDirection.ofWire? : Wire → Option PinDirection :=
  Wire.choice? PinDirection.text PinDirection.all

def PinDirection.toJson (direction : PinDirection) : Json := .string direction.text

def DataType.ofWire? : Wire → Option DataType
  | .string tag => some (.single tag)
  | w => (w.list? Wire.string?).map .oneOf

def DataType.toJson : DataType → Json
  | .single tag => .string tag
  | .oneOf tags => Json.list .string tags

namespace Pin

def memberNames : List Wire.Names :=
  [["id"], ["label"], ["group"], ["kind"], ["direction"], ["dataType"], ["required"],
    ["defaultValue"], ["multi"], ["maxConnections"]]

def ofWire? (w : Wire) : Option Pin := do
  let [id, label, group, kind, direction, dataType, required, defaultValue, multi,
    maxConnections] ← w.members? memberNames | none
  return {
    id := ← Wire.required Wire.string? id
    label := ← Wire.required Wire.string? label
    group := ← Wire.optional Wire.string? group
    kind := ← Wire.required PinKind.ofWire? kind
    direction := ← Wire.required PinDirection.ofWire? direction
    dataType := ← Wire.optional DataType.ofWire? dataType
    required := ← Wire.withDefault false Wire.bool? required
    defaultValue := ← Wire.optional Wire.toValue? defaultValue
    multi := ← Wire.withDefault false Wire.bool? multi
    maxConnections := ← Wire.optional Wire.count? maxConnections
  }

def toJson (pin : Pin) : Json :=
  .record [
    Json.member "id" (.string pin.id),
    Json.member "label" (.string pin.label),
    Json.member? "group" .string pin.group,
    Json.member "kind" pin.kind.toJson,
    Json.member "direction" pin.direction.toJson,
    Json.member? "dataType" DataType.toJson pin.dataType,
    Json.member "required" (.bool pin.required),
    Json.member? "defaultValue" Value.tree pin.defaultValue,
    Json.member "multi" (.bool pin.multi),
    Json.member? "maxConnections" Json.count pin.maxConnections]

end Pin

end AbilityGraph
