import AbilityGraph.Catalog
import AbilityGraph.Definition.Wire
import AbilityGraph.Json.Reader

/-!
# Catalogs as JSON

A catalog is written as an object with its definitions under `nodes` and, unless it is the usual
one, its start type under `startNodeType`. A catalog that is read is also checked.
-/

set_option autoImplicit false

namespace AbilityGraph

/-- Why a catalog could not be read. -/
inductive CatalogReadError where
  /-- The text is not JSON, or the JSON is not a catalog. -/
  | malformed
  | invalid (error : CatalogError)

namespace CatalogReadError

def message : CatalogReadError → String
  | malformed => "Failed to parse registry JSON"
  | invalid error => error.message

end CatalogReadError

namespace Catalog

/-- The start type of a catalog that does not name one. -/
def usualStartType : String := "start"

/-- The start type and the definitions that a catalog file holds. -/
def contentOfWire? (w : Wire) : Option (String × List Definition) := do
  let [startType, nodes] ← w.members? [["startNodeType"], ["nodes"]] | none
  return (← Wire.withDefault usualStartType Wire.string? startType,
    ← Wire.required (Wire.list? Definition.ofWire?) nodes)

/-- Reads and checks a catalog. -/
def ofWire (w : Wire) : Except CatalogReadError Catalog :=
  match contentOfWire? w with
  | some (startType, definitions) => (load definitions startType).mapError .invalid
  | none => .error .malformed

/-- Reads and checks a catalog given as text. -/
def ofText (text : String) : Except CatalogReadError Catalog :=
  match Wire.ofText? text with
  | some w => ofWire w
  | none => .error .malformed

def toJson (catalog : Catalog) : Json :=
  .record [
    Json.member "startNodeType" (.string catalog.startType),
    Json.member "nodes" (Json.list Definition.toJson catalog.definitions)]

end Catalog

end AbilityGraph
