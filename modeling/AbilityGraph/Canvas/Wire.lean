import AbilityGraph.Canvas
import AbilityGraph.Graph.Wire

/-!
# Canvas documents as JSON

How canvas documents are read. Some members are known under two names, and only one of the two may
be used.
-/

set_option autoImplicit false

namespace AbilityGraph

namespace Canvas

def Position.ofWire? (w : Wire) : Option Position := do
  let [x, y] ← w.members? [["x"], ["y"]] | none
  return { x := ← Wire.required Wire.double? x, y := ← Wire.required Wire.double? y }

/-- The position of a node that does not give one. -/
def Position.origin : Position := ⟨.zero false, .zero false⟩

/-- Reads the type and the config of a node. -/
def nodeDataOfWire? (w : Wire) : Option (String × Config) := do
  let [nodeType, config] ← w.members? [["node_type", "nodeType"], ["config"]] | none
  return (← Wire.required Wire.string? nodeType,
    ← Wire.withDefault .empty Config.ofWire? config)

def Node.ofWire? (w : Wire) : Option Node := do
  let [id, position, data] ← w.members? [["id"], ["position"], ["data"]] | none
  let id ← Wire.required Wire.string? id
  let position ← Wire.withDefault .origin Position.ofWire? position
  let (nodeType, config) ← Wire.required nodeDataOfWire? data
  return { id := id, position := position, nodeType := nodeType, config := config }

def Edge.memberNames : List Wire.Names :=
  [["id"], ["source"], ["source_handle", "sourceHandle"], ["target"],
    ["target_handle", "targetHandle"], ["edge_kind", "edgeKind"], ["data_type", "dataType"]]

def Edge.ofWire? (w : Wire) : Option Edge := do
  let [id, source, sourceHandle, target, targetHandle, kind, dataType] ←
    w.members? Edge.memberNames | none
  return {
    id := ← Wire.required Wire.string? id
    source := ← Wire.required Wire.string? source
    sourceHandle := ← Wire.required Wire.string? sourceHandle
    target := ← Wire.required Wire.string? target
    targetHandle := ← Wire.required Wire.string? targetHandle
    kind := ← Wire.optional PinKind.ofWire? kind
    dataType := ← Wire.optional DataType.ofWire? dataType
  }

def ofWire? (w : Wire) : Option Canvas := do
  let [id, nodes, edges] ← w.members? [["id"], ["nodes"], ["edges"]] | none
  return {
    id := ← Wire.required Wire.string? id
    nodes := ← Wire.withDefault [] (Wire.list? Node.ofWire?) nodes
    edges := ← Wire.withDefault [] (Wire.list? Edge.ofWire?) edges
  }

end Canvas

end AbilityGraph
