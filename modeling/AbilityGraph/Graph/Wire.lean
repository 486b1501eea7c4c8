import AbilityGraph.Graph
import AbilityGraph.Pin.Wire

/-!
# Graphs as JSON

How graphs and their parts are read and written.
-/

set_option autoImplicit false

namespace AbilityGraph

def Config.ofWire? : Wire → Option Config := Wire.fieldMap? Wire.toValue?

def Config.toJson (config : Config) : Json := Json.fieldMap Value.tree config

def Timestamp.ofWire? (w : Wire) : Option Timestamp := w.string? >>= Timestamp.ofText?

def Timestamp.toJson (t : Timestamp) : Json := .string t.text

namespace Node

def ofWire? (w : Wire) : Option Node := do
  let [id, nodeType, config] ← w.members? [["id"], ["nodeType"], ["config"]] | none
  return {
    id := ← Wire.required Wire.string? id
    nodeType := ← Wire.required Wire.string? nodeType
    config := ← Wire.withDefault .empty Config.ofWire? config
  }

def toJson (node : Node) : Json :=
  .record [
    Json.member "id" (.string node.id),
    Json.member "nodeType" (.string node.nodeType),
    Json.member "config" (Config.toJson node.config)]

end Node

namespace PinRef

def ofWire? (w : Wire) : Option PinRef := do
  let [nodeId, pinId] ← w.members? [["nodeId"], ["pinId"]] | none
  return {
    nodeId := ← Wire.required Wire.string? nodeId
    pinId := ← Wire.required Wire.string? pinId
  }

def toJson (pin : PinRef) : Json :=
  .record [Json.member "nodeId" (.string pin.nodeId), Json.member "pinId" (.string pin.pinId)]

end PinRef

namespace Edge

def ofWire? (w : Wire) : Option Edge := do
  let [id, kind, dataType, source, target, createdAt] ←
    w.members? [["id"], ["edgeKind"], ["dataType"], ["from"], ["to"], ["createdAt"]] | none
  return {
    id := ← Wire.required Wire.string? id
    kind := ← Wire.required PinKind.ofWire? kind
    dataType := ← Wire.optional DataType.ofWire? dataType
    source := ← Wire.required PinRef.ofWire? source
    target := ← Wire.required PinRef.ofWire? target
    createdAt := ← Wire.optional Timestamp.ofWire? createdAt
  }

def toJson (edge : Edge) : Json :=
  .record [
    Json.member "id" (.string edge.id),
    Json.member "edgeKind" edge.kind.toJson,
    Json.member? "dataType" DataType.toJson edge.dataType,
    Json.member "from" edge.source.toJson,
    Json.member "to" edge.target.toJson,
    Json.member? "createdAt" Timestamp.toJson edge.createdAt]

end Edge

namespace Graph

def ofWire? (w : Wire) : Option Graph := do
  let [id, nodes, edges] ← w.members? [["id"], ["nodes"], ["edges"]] | none
  return {
    id := ← Wire.required Wire.string? id
    nodes := ← Wire.withDefault [] (Wire.list? Node.ofWire?) nodes
    edges := ← Wire.withDefault [] (Wire.list? Edge.ofWire?) edges
  }

def toJson (graph : Graph) : Json :=
  .record [
    Json.member "id" (.string graph.id),
    Json.member "nodes" (Json.list Node.toJson graph.nodes),
    Json.member "edges" (Json.list Edge.toJson graph.edges)]

end Graph

end AbilityGraph
