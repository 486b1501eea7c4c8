import AbilityGraph.Reconcile

/-!
# Canvas documents

The document of a canvas editor. It keeps the layout beside the graph, and it may be incomplete in
two ways that a graph may not: a node may have an empty id, and an edge need not say its kind.
-/

set_option autoImplicit false

namespace AbilityGraph

namespace Canvas

/-- Where a node is drawn. -/
structure Position where
  x : Double
  y : Double
  deriving Inhabited

/-- A node on a canvas. -/
structure Node where
  id : String
  position : Position
  nodeType : String
  config : Config
  deriving Inhabited

/-- An edge on a canvas, between the handles of two nodes. -/
structure Edge where
  id : String
  source : String
  sourceHandle : String
  target : String
  targetHandle : String
  kind : Option PinKind
  dataType : Option DataType
  deriving Inhabited

instance : JoinsPins Edge where
  sourcePin e := ⟨e.source, e.sourceHandle⟩
  targetPin e := ⟨e.target, e.targetHandle⟩

/-- Why a canvas document is not a graph. -/
inductive ConversionError where
  | emptyNodeId (nodeType : String)
  | unknownEdgeKind (edgeId : String)
  deriving DecidableEq

namespace ConversionError

def message : ConversionError → String
  | emptyNodeId nodeType =>
    s!"Invalid editor data: a node of type '{nodeType}' has an empty id"
  | unknownEdgeKind edgeId =>
    s!"Invalid editor data: edge '{edgeId}' does not say whether it is CONTROL or DATA"

end ConversionError

/-- The node of a graph that a node on a canvas is. -/
def Node.toNode (node : Node) : Except ConversionError AbilityGraph.Node :=
  if node.id.isEmpty then .error (.emptyNodeId node.nodeType)
  else .ok ⟨node.id, node.nodeType, node.config⟩

/-- The edge of a graph that an edge on a canvas is. -/
def Edge.toEdge (edge : Edge) : Except ConversionError AbilityGraph.Edge :=
  match edge.kind with
  | none => .error (.unknownEdgeKind edge.id)
  | some kind => .ok {
      id := edge.id
      kind := kind
      dataType := edge.dataType
      source := ⟨edge.source, edge.sourceHandle⟩
      target := ⟨edge.target, edge.targetHandle⟩
      createdAt := none }

end Canvas

/-- The document of a canvas editor for one ability. -/
structure Canvas where
  id : String
  nodes : List Canvas.Node
  edges : List Canvas.Edge
  deriving Inhabited

namespace Canvas

/-- The graph that a document shows. -/
def toGraph (canvas : Canvas) : Except ConversionError Graph := do
  return {
    id := canvas.id
    nodes := ← canvas.nodes.mapM Node.toNode
    edges := ← canvas.edges.mapM Edge.toEdge
  }

end Canvas

end AbilityGraph
