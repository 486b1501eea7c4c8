import AbilityGraph.Definition
import AbilityGraph.Timestamp

/-!
# Graphs

The graph of one ability: nodes, each of a type and with a config, and edges that join an output pin
to an input pin. A graph may be at fault in any way; nothing here is checked. Where an id is used by
more than one node, the first node is the one that is meant.
-/

set_option autoImplicit false

namespace AbilityGraph

/-- A node of a graph. -/
structure Node where
  id : String
  nodeType : String
  config : Config
  deriving Inhabited

/-- One end of an edge: a pin of a node. -/
structure PinRef where
  nodeId : String
  pinId : String
  deriving DecidableEq, Inhabited

namespace PinRef

/-- The reference that a text of a node id, a point and a pin id is; the first point counts. -/
def ofText? (text : String) : Option PinRef :=
  match text.toList.span (· != '.') with
  | (nodeId, _ :: pinId) => some ⟨String.ofList nodeId, String.ofList pinId⟩
  | (_, []) => none

end PinRef

/-- An edge of a graph. -/
structure Edge where
  id : String
  kind : PinKind
  dataType : Option DataType
  source : PinRef
  target : PinRef
  createdAt : Option Timestamp
  deriving DecidableEq, Inhabited

namespace Edge

/-- An edge between two pins, with nothing else said about it. -/
def plain (id : String) (kind : PinKind) (source target : PinRef) : Edge :=
  ⟨id, kind, none, source, target, none⟩

/-- Whether two edges join the same two pins. -/
def sameEnds (a b : Edge) : Bool := a.source == b.source && a.target == b.target

end Edge

/-- The node graph of one ability. -/
structure Graph where
  id : String
  nodes : List Node
  edges : List Edge
  deriving Inhabited

namespace Graph

/-- The first node with an id. -/
def node? (graph : Graph) (id : String) : Option Node := graph.nodes.find? (·.id == id)

/-- The edges that leave a pin, in the order of the graph. -/
def edgesFrom (graph : Graph) (pin : PinRef) : List Edge := graph.edges.filter (·.source == pin)

/-- The edges that arrive at a pin, in the order of the graph. -/
def edgesInto (graph : Graph) (pin : PinRef) : List Edge := graph.edges.filter (·.target == pin)

end Graph

end AbilityGraph
