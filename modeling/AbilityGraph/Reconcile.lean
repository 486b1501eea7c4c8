import AbilityGraph.Graph
import AbilityGraph.Catalog

/-!
# Keeping edges and pins together

A change of a node's config may take pins away. The edges at those pins have to go, and all others
stay as they are. `reconcile` prunes the edges of a graph as well as those of a canvas: all that it
needs of an edge is which two pins it joins (`JoinsPins`).
-/

set_option autoImplicit false

namespace AbilityGraph

/-- A type of edges: each joins a source pin to a target pin. -/
class JoinsPins (ε : Type) where
  sourcePin : ε → PinRef
  targetPin : ε → PinRef

instance : JoinsPins Edge where
  sourcePin := Edge.source
  targetPin := Edge.target

/-- Whether a pin reference names a pin of a node that is among its old pins but not among its new
ones. -/
def isRemovedPin (nodeId : String) (oldPins newPins : List Pin) (pin : PinRef) : Bool :=
  pin.nodeId == nodeId && oldPins.any (·.id == pin.pinId) && !newPins.any (·.id == pin.pinId)

/-- The edges of which neither end is at a pin that a node has lost, in their order. -/
def reconcile {ε : Type} [JoinsPins ε] (nodeId : String) (oldPins newPins : List Pin)
    (edges : List ε) : List ε :=
  edges.filter fun e =>
    !isRemovedPin nodeId oldPins newPins (JoinsPins.sourcePin e) &&
      !isRemovedPin nodeId oldPins newPins (JoinsPins.targetPin e)

namespace Graph

/-- The nodes with a new config for the first of them that has an id. -/
def setConfig (nodeId : String) (config : Config) : List Node → List Node
  | [] => []
  | node :: rest =>
    if node.id = nodeId then { node with config := config } :: rest
    else node :: setConfig nodeId config rest

/-- Gives a node a new config and prunes the edges at the pins that it loses. Where there is no such
node, or its type is not in the catalog, nothing changes. -/
def applyConfig (graph : Graph) (catalog : Catalog) (nodeId : String) (config : Config) :
    Except DuplicatePin Graph :=
  match graph.node? nodeId with
  | none => .ok graph
  | some node =>
    match catalog.lookup? node.nodeType with
    | none => .ok graph
    | some definition => do
      let oldPins ← definition.materialize node.config
      let newPins ← definition.materialize config
      return { graph with
        nodes := setConfig nodeId config graph.nodes
        edges := reconcile nodeId oldPins newPins graph.edges }

end Graph

end AbilityGraph
