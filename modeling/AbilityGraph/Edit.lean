import AbilityGraph.Connect
import AbilityGraph.Reconcile

/-!
# Editing a graph

The changes that an editor makes to a graph, one at a time. Joining pins and changing a config are
checked against a catalog and may fail; the other changes are made as they are asked for.
-/

set_option autoImplicit false

namespace AbilityGraph

/-- A change of a graph. -/
inductive Edit where
  /-- Joins two pins by a new edge. -/
  | connect (stamp : EdgeStamp) (source target : PinRef)
  /-- Gives a node a new config. -/
  | setConfig (nodeId : String) (config : Config)
  | addNode (node : Node)
  | addEdge (edge : Edge)
  /-- Removes the nodes with an id; their edges stay. -/
  | removeNode (nodeId : String)
  | removeEdge (edgeId : String)

namespace Edit

/-- Makes a change. -/
def apply (catalog : Catalog) (graph : Graph) : Edit → Except ConnectError Graph
  | connect stamp source target => AbilityGraph.connect catalog graph stamp source target
  | setConfig nodeId config => (graph.applyConfig catalog nodeId config).mapError .duplicatePin
  | addNode node => .ok (graph.addNode node)
  | addEdge edge => .ok (graph.addEdge edge)
  | removeNode nodeId => .ok (graph.removeNode nodeId)
  | removeEdge edgeId => .ok (graph.removeEdge edgeId)

/-- Makes changes one after the other; a change that fails leaves the graph as it is. -/
def run (catalog : Catalog) (graph : Graph) (edits : List Edit) : Graph :=
  edits.foldl (fun graph edit =>
    match edit.apply catalog graph with
    | .ok next => next
    | .error _ => graph) graph

end Edit

end AbilityGraph
