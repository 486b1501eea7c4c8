import AbilityGraph.Catalog
import AbilityGraph.ControlFlow
import AbilityGraph.Issue

/-!
# Validating a graph

Everything that is wrong with a graph, in a fixed order: ids used twice, then the nodes one by one,
the edges one by one, pins with too many connections, the start, nodes that never run, and edges on
loops. A graph at which nothing is found gets the single finding that it is valid.

A graph at fault never stops validation; only a definition at fault does.
-/

set_option autoImplicit false

namespace AbilityGraph

/-- The pins of the nodes of a graph by node id: for each id those of the first node of a known
type. -/
abbrev PinTable := List (String × List Pin)

namespace Graph

/-! ## Nodes -/

/-- What is wrong with one entry of a node's config. Null counts as unset. -/
def configFinding? (definition : Definition) (node : Node) (key : String) (value : Value) :
    Option Finding :=
  match definition.schema.get? key with
  | none => some (.unknownConfigField key node)
  | some field =>
    if value.isNull then none else (field.check value).map (.invalidConfig key node)

/-- What is wrong with a node's config, in the order of the field names. -/
def configFindings (definition : Definition) (node : Node) : List Finding :=
  node.config.entries.filterMap fun e => configFinding? definition node e.1 e.2

/-- Whether an edge of a pin's own kind is at the pin, on the pin's own side. -/
def isConnected (graph : Graph) (node : Node) (pin : Pin) : Bool :=
  let edges := match pin.direction with
    | .input => graph.edgesInto ⟨node.id, pin.id⟩
    | .output => graph.edgesFrom ⟨node.id, pin.id⟩
  edges.any (·.kind == pin.kind)

/-- The required pins of a node that have neither a default value nor an edge. -/
def requiredPinFindings (graph : Graph) (node : Node) (pins : List Pin) : List Finding :=
  (pins.filter fun pin =>
    pin.required && pin.defaultValue.isNone && !graph.isConnected node pin).map
      (.requiredPin node)

/-- What is wrong with a node by itself, and its pins if its type is known. -/
def checkNode (catalog : Catalog) (graph : Graph) (node : Node) :
    Except DuplicatePin (List Finding × Option (List Pin)) :=
  match catalog.lookup? node.nodeType with
  | none => .ok ([.unknownNode node], none)
  | some definition => do
    let pins ← definition.materialize node.config
    .ok (configFindings definition node ++ requiredPinFindings graph node pins, some pins)

/-- What is wrong with the nodes by themselves, and the pins of those whose type is known. -/
def checkNodes (catalog : Catalog) (graph : Graph) :
    Except DuplicatePin (List Finding × PinTable) := do
  let checked ← graph.nodes.mapM fun node => return (node.id, ← checkNode catalog graph node)
  return (checked.flatMap (·.2.1), checked.filterMap fun c => c.2.2.map (c.1, ·))

/-! ## Edges -/

/-- What is wrong with an edge between two pins. -/
def joinFindings (edge : Edge) (source target : Pin) : List Finding :=
  let direction : List Finding :=
    if source.direction ≠ .output ∨ target.direction ≠ .input then [.edgeDirection edge] else []
  let kind : List Finding :=
    if source.kind ≠ target.kind then [.pinKindMismatch edge source.kind target.kind]
    else if edge.kind ≠ source.kind then [.edgeKindIncorrect edge source.kind]
    else if source.kind = .data ∧ ¬DataType.compatible source.dataType target.dataType then
      [.dataTypeMismatch edge]
    else []
  direction ++ kind

/-- What is wrong with an edge. Of an edge at a node of an unknown type nothing is known. -/
def edgeFindings (graph : Graph) (table : PinTable) (edge : Edge) : List Finding :=
  if (graph.node? edge.source.nodeId).isNone || (graph.node? edge.target.nodeId).isNone then
    [.edgeNodeMissing edge]
  else
    match table.lookup edge.source.nodeId, table.lookup edge.target.nodeId with
    | some sourcePins, some targetPins =>
      match Pin.find? sourcePins edge.source.pinId, Pin.find? targetPins edge.target.pinId with
      | some source, some target => joinFindings edge source target
      | _, _ => [.edgePinMissing edge]
    | _, _ => []

/-! ## Capacity -/

/-- How many edges of a pin's own kind arrive at the pin. -/
def inboundCount (graph : Graph) (nodeId : String) (pin : Pin) : Nat :=
  ((graph.edgesInto ⟨nodeId, pin.id⟩).filter (·.kind == pin.kind)).length

/-- An input at which more edges arrive than it takes. -/
def capacityFinding? (graph : Graph) (node : Node) (pin : Pin) : Option Finding :=
  if pin.direction = .input then
    (pin.capacity.filter (· < graph.inboundCount node.id pin)).map fun limit =>
      .targetOverCapacity node pin (graph.inboundCount node.id pin) limit
  else none

/-- The first nodes with their ids, in order, given the ids of nodes seen before. -/
def firstNodes (seen : List String) : List Node → List Node
  | [] => []
  | node :: rest =>
    if seen.contains node.id then firstNodes seen rest
    else node :: firstNodes (node.id :: seen) rest

/-- The inputs of a graph at which more edges arrive than they take. -/
def capacityFindings (graph : Graph) (table : PinTable) : List Finding :=
  (firstNodes [] graph.nodes).flatMap fun node =>
    ((table.lookup node.id).getD []).filterMap (graph.capacityFinding? node)

/-! ## Start, reachability and loops -/

/-- The start nodes of a graph. -/
def startNodes (catalog : Catalog) (graph : Graph) : List Node :=
  graph.nodes.filter fun node => catalog.isStart node.nodeType

/-- The output at which the flow of a start node goes on. -/
def startOutput? (catalog : Catalog) (start : Node) : Option String :=
  (catalog.lookup? start.nodeType).bind (·.lowering.primaryOut?)

/-- A start node from whose output no control edge leaves. -/
def startFindings (catalog : Catalog) (graph : Graph) (start : Node) : List Finding :=
  let connected := (startOutput? catalog start).any fun pinId =>
    (graph.edgesFrom ⟨start.id, pinId⟩).any (·.kind == .control)
  if connected then [] else [.startUnconnected start ((startOutput? catalog start).getD "")]

/-- The nodes with control pins to which the flow cannot come from the start. -/
def unreachableFindings (catalog : Catalog) (graph : Graph) (table : PinTable) (start : Node) :
    List Finding :=
  let reachable := ControlFlow.reachableFrom graph.edges start.id
  (graph.nodes.filter fun node =>
    !catalog.isStart node.nodeType && !reachable.contains node.id &&
      ((table.lookup node.id).getD []).any (·.kind == .control)).map .unreachableNode

/-- What is wrong with the start of a graph and with what can be reached from it. -/
def flowFindings (catalog : Catalog) (graph : Graph) (table : PinTable) : List Finding :=
  match startNodes catalog graph with
  | [] => [.missingStart catalog.startType]
  | start :: others =>
    others.map .multipleStart ++ startFindings catalog graph start
      ++ unreachableFindings catalog graph table start

/-! ## The whole graph -/

/-- Everything that is wrong with a graph. -/
def findings (catalog : Catalog) (graph : Graph) : Except DuplicatePin (List Finding) := do
  let (nodeFindings, table) ← checkNodes catalog graph
  return (repeats (graph.nodes.map (·.id))).map .duplicateNodeId
    ++ (repeats (graph.edges.map (·.id))).map .duplicateEdgeId
    ++ nodeFindings
    ++ graph.edges.flatMap (graph.edgeFindings table)
    ++ graph.capacityFindings table
    ++ flowFindings catalog graph table
    ++ (ControlFlow.loopEdges graph.edges).map .controlCycle

/-- The issues of a graph, in order; a graph at which nothing is found has the single issue that it
is valid. -/
def validate (catalog : Catalog) (graph : Graph) : Except DuplicatePin (List Issue) := do
  let found ← findings catalog graph
  return (if found.isEmpty then [.ok] else found).map Finding.report

end Graph

end AbilityGraph
