import AbilityGraph.Catalog
import AbilityGraph.ControlFlow

/-!
# Connections

Whether two pins may be joined. The checks are made in a fixed order, and the first that fails is
the refusal, so a refusal has exactly one reason. If all pass, the edge that joins the pins is made;
its id and time are given from outside (`EdgeStamp`).
-/

set_option autoImplicit false

namespace AbilityGraph

/-- The codes of refusals. -/
inductive RefusalCode where
  | sourcePinMissing
  | targetPinMissing
  | sourceNotOut
  | targetNotIn
  | selfEdge
  | kindMismatch
  | dataTypeMismatch
  | duplicate
  | targetAtMax
  | controlCycle
  deriving DecidableEq, Inhabited

namespace RefusalCode

def all : List RefusalCode :=
  [sourcePinMissing, targetPinMissing, sourceNotOut, targetNotIn, selfEdge, kindMismatch,
    dataTypeMismatch, duplicate, targetAtMax, controlCycle]

def text : RefusalCode → String
  | sourcePinMissing => "SOURCE_PIN_MISSING"
  | targetPinMissing => "TARGET_PIN_MISSING"
  | sourceNotOut => "SOURCE_NOT_OUT"
  | targetNotIn => "TARGET_NOT_IN"
  | selfEdge => "SELF_EDGE"
  | kindMismatch => "KIND_MISMATCH"
  | dataTypeMismatch => "DATA_TYPE_MISMATCH"
  | duplicate => "DUPLICATE"
  | targetAtMax => "TARGET_AT_MAX"
  | controlCycle => "CONTROL_CYCLE"

end RefusalCode

/-- Why two pins may not be joined. -/
inductive Refusal where
  | sourcePinMissing (pin : PinRef)
  | targetPinMissing (pin : PinRef)
  | sourceNotOut (pinId : String)
  | targetNotIn (pinId : String)
  | selfEdge (nodeId : String)
  | kindMismatch (source target : PinKind)
  | dataTypeMismatch (source target : String)
  | duplicate
  | targetAtMax (pinId : String) (limit : Nat)
  | controlCycle (sourceNode targetNode : String)
  deriving DecidableEq

namespace Refusal

def code : Refusal → RefusalCode
  | sourcePinMissing _ => .sourcePinMissing
  | targetPinMissing _ => .targetPinMissing
  | sourceNotOut _ => .sourceNotOut
  | targetNotIn _ => .targetNotIn
  | selfEdge _ => .selfEdge
  | kindMismatch _ _ => .kindMismatch
  | dataTypeMismatch _ _ => .dataTypeMismatch
  | duplicate => .duplicate
  | targetAtMax _ _ => .targetAtMax
  | controlCycle _ _ => .controlCycle

def reason : Refusal → String
  | sourcePinMissing pin => s!"pin '{pin.pinId}' not found on node '{pin.nodeId}'"
  | targetPinMissing pin => s!"pin '{pin.pinId}' not found on node '{pin.nodeId}'"
  | sourceNotOut pinId => s!"source pin '{pinId}' is not an output"
  | targetNotIn pinId => s!"target pin '{pinId}' is not an input"
  | selfEdge nodeId => s!"node '{nodeId}' cannot connect to itself"
  | kindMismatch source target =>
    s!"cannot connect a {source.text} pin to a {target.text} pin"
  | dataTypeMismatch source target => s!"'{target}' does not accept '{source}'"
  | duplicate => "these pins are already connected"
  | targetAtMax pinId limit => s!"pin '{pinId}' accepts at most {limit} connection(s)"
  | controlCycle sourceNode targetNode =>
    s!"connecting '{sourceNode}' to '{targetNode}' would create a control-flow loop"

def message (refusal : Refusal) : String :=
  s!"Connection rejected ({refusal.code.text}): {refusal.reason}"

end Refusal

/-- Why no edge was made: a refusal, or a fault of a definition. -/
inductive ConnectError where
  | refused (refusal : Refusal)
  | duplicatePin (fault : DuplicatePin)
  deriving DecidableEq

/-- What is given to a new edge from outside: an id that is not in use, and the time. -/
structure EdgeStamp where
  id : String
  createdAt : Option Timestamp
  deriving Inhabited

namespace Catalog

/-- The pin that a reference names; none if there is no such node, its type is not in the catalog or
it has no such pin. -/
def resolvePin (catalog : Catalog) (graph : Graph) (pin : PinRef) :
    Except DuplicatePin (Option Pin) :=
  match graph.node? pin.nodeId with
  | none => .ok none
  | some node =>
    match catalog.lookup? node.nodeType with
    | none => .ok none
    | some definition =>
      (definition.materialize node.config).map fun pins => Pin.find? pins pin.pinId

/-- The pin that a reference names, or else a refusal. -/
def requirePin (catalog : Catalog) (graph : Graph) (pin : PinRef) (missing : Refusal) :
    Except ConnectError Pin :=
  match catalog.resolvePin graph pin with
  | .error fault => .error (.duplicatePin fault)
  | .ok none => .error (.refused missing)
  | .ok (some found) => .ok found

end Catalog

/-- The edge that would join two pins. An edge that carries values has the type of its source, or
else that of its target. -/
def joiningEdge (stamp : EdgeStamp) (source target : PinRef) (sourcePin targetPin : Pin) :
    Edge where
  id := stamp.id
  kind := sourcePin.kind
  dataType :=
    match sourcePin.kind with
    | .data => sourcePin.dataType.or targetPin.dataType
    | .control => none
  source := source
  target := target
  createdAt := stamp.createdAt

/-- Why two pins that have been found may not be joined, if there is a reason. -/
def refusal? (graph : Graph) (source target : PinRef) (sourcePin targetPin : Pin) (edge : Edge) :
    Option Refusal :=
  let kind := sourcePin.kind
  let inbound := ((graph.edgesInto target).filter (·.kind == kind)).length
  if sourcePin.direction ≠ .output then some (.sourceNotOut sourcePin.id)
  else if targetPin.direction ≠ .input then some (.targetNotIn targetPin.id)
  else if source.nodeId = target.nodeId then some (.selfEdge source.nodeId)
  else if kind ≠ targetPin.kind then some (.kindMismatch kind targetPin.kind)
  else if kind = .data ∧ ¬DataType.compatible sourcePin.dataType targetPin.dataType then
    some (.dataTypeMismatch sourcePin.typeText targetPin.typeText)
  else if graph.edges.any fun e => e.kind == kind && e.source == source && e.target == target then
    some .duplicate
  else
    match targetPin.capacity.filter (· ≤ inbound) with
    | some limit => some (.targetAtMax targetPin.id limit)
    | none =>
      if ControlFlow.wouldCloseLoop graph.edges edge then
        some (.controlCycle source.nodeId target.nodeId)
      else none

/-- Checks one connection; if it is allowed, gives the edge to add. -/
def checkConnection (catalog : Catalog) (graph : Graph) (stamp : EdgeStamp)
    (source target : PinRef) : Except ConnectError Edge := do
  let sourcePin ← catalog.requirePin graph source (.sourcePinMissing source)
  let targetPin ← catalog.requirePin graph target (.targetPinMissing target)
  let edge := joiningEdge stamp source target sourcePin targetPin
  match refusal? graph source target sourcePin targetPin edge with
  | some refusal => throw (.refused refusal)
  | none => return edge

namespace Graph

def addEdge (graph : Graph) (edge : Edge) : Graph := { graph with edges := graph.edges ++ [edge] }

def addNode (graph : Graph) (node : Node) : Graph := { graph with nodes := graph.nodes ++ [node] }

/-- The graph without the edges that have an id. -/
def removeEdge (graph : Graph) (id : String) : Graph :=
  { graph with edges := graph.edges.filter (·.id != id) }

/-- The graph without the nodes that have an id. Their edges stay. -/
def removeNode (graph : Graph) (id : String) : Graph :=
  { graph with nodes := graph.nodes.filter (·.id != id) }

end Graph

/-- Joins two pins, if that is allowed. -/
def connect (catalog : Catalog) (graph : Graph) (stamp : EdgeStamp) (source target : PinRef) :
    Except ConnectError Graph :=
  (checkConnection catalog graph stamp source target).map graph.addEdge

end AbilityGraph
