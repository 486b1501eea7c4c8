import AbilityGraph.ConfigField
import AbilityGraph.Graph

/-!
# Issues

What is reported about a graph. A `Finding` is a fact that validation has found, with what it is
about; an `Issue` is the report on it: how severe it is, a stable code, words, and a place in the
graph to show it at.
-/

set_option autoImplicit false

namespace AbilityGraph

/-- How severe an issue is. -/
inductive Severity where
  | error
  | warning
  | info
  deriving DecidableEq, Inhabited

namespace Severity

def all : List Severity := [error, warning, info]

def text : Severity → String
  | error => "ERROR"
  | warning => "WARN"
  | info => "INFO"

/-- The name of a severity in a line of a report. -/
def label : Severity → String
  | error => "error"
  | warning => "warning"
  | info => "info"

end Severity

/-- The codes of issues. -/
inductive IssueCode where
  | ok
  | unknownNode
  | requiredPin
  | edgeNodeMissing
  | edgePinMissing
  | pinKindMismatch
  | edgeKindIncorrect
  | dataTypeMismatch
  | missingStart
  | startUnconnected
  | duplicateNodeId
  | duplicateEdgeId
  | multipleStart
  | edgeDirection
  | targetOverCapacity
  | controlCycle
  | invalidConfig
  | unknownConfigField
  | unreachableNode
  deriving DecidableEq, Inhabited

namespace IssueCode

def all : List IssueCode :=
  [ok, unknownNode, requiredPin, edgeNodeMissing, edgePinMissing, pinKindMismatch,
    edgeKindIncorrect, dataTypeMismatch, missingStart, startUnconnected, duplicateNodeId,
    duplicateEdgeId, multipleStart, edgeDirection, targetOverCapacity, controlCycle, invalidConfig,
    unknownConfigField, unreachableNode]

def text : IssueCode → String
  | ok => "OK"
  | unknownNode => "UNKNOWN_NODE"
  | requiredPin => "REQUIRED_PIN"
  | edgeNodeMissing => "EDGE_NODE_MISSING"
  | edgePinMissing => "EDGE_PIN_MISSING"
  | pinKindMismatch => "PIN_KIND_MISMATCH"
  | edgeKindIncorrect => "EDGE_KIND_INCORRECT"
  | dataTypeMismatch => "DATA_TYPE_MISMATCH"
  | missingStart => "MISSING_START"
  | startUnconnected => "START_UNCONNECTED"
  | duplicateNodeId => "DUPLICATE_NODE_ID"
  | duplicateEdgeId => "DUPLICATE_EDGE_ID"
  | multipleStart => "MULTIPLE_START"
  | edgeDirection => "EDGE_DIRECTION"
  | targetOverCapacity => "TARGET_OVER_CAPACITY"
  | controlCycle => "CONTROL_CYCLE"
  | invalidConfig => "INVALID_CONFIG"
  | unknownConfigField => "UNKNOWN_CONFIG_FIELD"
  | unreachableNode => "UNREACHABLE_NODE"

end IssueCode

/-- A place in a graph. -/
inductive Place where
  | node (nodeId : String)
  | pin (nodeId pinId : String)
  | edge (edgeId : String)
  deriving DecidableEq, Inhabited

namespace Place

def text : Place → String
  | node nodeId => s!"node {nodeId}"
  | pin nodeId pinId => s!"pin {nodeId}.{pinId}"
  | edge edgeId => s!"edge {edgeId}"

end Place

/-- A report on something found in a graph. -/
structure Issue where
  severity : Severity
  code : IssueCode
  message : String
  place : Option Place
  deriving DecidableEq, Inhabited

namespace Issue

def isError (issue : Issue) : Bool := issue.severity == .error

/-- The line of a report that shows an issue. -/
def text (issue : Issue) : String :=
  let place := match issue.place with
    | some place => s!" (at {place.text})"
    | none => ""
  s!"{issue.severity.label}[{issue.code.text}]: {issue.message}{place}"

def anyError (issues : List Issue) : Bool := issues.any isError

end Issue

/-- Something that validation has found in a graph. -/
inductive Finding where
  | duplicateNodeId (nodeId : String)
  | duplicateEdgeId (edgeId : String)
  | unknownNode (node : Node)
  | unknownConfigField (key : String) (node : Node)
  | invalidConfig (key : String) (node : Node) (fault : ValueFault)
  | requiredPin (node : Node) (pin : Pin)
  | edgeNodeMissing (edge : Edge)
  | edgePinMissing (edge : Edge)
  | edgeDirection (edge : Edge)
  | pinKindMismatch (edge : Edge) (source target : PinKind)
  | edgeKindIncorrect (edge : Edge) (pins : PinKind)
  | dataTypeMismatch (edge : Edge)
  | targetOverCapacity (node : Node) (pin : Pin) (inbound limit : Nat)
  | missingStart (startType : String)
  | multipleStart (node : Node)
  | startUnconnected (node : Node) (pinId : String)
  | unreachableNode (node : Node)
  | controlCycle (edge : Edge)
  | ok

namespace Finding

def code : Finding → IssueCode
  | duplicateNodeId _ => .duplicateNodeId
  | duplicateEdgeId _ => .duplicateEdgeId
  | unknownNode _ => .unknownNode
  | unknownConfigField _ _ => .unknownConfigField
  | invalidConfig _ _ _ => .invalidConfig
  | requiredPin _ _ => .requiredPin
  | edgeNodeMissing _ => .edgeNodeMissing
  | edgePinMissing _ => .edgePinMissing
  | edgeDirection _ => .edgeDirection
  | pinKindMismatch _ _ _ => .pinKindMismatch
  | edgeKindIncorrect _ _ => .edgeKindIncorrect
  | dataTypeMismatch _ => .dataTypeMismatch
  | targetOverCapacity _ _ _ _ => .targetOverCapacity
  | missingStart _ => .missingStart
  | multipleStart _ => .multipleStart
  | startUnconnected _ _ => .startUnconnected
  | unreachableNode _ => .unreachableNode
  | controlCycle _ => .controlCycle
  | ok => .ok

/-- How severe a finding is: nodes that never run and unknown config fields are only warned of. -/
def severity : Finding → Severity
  | unknownConfigField _ _ => .warning
  | unreachableNode _ => .warning
  | ok => .info
  | _ => .error

def message : Finding → String
  | duplicateNodeId nodeId => s!"node id '{nodeId}' is used more than once"
  | duplicateEdgeId edgeId => s!"edge id '{edgeId}' is used more than once"
  | unknownNode node => s!"node '{node.id}' has unknown type '{node.nodeType}'"
  | unknownConfigField key node =>
    s!"'{key}' is not a config field of {node.nodeType} node '{node.id}'"
  | invalidConfig key node fault => s!"config '{key}' of node '{node.id}' {fault.message}"
  | requiredPin node pin => s!"required pin '{pin.label}' of node '{node.id}' is not connected"
  | edgeNodeMissing edge =>
    s!"edge '{edge.id}' connects '{edge.source.nodeId}' to '{edge.target.nodeId}', "
      ++ "but one of them does not exist"
  | edgePinMissing edge =>
    s!"edge '{edge.id}' references pin '{edge.source.nodeId}.{edge.source.pinId}' or "
      ++ s!"'{edge.target.nodeId}.{edge.target.pinId}', which does not exist"
  | edgeDirection edge => s!"edge '{edge.id}' must run from an output to an input"
  | pinKindMismatch edge source target =>
    s!"edge '{edge.id}' joins a {source.text} pin to a {target.text} pin"
  | edgeKindIncorrect edge pins =>
    s!"edge '{edge.id}' is recorded as {edge.kind.text} but joins {pins.text} pins"
  | dataTypeMismatch edge =>
    s!"edge '{edge.id}' feeds a value of an incompatible type into "
      ++ s!"'{edge.target.nodeId}.{edge.target.pinId}'"
  | targetOverCapacity node pin inbound limit =>
    s!"pin '{pin.label}' of node '{node.id}' has {inbound} connections "
      ++ s!"but accepts at most {limit}"
  | missingStart startType => s!"the graph has no '{startType}' node"
  | multipleStart node =>
    s!"node '{node.id}' is an additional start node; only one is allowed"
  | startUnconnected node _ => s!"start node '{node.id}' is not connected to anything"
  | unreachableNode node => s!"node '{node.id}' can never run from the start node"
  | controlCycle edge => s!"edge '{edge.id}' is part of a control-flow loop"
  | ok => "graph is valid"

def place : Finding → Option Place
  | duplicateNodeId nodeId => some (.node nodeId)
  | duplicateEdgeId edgeId => some (.edge edgeId)
  | unknownNode node => some (.node node.id)
  | unknownConfigField _ node => some (.node node.id)
  | invalidConfig _ node _ => some (.node node.id)
  | requiredPin node pin => some (.pin node.id pin.id)
  | edgeNodeMissing edge => some (.edge edge.id)
  | edgePinMissing edge => some (.edge edge.id)
  | edgeDirection edge => some (.edge edge.id)
  | pinKindMismatch edge _ _ => some (.edge edge.id)
  | edgeKindIncorrect edge _ => some (.edge edge.id)
  | dataTypeMismatch edge => some (.edge edge.id)
  | targetOverCapacity node pin _ _ => some (.pin node.id pin.id)
  | missingStart _ => none
  | multipleStart node => some (.node node.id)
  | startUnconnected node pinId => some (.pin node.id pinId)
  | unreachableNode node => some (.node node.id)
  | controlCycle edge => some (.edge edge.id)
  | ok => none

/-- The report on a finding. -/
def report (finding : Finding) : Issue :=
  ⟨finding.severity, finding.code, finding.message, finding.place⟩

end Finding

end AbilityGraph
