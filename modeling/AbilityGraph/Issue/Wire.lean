import AbilityGraph.Connect
import AbilityGraph.Issue
import AbilityGraph.Json.Record
import AbilityGraph.Json.Writer

/-!
# Issues and codes as JSON

How issues, their places and the codes of issues and refusals are read and written.
-/

set_option autoImplicit false

namespace AbilityGraph

def RefusalCode.ofWire? : Wire → Option RefusalCode :=
  Wire.choice? RefusalCode.text RefusalCode.all

def RefusalCode.toJson (code : RefusalCode) : Json := .string code.text

def Severity.ofWire? : Wire → Option Severity := Wire.choice? Severity.text Severity.all

def Severity.toJson (severity : Severity) : Json := .string severity.text

def IssueCode.ofWire? : Wire → Option IssueCode := Wire.choice? IssueCode.text IssueCode.all

def IssueCode.toJson (code : IssueCode) : Json := .string code.text

namespace Place

def ofWire? (w : Wire) : Option Place := do
  let (tag, content) ← w.tagged? "kind"
  match ← tag.string? with
  | "node" => do
    let [nodeId] ← content.members? [["nodeId"]] | none
    return .node (← Wire.required Wire.string? nodeId)
  | "pin" => do
    let [nodeId, pinId] ← content.members? [["nodeId"], ["pinId"]] | none
    return .pin (← Wire.required Wire.string? nodeId) (← Wire.required Wire.string? pinId)
  | "edge" => do
    let [edgeId] ← content.members? [["edgeId"]] | none
    return .edge (← Wire.required Wire.string? edgeId)
  | _ => none

def toJson : Place → Json
  | node nodeId =>
    .record [Json.member "kind" (.string "node"), Json.member "nodeId" (.string nodeId)]
  | pin nodeId pinId =>
    .record [
      Json.member "kind" (.string "pin"),
      Json.member "nodeId" (.string nodeId),
      Json.member "pinId" (.string pinId)]
  | edge edgeId =>
    .record [Json.member "kind" (.string "edge"), Json.member "edgeId" (.string edgeId)]

end Place

namespace Issue

def ofWire? (w : Wire) : Option Issue := do
  let [severity, code, message, place] ←
    w.members? [["severity"], ["code"], ["message"], ["path"]] | none
  return {
    severity := ← Wire.required Severity.ofWire? severity
    code := ← Wire.required IssueCode.ofWire? code
    message := ← Wire.required Wire.string? message
    place := ← Wire.optional Place.ofWire? place
  }

def toJson (issue : Issue) : Json :=
  .record [
    Json.member "severity" issue.severity.toJson,
    Json.member "code" issue.code.toJson,
    Json.member "message" (.string issue.message),
    Json.member? "path" Place.toJson issue.place]

end Issue

end AbilityGraph
