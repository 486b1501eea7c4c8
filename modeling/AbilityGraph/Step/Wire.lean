import AbilityGraph.Json.Record
import AbilityGraph.Json.Writer
import AbilityGraph.Step

/-!
# Steps as JSON

An action is an object with its type and its fields side by side; a branch nests its sequences.
Nothing in a written step says which of the two it is. A step is read as a branch if all of it can
be read as one, and else as an action, so an action must not use the member names of a branch.

Reading a step goes down into the members of a branch, which are smaller than the step.
-/

set_option autoImplicit false

namespace AbilityGraph

namespace Wire

/-- A member that is found in an object is smaller than the object. -/
theorem sizeOf_member? {members : List (String × Wire)} {names : Names} {x : Wire}
    (h : member? members names = some (some x)) : sizeOf x < sizeOf (object members) := by
  unfold member? at h
  split at h
  · cases h
  next name value hfilter =>
    cases h
    have hmem : (name, x) ∈ members := by
      have : (name, x) ∈ members.filter fun m => names.contains m.1 := hfilter ▸ .head _
      exact (List.mem_filter.1 this).1
    have := List.sizeOf_lt_of_mem hmem
    simp only [Prod.mk.sizeOf_spec, object.sizeOf_spec] at this ⊢
    omega
  · cases h

/-- What is found for a member of a record is smaller than the record. -/
theorem sizeOf_members? {names : List Names} {w x : Wire} {found : List (Option Wire)}
    (h : w.members? names = some found) (hx : some x ∈ found) : sizeOf x < sizeOf w := by
  cases w with
  | object members =>
    simp only [members?] at h
    induction names generalizing found with
    | nil =>
      cases h
      cases hx
    | cons first rest ih =>
      simp only [List.mapM_cons, Option.bind_eq_bind, Option.bind_eq_some_iff,
        Option.pure_def] at h
      obtain ⟨m, hm, ms, hms, h⟩ := h
      cases h
      rcases List.mem_cons.1 hx with rfl | hx
      · exact sizeOf_member? hm
      · exact ih hx hms
  | array items =>
    simp only [members?] at h
    split at h
    · cases h
      rcases List.mem_append.1 hx with hx | hx
      · obtain ⟨y, hy, hyx⟩ := List.mem_map.1 hx
        cases hyx
        have := List.sizeOf_lt_of_mem hy
        simp only [array.sizeOf_spec]
        omega
      · cases (List.mem_replicate.1 hx).2
    · cases h
  | _ => simp [members?] at h

/-- A list whose items are read by a function that may use that they are smaller than the list. -/
def smallerList? {α : Type} (w : Wire) (read : (x : Wire) → sizeOf x < sizeOf w → Option α) :
    Option (List α) :=
  match w with
  | array items => items.attach.mapM fun x => read x.1 (by
      have := List.sizeOf_lt_of_mem x.2
      simp only [array.sizeOf_spec]
      omega)
  | _ => none

/-- A member that has a default value if it is missing, read by a function that may use that it is
smaller than the record. -/
def smallerOr {α : Type} {names : List Names} {w : Wire} {found : List (Option Wire)}
    (h : w.members? names = some found) (default : α)
    (read : (x : Wire) → sizeOf x < sizeOf w → Option α) (member : Option Wire)
    (hmember : member ∈ found) : Option α :=
  match member with
  | none => some default
  | some x => read x (sizeOf_members? h hmember)

end Wire

namespace Condition

/-- The name that is the tag of a condition. -/
def tag? : Wire → Option String := Wire.string?

/-- The name that is the tag of a condition inside a step, where its place in the list of
conditions may stand for it. -/
def nestedTag? : Wire → Option String
  | .number (.integer 0) => some "LITERAL"
  | .number (.integer 1) => some "ALWAYS"
  | w => w.string?

/-- Reads a condition with a way to read its tag. -/
def ofWireWith? (tag? : Wire → Option String) (w : Wire) : Option Condition := do
  let (tag, content) ← w.tagged? "type"
  match ← tag? tag with
  | "LITERAL" => do
    let [value] ← content.members? [["value"]] | none
    return .literal (← Wire.required Wire.toValue? value)
  | "ALWAYS" => content.nothing?.map fun _ => .always
  | _ => none

def ofWire? : Wire → Option Condition := ofWireWith? tag?

def nestedOfWire? : Wire → Option Condition := ofWireWith? nestedTag?

def toJson : Condition → Json
  | literal value =>
    .record [Json.member "type" (.string "LITERAL"), Json.member "value" value.tree]
  | always => .record [Json.member "type" (.string "ALWAYS")]

end Condition

namespace Step

/-- The members of a branch. -/
def branchNames : List Wire.Names := [["type"], ["condition"], ["then"], ["elseIf"], ["else"]]

/-- The members of an else-if clause. -/
def clauseNames : List Wire.Names := [["condition"], ["steps"]]

/-- Reads an action: an object with a type; all its other members are fields. -/
def actionOfWire? : Wire → Option Step
  | .object members => do
    let [type] := members.filter (·.1 == "type") | none
    let fields ← (members.filter (·.1 != "type")).mapM fun m => (m.2.toValue?).map (m.1, ·)
    return .action (← type.2.string?) (.ofList fields)
  | _ => none

/-- Reads a list of steps inside a larger part, given how smaller steps are read. -/
def stepsWith? (w : Wire) (read : (x : Wire) → sizeOf x < sizeOf w → Option Step) (x : Wire)
    (hx : sizeOf x < sizeOf w) : Option (List Step) :=
  x.smallerList? fun item hitem => read item (Nat.lt_trans hitem hx)

/-- Reads an else-if clause inside a larger part, given how smaller steps are read. -/
def clauseWith? (w : Wire) (read : (x : Wire) → sizeOf x < sizeOf w → Option Step) (x : Wire)
    (hx : sizeOf x < sizeOf w) : Option (Condition × List Step) :=
  match hfound : x.members? clauseNames with
  | some [condition, some steps] => do
    return (← Wire.required Condition.nestedOfWire? condition,
      ← stepsWith? w read steps (Nat.lt_trans (Wire.sizeOf_members? hfound (by simp)) hx))
  | _ => none

/-- Reads a branch, given how the smaller steps in it are read. -/
def branchWith? (w : Wire) (read : (x : Wire) → sizeOf x < sizeOf w → Option Step) :
    Option Step :=
  match hfound : w.members? branchNames with
  | some [type, condition, some thenSteps, elseIf, elseSteps] => do
    return .branch (← Wire.required Wire.string? type)
      (← Wire.required Condition.nestedOfWire? condition)
      (← stepsWith? w read thenSteps (Wire.sizeOf_members? hfound (by simp)))
      (← Wire.smallerOr hfound []
        (fun x hx => x.smallerList? fun item hitem =>
          clauseWith? w read item (Nat.lt_trans hitem hx))
        elseIf (by simp))
      (← Wire.smallerOr hfound [] (stepsWith? w read) elseSteps (by simp))
  | _ => none

/-- Reads a step all of whose parts have a value. -/
def ofReadable? (w : Wire) : Option Step :=
  (branchWith? w fun x _ => ofReadable? x).or (actionOfWire? w)
termination_by sizeOf w

/-- Reads a step. A step is looked at as a whole, so all of it must have a value. -/
def ofWire? (w : Wire) : Option Step := if w.isReadable then ofReadable? w else none

mutual

def toJson : Step → Json
  | action type fields =>
    .object (("type", .string type) :: fields.entries.map fun e => (e.1, e.2.tree))
  | branch type condition thenSteps elseIf elseSteps =>
    .object ([
      ("type", .string type),
      ("condition", condition.toJson),
      ("then", .array (sequenceToJson thenSteps))]
      ++ [("elseIf", .array (clausesToJson elseIf)), ("else", .array (sequenceToJson elseSteps))])

def sequenceToJson : List Step → List Json
  | [] => []
  | step :: rest => toJson step :: sequenceToJson rest

def clausesToJson : List (Condition × List Step) → List Json
  | [] => []
  | (condition, steps) :: rest =>
    .object [("condition", condition.toJson), ("steps", .array (sequenceToJson steps))]
      :: clausesToJson rest

end

end Step

end AbilityGraph
