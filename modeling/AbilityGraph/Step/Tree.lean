import AbilityGraph.Step

/-!
# Steps as a tree

A text that shows how steps are nested, one line for each step and for each part of a branch. Lines
begin with a margin that leads down to the steps that follow on each level.
-/

set_option autoImplicit false

namespace AbilityGraph

namespace Step

/-- What a line adds for an entry that others follow. -/
def middleMark : String := "├── "

/-- What a line adds for the last entry of its level. -/
def lastMark : String := "└── "

/-- What the lines below an entry add while others follow it. -/
def openMargin : String := "│   "

/-- What the lines below the last entry of a level add. -/
def closedMargin : String := "    "

/-- The line of an action: its type and its fields. -/
def actionLine (type : String) (fields : FieldMap Value) : String :=
  " ".intercalate (type :: fields.entries.map fun e => e.1 ++ "=" ++ e.2.text)

mutual

/-- The lines of a sequence of steps below a margin. -/
def sequenceLines (margin : String) : List Step → List String
  | [] => [margin ++ lastMark ++ "<empty>"]
  | [step] => stepLines (margin ++ lastMark) (margin ++ closedMargin) step
  | step :: rest =>
    stepLines (margin ++ middleMark) (margin ++ openMargin) step ++ sequenceLines margin rest

/-- The lines of a step, given the start of its own line and the margin of those below it. -/
def stepLines (start margin : String) : Step → List String
  | action type fields => [start ++ actionLine type fields]
  | branch type condition thenSteps elseIf elseSteps =>
    (start ++ type ++ " " ++ condition.text)
      :: (margin ++ middleMark ++ "then")
      :: sequenceLines (margin ++ openMargin) thenSteps
      ++ clausesLines margin elseIf
      ++ (margin ++ lastMark ++ "else")
      :: sequenceLines (margin ++ closedMargin) elseSteps

/-- The lines of the else-if clauses of a branch. -/
def clausesLines (margin : String) : List (Condition × List Step) → List String
  | [] => []
  | (condition, steps) :: rest =>
    (margin ++ middleMark ++ "else if " ++ condition.text)
      :: sequenceLines (margin ++ openMargin) steps ++ clausesLines margin rest

end

/-- The text of steps as a tree. -/
def tree (steps : List Step) : String :=
  let lines := if steps.isEmpty then ["<no steps>"] else sequenceLines "" steps
  String.join (lines.map (· ++ "\n"))

end Step

end AbilityGraph
