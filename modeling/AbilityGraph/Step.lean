import AbilityGraph.Json.Printer
import AbilityGraph.FieldMap

/-!
# Compiled steps

What a graph is compiled to: a sequence of steps that a game runtime executes. An action has a type
and fields. A branch has a condition, and sequences of steps for the case that it holds, for further
conditions, and for the case that none holds.
-/

set_option autoImplicit false

namespace AbilityGraph

/-- The condition of a branch or of an else-if clause. -/
inductive Condition where
  /-- A constant that a node gives. -/
  | literal (value : Value)
  /-- Nothing to decide by: the branch is always taken. -/
  | always
  deriving Inhabited

namespace Condition

def text : Condition → String
  | literal value => s!"LITERAL({value.text})"
  | always => "ALWAYS"

end Condition

/-- One compiled step. -/
inductive Step where
  | action (type : String) (fields : FieldMap Value)
  | branch (type : String) (condition : Condition) (thenSteps : List Step)
      (elseIf : List (Condition × List Step)) (elseSteps : List Step)
  deriving Inhabited

namespace Step

/-- The value of a field of an action. -/
def field? (step : Step) (name : String) : Option Value :=
  match step with
  | action _ fields => fields.get? name
  | branch _ _ _ _ _ => none

end Step

end AbilityGraph
