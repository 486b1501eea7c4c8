import AbilityGraph.Compile.Walk
import Mathlib.Data.List.Basic

/-!
# Walks that mirror each other

Two graphs may differ in ways that their steps do not show. A walk over one of them mirrors a walk
over the other if it finds the same with other node ids, and in the place of each node one of the
same type with the same values (`Walk.Mirrors`). Then each task leads to the same state with ids
renamed (`Walk.perform_mirror`), and so does the whole walk (`Walk.run_mirror`, by induction on the
tasks). Steps have no node ids, so both walks end with the same steps (`Walk.stepsFrom_mirror`).
-/

set_option autoImplicit false

namespace AbilityGraph

/-- The number of slots depends on a config only through the values of its fields. -/
theorem Definition.slotCount_congr {definition : Definition} {config other : Config}
    (h : ∀ field, definition.fieldValue? other field = definition.fieldValue? config field) :
    definition.slotCount other = definition.slotCount config := by
  unfold slotCount
  simp only [h]

/-- A node that can stand in another's place: its id is the renamed one, its type is the same, and
all fields of its config have the same values. -/
structure Node.StandsFor (other node : Node) (rename : String → String) : Prop where
  id : other.id = rename node.id
  nodeType : other.nodeType = node.nodeType
  fieldValue? : ∀ (definition : Definition) (field : String),
    definition.fieldValue? other.config field = definition.fieldValue? node.config field

namespace Walk

/-! ## States -/

/-- A task for a node with another id. -/
def Task.rename (rename : String → String) (task : Task) : Task :=
  { task with nodeId := rename task.nodeId }

/-- A state of a walk over a graph with other node ids. The steps are the same. -/
def State.rename (rename : String → String) (state : State) : State :=
  { state with
    visited := state.visited.map rename
    tasks := state.tasks.map (Task.rename rename) }

section State

variable (rename : String → String) (state : State)

/-- Renaming leaves the sequences of steps as they are. -/
theorem sequences_rename : (state.rename rename).sequences = state.sequences := rfl

/-- A step is emitted in the same way under other ids. -/
theorem emit_rename (sequence : Nat) (step : Pending) :
    (state.rename rename).emit sequence step = (state.emit sequence step).rename rename := rfl

/-- Sequences are opened in the same way under other ids. -/
theorem openSequences_rename (count : Nat) :
    (state.rename rename).openSequences count = (state.openSequences count).rename rename := rfl

end State

/-! ## What a walk finds -/

/-- What a walk finds is what another walk finds, with node ids renamed, different ones differently,
and with each node replaced by one that can stand in its place. -/
structure Mirrors (other walk : Walk) (rename : String → String) (replace : Node → Node) :
    Prop where
  catalog : other.catalog = walk.catalog
  injective : Function.Injective rename
  standsFor : ∀ node, (replace node).StandsFor node rename
  node? : ∀ id, other.graph.node? (rename id) = (walk.graph.node? id).map replace
  controlTargets : ∀ id pinId, other.graph.controlTargets (rename id) pinId =
    (walk.graph.controlTargets id pinId).map rename
  dataSource? : ∀ id pinId, other.graph.dataSource? (rename id) pinId =
    (walk.graph.dataSource? id pinId).map rename

section Mirror

variable {walk other : Walk} {rename : String → String} {replace : Node → Node}
  (h : other.Mirrors walk rename replace)

include h

/-- The same condition is wired to an input of a node and to that of the node in its place. -/
theorem conditionAt_mirror (nodeId pinId : String) :
    other.conditionAt (rename nodeId) pinId = walk.conditionAt nodeId pinId := by
  unfold conditionAt
  rw [h.dataSource?, h.catalog]
  cases walk.graph.dataSource? nodeId pinId with
  | none => rfl
  | some id =>
    simp only [bind, Option.map_some, Option.bind_some, h.node?]
    cases walk.graph.node? id with
    | none => rfl
    | some source =>
      simp only [Option.map_some, Option.bind_some, (h.standsFor source).nodeType,
        (h.standsFor source).fieldValue?]

/-- A node and the node in its place become actions with the same fields. -/
theorem actionFields_mirror (definition : Definition) (node : Node) (fields : List String) :
    actionFields definition (replace node) fields = actionFields definition node fields := by
  unfold actionFields
  simp only [(h.standsFor node).fieldValue?]

/-- A branch node and the node in its place have the same else-if clauses. -/
theorem clauses_mirror (definition : Definition) (node : Node) (elseIf : Option ElseIfPins)
    (first : Nat) : other.clauses definition (replace node) elseIf first =
      walk.clauses definition node elseIf first := by
  unfold clauses
  simp only [Definition.slotCount_congr ((h.standsFor node).fieldValue? definition),
    (h.standsFor node).id, conditionAt_mirror h]

/-- The flow goes on from the node in a node's place to the same nodes, with ids renamed. -/
theorem targetsOf_mirror (node : Node) (output : Option String) :
    other.targetsOf (replace node) output = (walk.targetsOf node output).map rename := by
  cases output with
  | none => rfl
  | some pinId =>
    simp only [targetsOf, (h.standsFor node).id]
    exact h.controlTargets node.id pinId

/-- The nodes after an output are scheduled in the same way, with ids renamed. -/
theorem schedule_mirror (state : State) (sequence : Nat) (node : Node) (output : Option String) :
    (state.rename rename).schedule sequence (other.targetsOf (replace node) output) =
      (state.schedule sequence (walk.targetsOf node output)).rename rename := by
  rw [targetsOf_mirror h]
  simp only [State.schedule, State.rename, List.map_append, List.map_map]
  rfl

/-- The nodes after else-if clauses are scheduled in the same way, with ids renamed. -/
theorem scheduleClauses_mirror (node : Node) (clauses : List Clause) (state : State) :
    other.scheduleClauses (replace node) clauses (state.rename rename) =
      (walk.scheduleClauses node clauses state).rename rename := by
  induction clauses with
  | nil => rfl
  | cons clause rest ih =>
    show (other.scheduleClauses (replace node) rest (state.rename rename)).schedule _ _ = _
    rw [ih, schedule_mirror h]
    rfl

/-- A node and the node in its place are expanded in the same way, with ids renamed. -/
theorem expand_mirror (definition : Definition) (node : Node) (sequence : Nat) (state : State) :
    other.expand definition (replace node) sequence (state.rename rename) =
      (walk.expand definition node sequence state).rename rename := by
  cases hlowering : definition.lowering with
  | entry next =>
    simp only [expand, hlowering, schedule_mirror h]
  | step type fields next =>
    simp only [expand, hlowering, actionFields_mirror h, emit_rename, schedule_mirror h]
  | branch type condition thenOut elseIf elseOut next =>
    simp only [expand, hlowering, sequences_rename, clauses_mirror h, (h.standsFor node).id,
      conditionAt_mirror h, openSequences_rename, emit_rename, schedule_mirror h,
      scheduleClauses_mirror h]
  | literal field => simp only [expand, hlowering]
  | data => simp only [expand, hlowering]

/-- Where a walk finds a node, the other finds the node in its place. -/
theorem arrive_mirror (visited : List String) (nodeId : String) :
    other.arrive (visited.map rename) (rename nodeId) = match walk.arrive visited nodeId with
      | .visited => .visited
      | .nothing => .nothing
      | .node definition node => .node definition (replace node) := by
  have hvisited : (visited.map rename).contains (rename nodeId) = visited.contains nodeId := by
    rw [Bool.eq_iff_iff, List.contains_iff_mem, List.contains_iff_mem]
    exact List.mem_map_of_injective h.injective
  unfold arrive
  rw [hvisited, h.node?, h.catalog]
  cases visited.contains nodeId with
  | true => rfl
  | false =>
    cases walk.graph.node? nodeId with
    | none => rfl
    | some node =>
      simp only [Option.map_some, (h.standsFor node).nodeType, Bool.false_eq_true, if_false]
      cases walk.catalog.lookup? node.nodeType <;> rfl

/-- Each task leads to the same state, with ids renamed. -/
theorem perform_mirror (state : State) (task : Task) :
    other.perform (state.rename rename) (task.rename rename) =
      (walk.perform state task).rename rename := by
  have harrive : other.arrive (state.rename rename).visited (task.rename rename).nodeId = _ :=
    arrive_mirror h state.visited task.nodeId
  unfold perform
  rw [harrive]
  cases walk.arrive state.visited task.nodeId with
  | visited => rfl
  | nothing => rfl
  | node definition node =>
    exact expand_mirror h definition node task.sequence (state.visit task.nodeId)

/-- All tasks lead to the same state, with ids renamed. -/
theorem run_mirror (state : State) :
    other.run (state.rename rename) = (walk.run state).rename rename := by
  fun_induction run walk state with
  | case1 state htasks =>
    have hnil : (state.rename rename).tasks = [] := by
      simp [State.rename, htasks]
    rw [run.eq_def]
    split
    · rfl
    next hcons =>
      rw [hnil] at hcons
      cases hcons
  | case2 state task rest htasks ih =>
    have hcons : (state.rename rename).tasks =
        task.rename rename :: rest.map (Task.rename rename) := by
      simp [State.rename, htasks]
    rw [run.eq_def]
    split
    next hnil =>
      rw [hcons] at hnil
      cases hnil
    next first others htask =>
      rw [hcons] at htask
      cases htask
      rw [← ih, ← perform_mirror h]
      rfl

/-- From a node and from the node in its place both walks end with the same steps. -/
theorem stepsFrom_mirror (start : Node) :
    other.stepsFrom (replace start) = walk.stepsFrom start := by
  have hrun := run_mirror h (initial start.id)
  unfold stepsFrom
  rw [(h.standsFor start).id]
  exact congrArg (fun state => assemble state.sequences) hrun

end Mirror

end Walk

end AbilityGraph
