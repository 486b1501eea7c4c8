import AbilityGraph.Catalog
import AbilityGraph.Graph
import AbilityGraph.Step

/-!
# Walking the control flow

The steps of a graph are found by walking its control flow depth first from the start. The walk
keeps its own stack of nodes still to visit, so the depth of a graph is no limit, and it puts the
steps into numbered sequences: a branch opens a sequence for each of its parts and stores their
numbers.
Every node id is visited at most once, so a node at which branches meet again is emitted once, and
the walk ends on every graph.

`assemble` takes the finished sequences and puts them into the branches that opened them. A branch
opens its sequences after the one that it stands in, so each sequence only needs those with greater
numbers.
-/

set_option autoImplicit false

namespace AbilityGraph

namespace Graph

/-- The nodes that the control edges at an output lead to, in the order of the edges. -/
def controlTargets (graph : Graph) (nodeId pinId : String) : List String :=
  ((graph.edgesFrom ⟨nodeId, pinId⟩).filter (·.kind == .control)).map (·.target.nodeId)

/-- The node at the start of the first data edge at an input. -/
def dataSource? (graph : Graph) (nodeId pinId : String) : Option String :=
  ((graph.edgesInto ⟨nodeId, pinId⟩).find? (·.kind == .data)).map (·.source.nodeId)

end Graph

/-- A place in the walk: a catalog and the graph whose flow is walked. -/
structure Walk where
  catalog : Catalog
  graph : Graph

namespace Walk

/-! ## What a node is lowered to -/

/-- The condition that is wired to an input. Only constants can be decided by; with anything else,
or nothing, at the input the condition always holds. -/
def conditionAt (walk : Walk) (nodeId pinId : String) : Condition :=
  let value? : Option Value := do
    let source ← walk.graph.node? (← walk.graph.dataSource? nodeId pinId)
    let definition ← walk.catalog.lookup? source.nodeType
    match definition.lowering with
    | .literal field => definition.fieldValue? source.config field
    | _ => none
  match value? with
  | some value => .literal value
  | none => .always

/-- The fields of the action that a node becomes: the listed config fields that have a value. -/
def actionFields (definition : Definition) (node : Node) (fields : List String) :
    FieldMap Value :=
  .ofList (fields.filterMap fun field =>
    (definition.fieldValue? node.config field).map (field, ·))

/-- An else-if clause of a branch node: its condition, its output, and the number of the sequence
that the steps after its output go into. -/
structure Clause where
  condition : Condition
  output : String
  sequence : Nat

/-- The else-if clauses of a branch node, one for each slot; their sequences are numbered in order,
beginning with the given number. -/
def clauses (walk : Walk) (definition : Definition) (node : Node) (elseIf : Option ElseIfPins)
    (first : Nat) : List Clause :=
  match elseIf with
  | none => []
  | some pins => (List.range (definition.slotCount node.config)).map fun index =>
    { condition := walk.conditionAt node.id (substitute pins.condition index)
      output := substitute pins.thenOut index
      sequence := first + index }

/-- The output at which the flow goes on after a branch, unless that is one of the branch's own. -/
def afterBranch (thenOut elseOut : String) (next : Option String) : Option String :=
  next.filter fun pinId => pinId != thenOut && pinId != elseOut

/-- The nodes that the flow goes on to from an output, if there is one. -/
def targetsOf (walk : Walk) (node : Node) : Option String → List String
  | some pinId => walk.graph.controlTargets node.id pinId
  | none => []

/-! ## The state of the walk -/

/-- A step whose parts are sequences given by number. -/
inductive Pending where
  | action (type : String) (fields : FieldMap Value)
  | branch (type : String) (condition : Condition) (thenSequence : Nat)
      (elseIf : List (Condition × Nat)) (elseSequence : Nat)

/-- A node still to visit, and the number of the sequence that its step goes into. -/
structure Task where
  nodeId : String
  sequence : Nat

/-- How far a walk has come: the node ids visited, the sequences so far, and the tasks to come, the
next one first. -/
structure State where
  visited : List String
  sequences : List (List Pending)
  tasks : List Task

namespace State

/-- Adds a step at the end of a sequence. -/
def emit (state : State) (sequence : Nat) (step : Pending) : State :=
  { state with sequences := state.sequences.modify sequence (· ++ [step]) }

/-- Opens new sequences, which get the next numbers. -/
def openSequences (state : State) (count : Nat) : State :=
  { state with sequences := state.sequences ++ List.replicate count [] }

/-- Puts nodes in front of the tasks to come; their steps go into one sequence. -/
def schedule (state : State) (sequence : Nat) (targets : List String) : State :=
  { state with tasks := targets.map (⟨·, sequence⟩) ++ state.tasks }

/-- Marks a node id as visited. -/
def visit (state : State) (nodeId : String) : State :=
  { state with visited := nodeId :: state.visited }

end State

/-- Schedules the nodes after the outputs of else-if clauses, those of the first clause in front. -/
def scheduleClauses (walk : Walk) (node : Node) (clauses : List Clause) (state : State) : State :=
  clauses.foldr
    (fun clause state => state.schedule clause.sequence (walk.targetsOf node (some clause.output)))
    state

/-- Emits the step of a node and schedules the nodes after it. -/
def expand (walk : Walk) (definition : Definition) (node : Node) (sequence : Nat)
    (state : State) : State :=
  match definition.lowering with
  | .entry next => state.schedule sequence (walk.targetsOf node (some next))
  | .step type fields next =>
    (state.emit sequence (.action type (actionFields definition node fields))).schedule sequence
      (walk.targetsOf node next)
  | .branch type condition thenOut elseIf elseOut next =>
    let thenSequence := state.sequences.length
    let clauses := walk.clauses definition node elseIf (thenSequence + 1)
    let elseSequence := thenSequence + 1 + clauses.length
    let state := state.openSequences (clauses.length + 2)
    let state := state.emit sequence
      (.branch type (walk.conditionAt node.id condition) thenSequence
        (clauses.map fun c => (c.condition, c.sequence)) elseSequence)
    let state := state.schedule sequence (walk.targetsOf node (afterBranch thenOut elseOut next))
    let state := state.schedule elseSequence (walk.targetsOf node (some elseOut))
    let state := walk.scheduleClauses node clauses state
    state.schedule thenSequence (walk.targetsOf node (some thenOut))
  | .literal _ => state
  | .data => state

/-- What is found for a task: nothing if the node id was visited before, and otherwise the node with
its definition, if there are both. -/
inductive Arrival where
  | visited
  | nothing
  | node (definition : Definition) (node : Node)

/-- What is found for a node id. -/
def arrive (walk : Walk) (visited : List String) (nodeId : String) : Arrival :=
  if visited.contains nodeId then .visited else
    match walk.graph.node? nodeId with
    | none => .nothing
    | some node =>
      match walk.catalog.lookup? node.nodeType with
      | none => .nothing
      | some definition => .node definition node

/-- Carries out one task. -/
def perform (walk : Walk) (state : State) (task : Task) : State :=
  match walk.arrive state.visited task.nodeId with
  | .visited => state
  | .nothing => state.visit task.nodeId
  | .node definition node => walk.expand definition node task.sequence (state.visit task.nodeId)

/-- How many nodes of the graph have not been visited. -/
def unvisited (walk : Walk) (visited : List String) : Nat :=
  (walk.graph.nodes.filter fun node => !visited.contains node.id).length

/-! ## The walk ends -/

/-- A visit to a node leaves no more nodes unvisited. -/
theorem unvisited_cons_le (walk : Walk) (visited : List String) (nodeId : String) :
    walk.unvisited (nodeId :: visited) ≤ walk.unvisited visited := by
  simp only [unvisited, ← List.countP_eq_length_filter]
  refine List.countP_mono_left fun node _ h => ?_
  simp only [List.contains_cons, Bool.not_or, Bool.and_eq_true] at h
  exact h.2

/-- A visit to a node of the graph that was not visited before leaves fewer nodes unvisited. -/
theorem unvisited_cons_lt {walk : Walk} {visited : List String} {nodeId : String} {node : Node}
    (hvisited : visited.contains nodeId = false) (hnode : walk.graph.node? nodeId = some node) :
    walk.unvisited (nodeId :: visited) < walk.unvisited visited := by
  have hmem := List.mem_of_find?_eq_some hnode
  have hid : node.id = nodeId := by simpa using List.find?_some hnode
  simp only [unvisited]
  generalize walk.graph.nodes = nodes at hmem
  induction nodes with
  | nil => cases hmem
  | cons first rest ih =>
    have hrest : (rest.filter fun n => !(nodeId :: visited).contains n.id).length
        ≤ (rest.filter fun n => !visited.contains n.id).length :=
      unvisited_cons_le ⟨walk.catalog, { walk.graph with nodes := rest }⟩ visited nodeId
    rcases List.mem_cons.1 hmem with rfl | hmem
    · simp only [List.filter_cons, List.contains_cons, hid, hvisited, beq_self_eq_true,
        Bool.true_or, Bool.not_true, Bool.not_false, if_true, Bool.false_eq_true, if_false,
        List.length_cons]
      simp only [List.contains_cons] at hrest
      omega
    · have := ih hmem
      by_cases hfirst : visited.contains first.id = true
      · simp only [List.filter_cons, List.contains_cons, hfirst, Bool.or_true, Bool.not_true,
          Bool.false_eq_true, if_false] at this ⊢
        exact this
      · have hfirst : visited.contains first.id = false := by simpa using hfirst
        cases heq : first.id == nodeId <;>
          simp only [List.filter_cons, List.contains_cons, hfirst, heq, Bool.or_false,
            Bool.not_true, Bool.not_false, Bool.false_eq_true, if_false, if_true,
            List.length_cons] at this ⊢ <;>
          omega

/-- Scheduling the nodes after else-if clauses visits no node. -/
theorem visited_scheduleClauses (walk : Walk) (node : Node) (clauses : List Clause)
    (state : State) : (walk.scheduleClauses node clauses state).visited = state.visited := by
  induction clauses with
  | nil => rfl
  | cons clause rest ih => exact ih

/-- Nodes are visited where tasks are carried out, not where their steps are emitted. -/
theorem visited_expand (walk : Walk) (definition : Definition) (node : Node) (sequence : Nat)
    (state : State) :
    (walk.expand definition node sequence state).visited = state.visited := by
  unfold expand
  split
  · rfl
  · rfl
  · exact visited_scheduleClauses ..
  · rfl
  · rfl

/-- A task that finds a node leaves fewer nodes unvisited. -/
theorem unvisited_lt_of_arrive {walk : Walk} {visited : List String} {nodeId : String}
    {definition : Definition} {node : Node}
    (harrive : walk.arrive visited nodeId = .node definition node) :
    walk.unvisited (nodeId :: visited) < walk.unvisited visited := by
  unfold arrive at harrive
  split at harrive
  · cases harrive
  · next hvisited =>
    split at harrive
    · cases harrive
    · next node' hnode =>
      exact unvisited_cons_lt (by simpa using hvisited) hnode

/-- A task leaves fewer nodes unvisited, or no more of them and no new tasks. -/
theorem perform_decreases (walk : Walk) (state : State) (task : Task) :
    walk.unvisited (walk.perform state task).visited < walk.unvisited state.visited ∨
      (walk.unvisited (walk.perform state task).visited ≤ walk.unvisited state.visited ∧
        (walk.perform state task).tasks = state.tasks) := by
  unfold perform
  split
  · exact .inr ⟨Nat.le_refl _, rfl⟩
  · exact .inr ⟨unvisited_cons_le walk state.visited task.nodeId, rfl⟩
  next definition node harrive =>
    refine .inl ?_
    rw [visited_expand]
    exact unvisited_lt_of_arrive harrive

/-- Carries out tasks until none is left. -/
def run (walk : Walk) (state : State) : State :=
  match _htasks : state.tasks with
  | [] => state
  | task :: rest => run walk (walk.perform { state with tasks := rest } task)
termination_by (walk.unvisited state.visited, state.tasks.length)
decreasing_by
  rw [_htasks]
  rcases walk.perform_decreases { state with tasks := rest } task with h | ⟨h, htasks'⟩
  · exact .left _ _ h
  · rw [htasks']
    rcases Nat.lt_or_eq_of_le h with h | h
    · exact .left _ _ h
    · rw [h]
      exact .right _ (Nat.lt_succ_self _)

/-- The state before the first task: one empty sequence, and the start node to visit. -/
def initial (start : String) : State := ⟨[], [[]], [⟨start, 0⟩]⟩

/-! ## Putting sequences together -/

/-- Finished sequences from a number on, without those that have been taken. -/
abbrev Built := List (Option (List Step))

/-- Takes a finished sequence by its number, out of those from a number on. One that is not there
counts as empty. -/
def takeSequence (first sequence : Nat) : StateM Built (List Step) := do
  let built ← get
  if sequence < first then return []
  set (built.set (sequence - first) none)
  return (built[sequence - first]?.join).getD []

/-- A step with its parts put in, taken out of the finished sequences from a number on. -/
def Pending.finish (first : Nat) : Pending → StateM Built Step
  | action type fields => return .action type fields
  | branch type condition thenSequence elseIf elseSequence => do
    let clauses ← elseIf.mapM fun c => return (c.1, ← takeSequence first c.2)
    let thenSteps ← takeSequence first thenSequence
    let elseSteps ← takeSequence first elseSequence
    return .branch type condition thenSteps clauses elseSteps

/-- Finishes sequences, the last one first; the first of them has the given number. -/
def assembleFrom (first : Nat) : List (List Pending) → Built
  | [] => []
  | pending :: rest =>
    let finished := (pending.mapM (Pending.finish (first + 1))).run (assembleFrom (first + 1) rest)
    some finished.1 :: finished.2

/-- The steps of the first sequence, with all others put in where they belong. -/
def assemble (sequences : List (List Pending)) : List Step :=
  ((takeSequence 0 0).run (assembleFrom 0 sequences)).1

/-- The steps that the flow from a node is lowered to. -/
def stepsFrom (walk : Walk) (start : Node) : List Step :=
  assemble (walk.run (initial start.id)).sequences

end Walk

end AbilityGraph
