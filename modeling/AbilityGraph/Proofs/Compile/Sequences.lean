import AbilityGraph.Compile.Walk
import Mathlib.Data.List.Basic

/-!
# The sequences of a walk

A branch refers to its sequences by number. `Nested` says that a table of sequences is in order:
every number but the first is referred to exactly once, by a branch in a sequence of smaller number.
Every step of the walk keeps this up (`Sound.perform`), so it holds of the table at the end
(`sound_run_initial`).

For such a table `assemble` finds each sequence finished when it takes it, takes it once, and so
puts together the same steps as `nested`, which looks sequences up without taking them
(`assemble_eq_nested`). A sequence that is not there would count as empty; `assemble?`, which fails
instead, gives the same steps and leaves no sequence (`assemble?_eq_nested`).
-/

set_option autoImplicit false

namespace AbilityGraph

namespace Walk

/-- The numbers of the sequences that a step refers to, in the order in which they are taken. -/
def Pending.children : Pending → List Nat
  | action _ _ => []
  | branch _ _ thenSequence elseIf elseSequence =>
    elseIf.map (·.2) ++ [thenSequence, elseSequence]

/-- The numbers of the sequences that the steps of a sequence refer to. -/
def children (pending : List Pending) : List Nat := pending.flatMap Pending.children

/-- A step with the given parts put in. -/
def Pending.nest (parts : Nat → List Step) : Pending → Step
  | action type fields => .action type fields
  | branch type condition thenSequence elseIf elseSequence =>
    .branch type condition (parts thenSequence) (elseIf.map fun c => (c.1, parts c.2))
      (parts elseSequence)

/-- A table of sequences in which each but the first is a part of one branch, which stands in a
sequence of smaller number. -/
structure Nested (table : List (List Pending)) : Prop where
  deeper : ∀ k pending, table[k]? = some pending → ∀ c ∈ children pending, k < c
  once : (table.flatMap children).Perm (List.range' 1 (table.length - 1))

/-- The steps of a sequence, with the sequences of greater number put in where they belong. -/
def nested (table : List (List Pending)) (k : Nat) : List Step :=
  if h : k < table.length then
    table[k].map (Pending.nest fun c => if hdeeper : k < c then nested table c else [])
  else []
termination_by table.length - k

/-- What a step is with its parts put in depends on the sequences it refers to and on no others. -/
theorem nest_congr {parts others : Nat → List Step} {pending : Pending}
    (h : ∀ c ∈ pending.children, parts c = others c) :
    pending.nest parts = pending.nest others := by
  cases pending with
  | action type fields => rfl
  | branch type condition thenSequence elseIf elseSequence =>
    simp only [Pending.children, List.mem_append, List.mem_map, List.mem_cons] at h
    have hclauses : elseIf.map (fun c => (c.1, parts c.2)) =
        elseIf.map fun c => (c.1, others c.2) :=
      List.map_congr_left fun c hc => by rw [h c.2 (.inl ⟨c, hc, rfl⟩)]
    simp [Pending.nest, hclauses, h thenSequence (by simp), h elseSequence (by simp)]

/-- In a table in order, each sequence is its own steps with the sequences they refer to put in. -/
theorem Nested.nested_eq {table : List (List Pending)} (h : Nested table) {k : Nat}
    {pending : List Pending} (hk : table[k]? = some pending) :
    nested table k = pending.map (Pending.nest (nested table)) := by
  obtain ⟨hlt, rfl⟩ := List.getElem?_eq_some_iff.1 hk
  rw [nested, dif_pos hlt]
  refine List.map_congr_left fun step hstep => nest_congr fun c hc => ?_
  exact dif_pos (h.deeper k _ hk c (List.mem_flatMap.2 ⟨step, hstep, hc⟩))

/-! ## Assembling with what is there -/

/-- A step with its parts put in, which are taken in the given way. -/
def Pending.finishBy {m : Type → Type} [Monad m] (take : Nat → m (List Step)) : Pending → m Step
  | action type fields => return .action type fields
  | branch type condition thenSequence elseIf elseSequence => do
    let clauses ← elseIf.mapM fun c => return (c.1, ← take c.2)
    let thenSteps ← take thenSequence
    let elseSteps ← take elseSequence
    return .branch type condition thenSteps clauses elseSteps

/-- Finishing a step is putting its parts in, as they are taken from the finished sequences. -/
theorem finish_eq (first : Nat) (pending : Pending) :
    pending.finish first = pending.finishBy (takeSequence first) := by
  cases pending <;> rfl

/-- Takes a finished sequence by its number, out of those from a number on. It fails if there is no
such sequence, or it has been taken. -/
def takeSequence? (first sequence : Nat) : StateT Built Option (List Step) := do
  let built ← get
  if sequence < first then failure
  let some steps := built[sequence - first]?.join | failure
  set (built.set (sequence - first) none)
  return steps

/-- Finishes sequences as `assembleFrom` does, but fails if one is not there when it is taken. -/
def assembleFrom? (first : Nat) : List (List Pending) → Option Built
  | [] => some []
  | pending :: rest => do
    let built ← assembleFrom? (first + 1) rest
    let finished ← (pending.mapM (Pending.finishBy (takeSequence? (first + 1)))).run built
    return some finished.1 :: finished.2

/-- The steps that `assemble` gives, and the sequences that are left then; nothing if a sequence is
not there when it is taken. -/
def assemble? (sequences : List (List Pending)) : Option (List Step × Built) := do
  let built ← assembleFrom? 0 sequences
  (takeSequence? 0 0).run built

/-! ## Taking finished sequences -/

/-- The finished sequences from a number on are those of the given parts, without those taken. -/
def Holds (parts : Nat → List Step) (first : Nat) (taken : List Nat) (built : Built) : Prop :=
  ∀ i, i < built.length →
    built[i]? = some (if first + i ∈ taken then none else some (parts (first + i)))

/-- What a computation does with the finished sequences from a number on: if none of the given
numbers has been taken, it takes just these and gives a value. The strict computation, which fails
where a sequence is not there, does the same. -/
def Takes {α : Type} (parts : Nat → List Step) (first length : Nat) (numbers : List Nat)
    (computation : StateM Built α) (strict : StateT Built Option α) (value : α) : Prop :=
  ∀ taken built, Holds parts first taken built → built.length = length → numbers.Nodup →
    (∀ c ∈ numbers, first ≤ c ∧ c < first + length ∧ c ∉ taken) →
    ∃ rest, computation.run built = (value, rest) ∧ strict.run built = some (value, rest) ∧
      rest.length = length ∧ Holds parts first (numbers ++ taken) rest

section Takes

variable {α β : Type} {parts : Nat → List Step} {first length : Nat}

/-- Taking a sequence by its number gives its steps, or none if it is not there, and leaves its
place empty. -/
theorem takeSequence_run (first c : Nat) (built : Built) :
    (takeSequence first c).run built =
      if c < first then ([], built)
      else ((built[c - first]?.join).getD [], built.set (c - first) none) := by
  by_cases h : c < first <;> simp [takeSequence, h] <;> rfl

/-- A sequence that is there is found, and its place is left empty. -/
theorem takeSequence?_run {first c : Nat} {built : Built} {steps : List Step} (h : first ≤ c)
    (hsteps : built[c - first]? = some (some steps)) :
    (takeSequence? first c).run built = some (steps, built.set (c - first) none) := by
  simp [takeSequence?, Nat.not_lt.2 h, hsteps]

/-- Taking a sequence takes just that one, and gives its steps. -/
theorem takes_takeSequence (c : Nat) :
    Takes parts first length [c] (takeSequence first c) (takeSequence? first c) (parts c) := by
  intro taken built hholds hlength _ hnumbers
  obtain ⟨hfirst, hlast, hnew⟩ := hnumbers c List.mem_cons_self
  have hc : first + (c - first) = c := by omega
  have hget := hholds (c - first) (by omega)
  rw [hc, if_neg hnew] at hget
  refine ⟨built.set (c - first) none, ?_, takeSequence?_run hfirst hget, by simpa using hlength,
    ?_⟩
  · rw [takeSequence_run, if_neg (by omega), hget]
    rfl
  · intro i hi
    rw [List.length_set] at hi
    rw [List.getElem?_set]
    by_cases heq : c - first = i
    · subst heq
      simp [hc, hi]
    · have hne : first + i ≠ c := by omega
      simp [heq, hne, hholds i hi]

/-- A computation that only gives a value takes nothing. -/
theorem takes_pure (value : α) :
    Takes parts first length [] (pure value) (pure value) value := by
  intro taken built hholds hlength _ _
  exact ⟨built, rfl, rfl, hlength, hholds⟩

/-- A computation after another takes what the first takes and what it takes itself. -/
theorem Takes.bind {numbers others : List Nat} {computation : StateM Built α}
    {strict : StateT Built Option α} {value : α} {next : α → StateM Built β}
    {strictNext : α → StateT Built Option β} {result : β}
    (h : Takes parts first length numbers computation strict value)
    (hnext : Takes parts first length others (next value) (strictNext value) result) :
    Takes parts first length (numbers ++ others) (computation >>= next) (strict >>= strictNext)
      result := by
  intro taken built hholds hlength hnodup hnumbers
  rw [List.nodup_append] at hnodup
  obtain ⟨hnumbersNodup, hothersNodup, hdisjoint⟩ := hnodup
  obtain ⟨middle, hrun, hstrict, hmiddle, hholds⟩ := h taken built hholds hlength hnumbersNodup
    fun c hc => hnumbers c (List.mem_append_left _ hc)
  obtain ⟨rest, hrunNext, hstrictNext, hrest, hholds⟩ := hnext _ middle hholds hmiddle hothersNodup
    fun c hc => by
      obtain ⟨hfirst, hlast, hnew⟩ := hnumbers c (List.mem_append_right _ hc)
      refine ⟨hfirst, hlast, fun hmem => ?_⟩
      rcases List.mem_append.1 hmem with hmem | hmem
      · exact hdisjoint c hmem c hc rfl
      · exact hnew hmem
  refine ⟨rest, ?_, ?_, hrest, fun i hi => ?_⟩
  · rw [StateT.run_bind, hrun]
    exact hrunNext
  · rw [StateT.run_bind, hstrict]
    exact hstrictNext
  · rw [hholds i hi]
    simp only [List.mem_append, or_left_comm, or_assoc]

/-- Going through a list takes, one after the other, what is taken for each entry. -/
theorem takes_mapM {numbers : α → List Nat} {computation : α → StateM Built β}
    {strict : α → StateT Built Option β} {value : α → β} (entries : List α)
    (h : ∀ entry ∈ entries,
      Takes parts first length (numbers entry) (computation entry) (strict entry) (value entry)) :
    Takes parts first length (entries.flatMap numbers) (entries.mapM computation)
      (entries.mapM strict) (entries.map value) := by
  induction entries with
  | nil => exact takes_pure []
  | cons entry rest ih =>
    rw [List.mapM_cons, List.mapM_cons, List.flatMap_cons, List.map_cons]
    refine (h entry List.mem_cons_self).bind ?_
    rw [← List.append_nil (rest.flatMap numbers)]
    exact (ih fun other hother => h other (List.mem_cons_of_mem _ hother)).bind (takes_pure _)

/-- Finishing a step takes the sequences that it refers to and puts them in. -/
theorem takes_finish (pending : Pending) :
    Takes parts first length pending.children (pending.finish first)
      (pending.finishBy (takeSequence? first)) (pending.nest parts) := by
  rw [finish_eq]
  cases pending with
  | action type fields => exact takes_pure _
  | branch type condition thenSequence elseIf elseSequence =>
    have hclause : ∀ c ∈ elseIf, Takes parts first length [c.2]
        (do return (c.1, ← takeSequence first c.2)) (do return (c.1, ← takeSequence? first c.2))
        (c.1, parts c.2) :=
      fun c _ => (takes_takeSequence c.2).bind (takes_pure _)
    have hclauses := takes_mapM elseIf hclause
    rw [← List.map_eq_flatMap] at hclauses
    exact hclauses.bind ((takes_takeSequence thenSequence).bind
      ((takes_takeSequence elseSequence).bind (takes_pure _)))

/-- Finishing the sequences of a table from a number on finds all those that it takes and leaves the
others, if every sequence refers to later ones and none is referred to twice. -/
theorem holds_assembleFrom (parts : Nat → List Step) (table : List (List Pending)) (first : Nat)
    (hparts : ∀ i pending, table[i]? = some pending →
      parts (first + i) = pending.map (Pending.nest parts))
    (hchildren : ∀ i pending, table[i]? = some pending →
      ∀ c ∈ children pending, first + i < c ∧ c < first + table.length)
    (hnodup : (table.flatMap children).Nodup) :
    assembleFrom? first table = some (assembleFrom first table) ∧
      (assembleFrom first table).length = table.length ∧
      Holds parts first (table.flatMap children) (assembleFrom first table) := by
  induction table generalizing first with
  | nil => exact ⟨rfl, rfl, fun i hi => absurd hi (Nat.not_lt_zero i)⟩
  | cons pending rest ih =>
    rw [List.flatMap_cons, List.nodup_append] at hnodup
    obtain ⟨hpendingNodup, hrestNodup, hdisjoint⟩ := hnodup
    have hshift : ∀ i, first + 1 + i = first + (i + 1) := fun i => by omega
    -- Later sequences are finished first, and refer only to ones that are later still.
    obtain ⟨hfound, hlength, hholds⟩ := ih (first + 1)
      (fun i later hlater => by rw [hshift]; exact hparts (i + 1) later hlater)
      (fun i later hlater c hc => by
        have := hchildren (i + 1) later hlater c hc
        rw [List.length_cons] at this
        omega)
      hrestNodup
    obtain ⟨built, hrun, hstrict, hbuilt, hholds⟩ :=
      takes_mapM pending (fun step _ => takes_finish step) _ _ hholds hlength hpendingNodup
        fun c hc => by
          have := hchildren 0 pending rfl c hc
          rw [List.length_cons] at this
          exact ⟨by omega, by omega, fun hmem => hdisjoint c hc c hmem rfl⟩
    have hassemble : assembleFrom first (pending :: rest) =
        some (pending.map (Pending.nest parts)) :: built := by
      rw [assembleFrom, hrun]
    have hassemble? : assembleFrom? first (pending :: rest) =
        some (some (pending.map (Pending.nest parts)) :: built) := by
      rw [assembleFrom?, hfound, Option.bind_eq_bind, Option.bind_some, hstrict]
      rfl
    rw [hassemble, hassemble?]
    refine ⟨rfl, by simp [hbuilt], fun i hi => ?_⟩
    cases i with
    | zero =>
      -- No sequence refers to one that is not later, so nothing has taken the first.
      have hout : first ∉ (pending :: rest).flatMap children := by
        intro hmem
        obtain ⟨later, hlater, hc⟩ := List.mem_flatMap.1 hmem
        obtain ⟨j, hj⟩ := List.mem_iff_getElem?.1 hlater
        have := hchildren j later hj first hc
        omega
      rw [← hparts 0 pending rfl, Nat.add_zero, if_neg hout]
      rfl
    | succ i =>
      have hget := hholds i (by simpa using hi)
      rw [hshift] at hget
      rw [List.getElem?_cons_succ, hget, List.flatMap_cons]
      rfl

end Takes

/-- The numbers that a table in order refers to are those of its own sequences but the first. -/
theorem Nested.mem_children_iff {table : List (List Pending)} (h : Nested table) {c : Nat} :
    c ∈ table.flatMap children ↔ 0 < c ∧ c < table.length := by
  rw [h.once.mem_iff, List.mem_range'_1]
  omega

/-- The steps of a table in order refer only to sequences of the table. -/
theorem Nested.lt_length {table : List (List Pending)} (h : Nested table) {k : Nat}
    {pending : List Pending} (hk : table[k]? = some pending) {c : Nat}
    (hc : c ∈ children pending) : c < table.length :=
  (h.mem_children_iff.1 (List.mem_flatMap.2 ⟨pending, List.mem_of_getElem? hk, hc⟩)).2

/-- Assembling a table in order finds every sequence when it takes it, puts it in where it belongs
and leaves none. -/
theorem assemble?_eq_nested {table : List (List Pending)} (h : Nested table) (hne : table ≠ []) :
    assemble table = nested table 0 ∧
      assemble? table = some (nested table 0, List.replicate table.length none) := by
  have hpos : 0 < table.length := List.length_pos_iff.2 hne
  obtain ⟨hfound, hlength, hholds⟩ := holds_assembleFrom (nested table) table 0
    (fun i pending hi => by rw [Nat.zero_add]; exact h.nested_eq hi)
    (fun i pending hi c hc => by
      rw [Nat.zero_add, Nat.zero_add]
      exact ⟨h.deeper i pending hi c hc, h.lt_length hi hc⟩)
    (h.once.nodup_iff.2 List.nodup_range')
  have hroot : 0 ∉ table.flatMap children := fun hmem =>
    Nat.lt_irrefl 0 (h.mem_children_iff.1 hmem).1
  obtain ⟨rest, hrun, hstrict, hrest, hholds⟩ := takes_takeSequence 0 _ _ hholds hlength
    (by simp) fun c hc => by
      rw [List.mem_singleton.1 hc]
      exact ⟨Nat.le_refl 0, by omega, hroot⟩
  have hnone : rest = List.replicate table.length none := by
    refine List.ext_getElem? fun i => ?_
    rw [List.getElem?_replicate]
    split
    next hi =>
      have htaken : 0 + i ∈ [0] ++ table.flatMap children := by
        rw [List.mem_append, List.mem_singleton, h.mem_children_iff]
        omega
      rw [hholds i (hrest ▸ hi), if_pos htaken]
    next hi => exact List.getElem?_eq_none (by omega)
  constructor
  · rw [assemble, hrun]
  · rw [assemble?, hfound, Option.bind_eq_bind, Option.bind_some, hstrict, hnone]

/-- Assembling a table in order puts every sequence in where it belongs. -/
theorem assemble_eq_nested {table : List (List Pending)} (h : Nested table) (hne : table ≠ []) :
    assemble table = nested table 0 :=
  (assemble?_eq_nested h hne).1

/-! ## The table during a walk -/

/-- A step added to a sequence adds the sequences it refers to, and nothing else changes. -/
theorem children_modify_perm (table : List (List Pending)) {k : Nat} (hk : k < table.length)
    (step : Pending) :
    ((table.modify k (· ++ [step])).flatMap children).Perm
      (table.flatMap children ++ step.children) := by
  induction table generalizing k with
  | nil => exact absurd hk (Nat.not_lt_zero k)
  | cons pending rest ih =>
    cases k with
    | zero =>
      have hstep : children (pending ++ [step]) = children pending ++ step.children := by
        simp [children]
      rw [List.modify_zero_cons, List.flatMap_cons, List.flatMap_cons, hstep, List.append_assoc,
        List.append_assoc]
      exact List.perm_append_comm.append_left _
    | succ k =>
      rw [List.modify_succ_cons, List.flatMap_cons, List.flatMap_cons, List.append_assoc]
      exact (ih (Nat.lt_of_succ_lt_succ hk)).append_left _

/-- A table stays in order when new sequences are opened and a step is added that refers to just
these. -/
theorem Nested.grow {table : List (List Pending)} (h : Nested table) {k : Nat}
    (hk : k < table.length) {step : Pending} {count : Nat}
    (hchildren : step.children.Perm (List.range' table.length count)) :
    Nested ((table ++ List.replicate count []).modify k (· ++ [step])) where
  deeper j pending hj c hc := by
    have hbefore : ∀ old, (table ++ List.replicate count [])[j]? = some old →
        ∀ c ∈ children old, j < c := by
      intro old hold c hc
      rw [List.getElem?_append] at hold
      split at hold
      · exact h.deeper j old hold c hc
      · rw [List.eq_of_mem_replicate (List.mem_of_getElem? hold)] at hc
        cases hc
    rw [List.getElem?_modify] at hj
    obtain ⟨old, hold, rfl⟩ := Option.map_eq_some_iff.1 hj
    by_cases heq : k = j
    · rw [if_pos heq, children, List.flatMap_append, List.mem_append] at hc
      rcases hc with hc | hc
      · exact hbefore old hold c hc
      · rw [List.flatMap_cons, List.flatMap_nil, List.append_nil, hchildren.mem_iff] at hc
        have := List.mem_range'_1.1 hc
        omega
    · rw [if_neg heq] at hc
      exact hbefore old hold c hc
  once := by
    have hnew : (List.replicate count ([] : List Pending)).flatMap children = [] := by
      simp [children]
    have hlength : 1 + (table.length - 1) = table.length := by omega
    refine (children_modify_perm _ (by simp; omega) step).trans ?_
    rw [List.flatMap_append, hnew, List.append_nil]
    refine (h.once.append hchildren).trans (List.Perm.of_eq ?_)
    rw [List.length_modify, List.length_append, List.length_replicate]
    have happend := List.range'_append_1 (s := 1) (m := table.length - 1) (n := count)
    rw [hlength] at happend
    rw [happend]
    congr 1
    omega

/-- What holds at every step of a walk: the table is in order, and every task puts its step into one
of its sequences. -/
structure Sound (state : State) : Prop where
  nested : Nested state.sequences
  tasks : ∀ task ∈ state.tasks, task.sequence < state.sequences.length

/-- The tasks for some nodes whose steps go into one sequence. -/
def tasksInto (sequence : Nat) (targets : List String) : List Task := targets.map (⟨·, sequence⟩)

/-- The tasks for the nodes after the outputs of else-if clauses. -/
def clauseTasks (walk : Walk) (node : Node) (clauses : List Clause) : List Task :=
  clauses.flatMap fun c => tasksInto c.sequence (walk.targetsOf node (some c.output))

/-- The nodes after else-if clauses come before all other tasks, clause by clause. -/
theorem scheduleClauses_eq (walk : Walk) (node : Node) (clauses : List Clause) (state : State) :
    walk.scheduleClauses node clauses state =
      { state with tasks := walk.clauseTasks node clauses ++ state.tasks } := by
  induction clauses with
  | nil => rfl
  | cons clause rest ih =>
    have hcons : walk.scheduleClauses node (clause :: rest) state =
        (walk.scheduleClauses node rest state).schedule clause.sequence
          (walk.targetsOf node (some clause.output)) := rfl
    rw [hcons, ih]
    simp [State.schedule, clauseTasks, tasksInto]

/-- The clauses of a branch get one new sequence each, numbered in turn. -/
theorem map_sequence_clauses (walk : Walk) (definition : Definition) (node : Node)
    (elseIf : Option ElseIfPins) (first : Nat) :
    (walk.clauses definition node elseIf first).map (·.sequence) =
      List.range' first (walk.clauses definition node elseIf first).length := by
  cases elseIf with
  | none => rfl
  | some pins => simp [clauses, List.range'_eq_map_range, Function.comp_def]

/-- The step of a branch node, whose parts get the next numbers: first the sequence for the case
that the condition holds, then those of the clauses, then the one for the case that none holds. -/
def branchStep (walk : Walk) (node : Node) (type condition : String) (first : Nat)
    (clauses : List Clause) : Pending :=
  .branch type (walk.conditionAt node.id condition) first
    (clauses.map fun c => (c.condition, c.sequence)) (first + 1 + clauses.length)

/-- Expanding a branch opens a sequence for each of its parts, adds its step, and sets the tasks for
the nodes after its outputs: then, the clauses, else and what follows. -/
theorem expand_branch (walk : Walk) {definition : Definition} (node : Node) (sequence : Nat)
    (state : State) {type condition thenOut : String} {elseIf : Option ElseIfPins}
    {elseOut : String} {next : Option String} {clauses : List Clause}
    (hlowering : definition.lowering = .branch type condition thenOut elseIf elseOut next)
    (hclauses : walk.clauses definition node elseIf (state.sequences.length + 1) = clauses) :
    walk.expand definition node sequence state =
      { visited := state.visited
        sequences := (state.sequences ++ List.replicate (clauses.length + 2) []).modify sequence
          (· ++ [walk.branchStep node type condition state.sequences.length clauses])
        tasks := tasksInto state.sequences.length (walk.targetsOf node (some thenOut))
          ++ (walk.clauseTasks node clauses
          ++ (tasksInto (state.sequences.length + 1 + clauses.length)
              (walk.targetsOf node (some elseOut))
          ++ (tasksInto sequence (walk.targetsOf node (afterBranch thenOut elseOut next))
          ++ state.tasks))) } := by
  subst hclauses
  simp only [expand, hlowering, scheduleClauses_eq]
  rfl

/-- The step of a branch refers to just the sequences that were opened for it. -/
theorem children_branchStep_perm (walk : Walk) (node : Node) (type condition : String)
    {first : Nat} {clauses : List Clause}
    (hclauses : clauses.map (·.sequence) = List.range' (first + 1) clauses.length) :
    (walk.branchStep node type condition first clauses).children.Perm
      (List.range' first (clauses.length + 2)) := by
  have hmap : (clauses.map fun c => (c.condition, c.sequence)).map (·.2) =
      List.range' (first + 1) clauses.length := by
    rw [List.map_map]
    exact hclauses
  have hall : List.range' first (clauses.length + 2) =
      first :: (List.range' (first + 1) clauses.length ++ [first + 1 + clauses.length]) := by
    rw [List.range'_succ, List.range'_1_concat]
  rw [branchStep, Pending.children, hmap, hall]
  exact List.perm_middle

/-- Expanding a node whose step goes into a sequence of the table keeps the table in order. -/
theorem Sound.expand {state : State} (h : Sound state) (walk : Walk) (definition : Definition)
    (node : Node) {sequence : Nat} (hsequence : sequence < state.sequences.length) :
    Sound (walk.expand definition node sequence state) := by
  have hinto : ∀ {n k : Nat} {targets : List String}, k < n →
      ∀ task ∈ tasksInto k targets, task.sequence < n := by
    intro n k targets hk task htask
    obtain ⟨target, -, rfl⟩ := List.mem_map.1 htask
    exact hk
  cases hlowering : definition.lowering with
  | entry next =>
    simp only [Walk.expand, hlowering]
    refine ⟨h.nested, fun task htask => ?_⟩
    rcases List.mem_append.1 htask with htask | htask
    · exact hinto hsequence task htask
    · exact h.tasks task htask
  | step type fields next =>
    simp only [Walk.expand, hlowering]
    have hnone : (Pending.action type (actionFields definition node fields)).children.Perm
        (List.range' state.sequences.length 0) := List.Perm.refl _
    have hgrown := h.nested.grow hsequence hnone
    rw [List.replicate_zero, List.append_nil] at hgrown
    refine ⟨hgrown, fun task htask => ?_⟩
    simp only [State.schedule, State.emit, List.length_modify]
    rcases List.mem_append.1 htask with htask | htask
    · exact hinto hsequence task htask
    · exact h.tasks task htask
  | branch type condition thenOut elseIf elseOut next =>
    have hnumbers := walk.map_sequence_clauses definition node elseIf (state.sequences.length + 1)
    rw [walk.expand_branch node sequence state hlowering rfl]
    generalize walk.clauses definition node elseIf (state.sequences.length + 1) = clauses
      at hnumbers
    -- The tasks are for the sequences just opened or the one the step goes into, or were there
    -- before.
    refine ⟨h.nested.grow hsequence (walk.children_branchStep_perm node type condition hnumbers),
      fun task htask => ?_⟩
    simp only [List.length_modify, List.length_append, List.length_replicate]
    simp only [List.mem_append] at htask
    rcases htask with htask | htask | htask | htask | htask
    · exact hinto (by omega) task htask
    · obtain ⟨clause, hclause, htask⟩ := List.mem_flatMap.1 htask
      have := List.mem_range'_1.1 (hnumbers ▸ List.mem_map_of_mem hclause)
      exact hinto (by omega) task htask
    · exact hinto (by omega) task htask
    · exact hinto (by omega) task htask
    · have := h.tasks task htask
      omega
  | literal field =>
    simp only [Walk.expand, hlowering]
    exact h
  | data =>
    simp only [Walk.expand, hlowering]
    exact h

/-- Performing a task keeps the table in order. -/
theorem Sound.perform {state : State} (h : Sound state) (walk : Walk) {task : Task}
    (htask : task.sequence < state.sequences.length) : Sound (walk.perform state task) := by
  have hvisit : Sound (state.visit task.nodeId) := ⟨h.nested, h.tasks⟩
  unfold Walk.perform
  split
  · exact h
  · exact hvisit
  · exact hvisit.expand walk _ _ htask

/-- The next task leaves the table in order. -/
theorem Sound.performNext {state : State} (h : Sound state) (walk : Walk) {task : Task}
    {rest : List Task} (htasks : state.tasks = task :: rest) :
    Sound (walk.perform { state with tasks := rest } task) := by
  have hrest : Sound { state with tasks := rest } :=
    ⟨h.nested, fun other hother => h.tasks other (htasks ▸ List.mem_cons_of_mem _ hother)⟩
  exact hrest.perform walk (h.tasks task (htasks ▸ List.mem_cons_self))

/-- A walk that begins with a table in order ends with one: every task keeps it so. -/
theorem Sound.run {walk : Walk} {state : State} (h : Sound state) : Sound (walk.run state) := by
  fun_induction Walk.run walk state with
  | case1 state htasks => exact h
  | case2 state task rest htasks ih => exact ih (h.performNext walk htasks)

/-- At first there is one sequence, and one task, which puts its step there. -/
theorem sound_initial (start : String) : Sound (initial start) := by
  refine ⟨⟨?_, ?_⟩, ?_⟩
  · intro k pending hk c hc
    have hempty : pending = [] := by simpa [initial] using List.mem_of_getElem? hk
    subst hempty
    cases hc
  · exact List.Perm.refl _
  · simp [initial]

/-- At the end of a walk from a node the table is in order. -/
theorem sound_run_initial (walk : Walk) (start : String) :
    Sound (walk.run (initial start)) :=
  (sound_initial start).run

end Walk

end AbilityGraph
