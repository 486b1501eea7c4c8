import AbilityGraph.Compile
import AbilityGraph.Proofs.Compile.Sequences
import Mathlib.Logic.Relation

/-!
# Lowering depth first

The walk over the control flow keeps a stack of tasks and a table of sequences. Here the same steps
are found by plain recursion: a node is lowered to its own step, in which the parts of a branch are
lowered in turn, and the nodes after it, while the set of visited node ids is handed on
(`lowerNode`, `lowerAll`, `lowerClauses`).

The two agree on every graph (`lower_depth_first`). The tasks for some nodes, wherever they stand on
the stack, add to their sequence just the steps that these nodes are lowered to (`Adds`), and leave
the tasks below them as they are.
-/

set_option autoImplicit false

namespace AbilityGraph

namespace Walk

/-! ## The recursion -/

/-- What nodes are lowered to after some ids were visited: a result, and the ids visited then. -/
structure Lowered (walk : Walk) (visited : List String) (α : Type) where
  result : α
  seen : List String
  unvisited_le : walk.unvisited seen ≤ walk.unvisited visited

/-- Handing on the visited ids leaves no more nodes unvisited, for a task of smaller size. -/
theorem Lowered.decreases {walk : Walk} {visited : List String} {α : Type}
    (first : Lowered walk visited α) (kind : Nat) {size total : Nat} (h : size < total) :
    Prod.Lex (· < ·) (Prod.Lex (· < ·) (· < ·)) (walk.unvisited first.seen, kind, size)
      (walk.unvisited visited, kind, total) := by
  rcases Nat.lt_or_eq_of_le first.unvisited_le with hlt | heq
  · exact .left _ _ hlt
  · rw [heq]
    exact .right _ (.right _ h)

/-- The else-if clauses of a branch node in the order of their slots: the condition of each, and the
output after which its steps come. -/
def clauseOutputs (walk : Walk) (definition : Definition) (node : Node)
    (elseIf : Option ElseIfPins) : List (Condition × String) :=
  match elseIf with
  | none => []
  | some pins => (List.range (definition.slotCount node.config)).map fun index =>
    (walk.conditionAt node.id (substitute pins.condition index), substitute pins.thenOut index)

mutual

/-- The steps that a node id is lowered to: its own step, if it was not visited before and is that
of a node of a known type, and those of the nodes after it. -/
def lowerNode (walk : Walk) (visited : List String) (nodeId : String) :
    Lowered walk visited (List Step) :=
  have hle := walk.unvisited_cons_le visited nodeId
  match _harrive : walk.arrive visited nodeId with
  | .visited => ⟨[], visited, Nat.le_refl _⟩
  | .nothing => ⟨[], nodeId :: visited, hle⟩
  | .node definition node =>
    match definition.lowering with
    | .entry next =>
      let after := lowerAll walk (nodeId :: visited) (walk.targetsOf node (some next))
      ⟨after.result, after.seen, Nat.le_trans after.unvisited_le hle⟩
    | .step type fields next =>
      let after := lowerAll walk (nodeId :: visited) (walk.targetsOf node next)
      ⟨.action type (actionFields definition node fields) :: after.result, after.seen,
        Nat.le_trans after.unvisited_le hle⟩
    | .branch type condition thenOut elseIf elseOut next =>
      let thenPart := lowerAll walk (nodeId :: visited) (walk.targetsOf node (some thenOut))
      let clauses := lowerClauses walk thenPart.seen node
        (walk.clauseOutputs definition node elseIf)
      let elsePart := lowerAll walk clauses.seen (walk.targetsOf node (some elseOut))
      let after := lowerAll walk elsePart.seen
        (walk.targetsOf node (afterBranch thenOut elseOut next))
      ⟨.branch type (walk.conditionAt node.id condition) thenPart.result clauses.result
          elsePart.result :: after.result,
        after.seen,
        Nat.le_trans after.unvisited_le (Nat.le_trans elsePart.unvisited_le
          (Nat.le_trans clauses.unvisited_le (Nat.le_trans thenPart.unvisited_le hle)))⟩
    | .literal _ => ⟨[], nodeId :: visited, hle⟩
    | .data => ⟨[], nodeId :: visited, hle⟩
termination_by (walk.unvisited visited, 0, 0)
decreasing_by
  all_goals
    have hlt := unvisited_lt_of_arrive _harrive
    refine .left _ _ ?_
  · exact hlt
  · exact hlt
  · exact hlt
  · exact Nat.lt_of_le_of_lt thenPart.unvisited_le hlt
  · exact Nat.lt_of_le_of_lt (Nat.le_trans clauses.unvisited_le thenPart.unvisited_le) hlt
  · exact Nat.lt_of_le_of_lt (Nat.le_trans elsePart.unvisited_le
      (Nat.le_trans clauses.unvisited_le thenPart.unvisited_le)) hlt

/-- The steps that node ids are lowered to, one after the other. -/
def lowerAll (walk : Walk) (visited : List String) (nodeIds : List String) :
    Lowered walk visited (List Step) :=
  match nodeIds with
  | [] => ⟨[], visited, Nat.le_refl _⟩
  | nodeId :: rest =>
    let first := lowerNode walk visited nodeId
    let others := lowerAll walk first.seen rest
    ⟨first.result ++ others.result, others.seen,
      Nat.le_trans others.unvisited_le first.unvisited_le⟩
termination_by (walk.unvisited visited, 1, nodeIds.length)
decreasing_by
  · exact .right _ (.left _ _ Nat.zero_lt_one)
  · exact first.decreases _ (Nat.lt_succ_self _)

/-- The parts of else-if clauses, one after the other. -/
def lowerClauses (walk : Walk) (visited : List String) (node : Node)
    (clauses : List (Condition × String)) : Lowered walk visited (List (Condition × List Step)) :=
  match clauses with
  | [] => ⟨[], visited, Nat.le_refl _⟩
  | (condition, output) :: rest =>
    let first := lowerAll walk visited (walk.targetsOf node (some output))
    let others := lowerClauses walk first.seen node rest
    ⟨(condition, first.result) :: others.result, others.seen,
      Nat.le_trans others.unvisited_le first.unvisited_le⟩
termination_by (walk.unvisited visited, 2, clauses.length)
decreasing_by
  · exact .right _ (.left _ _ (Nat.lt_succ_self _))
  · exact first.decreases _ (Nat.lt_succ_self _)

end

/-! ## What tasks add -/

/-- The walk carries out the given tasks, with whatever others below them, and then goes on with
these: the visited ids and the table of sequences change as given. -/
def Ends (walk : Walk) (tasks : List Task) (visited seen : List String)
    (before after : List (List Pending)) : Prop :=
  ∀ rest, walk.run ⟨visited, before, tasks ++ rest⟩ = walk.run ⟨seen, after, rest⟩

/-- If tasks come to an end from where others have ended, then they come to an end one after the
other. -/
theorem Ends.append {walk : Walk} {tasks others : List Task} {visited seen later : List String}
    {before middle after : List (List Pending)} (h : Ends walk tasks visited seen before middle)
    (hothers : Ends walk others seen later middle after) :
    Ends walk (tasks ++ others) visited later before after := by
  intro rest
  rw [List.append_assoc, h (others ++ rest)]
  exact hothers rest

/-- A task is carried out before those below it. -/
theorem Ends.cons {walk : Walk} {task : Task} {tasks : List Task} {visited seen : List String}
    {before after : List (List Pending)}
    (h : ∀ rest, walk.run (walk.perform ⟨visited, before, rest⟩ task) =
      walk.run ⟨seen, after, tasks ++ rest⟩) {later : List String} {last : List (List Pending)}
    (htasks : Ends walk tasks seen later after last) :
    Ends walk [task] visited later before last := by
  intro rest
  have hrun : walk.run ⟨visited, before, task :: rest⟩ =
      walk.run (walk.perform ⟨visited, before, rest⟩ task) := by
    rw [run]
  rw [List.cons_append, List.nil_append, hrun, h rest]
  exact htasks rest

/-- The steps that some entries, each with the number of a sequence, have for a sequence. -/
def stepsAt (entries : List (Nat × List Step)) (k : Nat) : List Step :=
  entries.flatMap fun entry => if entry.1 = k then entry.2 else []

/-- Entries have for a sequence what the first of them have, and then what the others have. -/
@[simp]
theorem stepsAt_append (entries others : List (Nat × List Step)) (k : Nat) :
    stepsAt (entries ++ others) k = stepsAt entries k ++ stepsAt others k :=
  List.flatMap_append

/-- Entries for other sequences have nothing for a sequence. -/
theorem stepsAt_eq_nil {entries : List (Nat × List Step)} {k : Nat}
    (h : ∀ entry ∈ entries, entry.1 ≠ k) : stepsAt entries k = [] := by
  rw [stepsAt, List.flatMap_eq_nil_iff]
  intro entry hentry
  exact if_neg (h entry hentry)

/-- If all entries are for different sequences, then each has all there is for its own. -/
theorem stepsAt_of_mem {entries : List (Nat × List Step)} (hnodup : (entries.map (·.1)).Nodup)
    {entry : Nat × List Step} (hentry : entry ∈ entries) : stepsAt entries entry.1 = entry.2 := by
  induction entries with
  | nil => cases hentry
  | cons first rest ih =>
    rw [List.map_cons, List.nodup_cons] at hnodup
    have hcons : ∀ k, stepsAt (first :: rest) k =
        (if first.1 = k then first.2 else []) ++ stepsAt rest k := fun _ => rfl
    rw [hcons]
    rcases List.mem_cons.1 hentry with rfl | hentry
    · have hrest : stepsAt rest entry.1 = [] :=
        stepsAt_eq_nil fun other hother heq => hnodup.1 (heq ▸ List.mem_map_of_mem hother)
      rw [if_pos rfl, hrest, List.append_nil]
    · have hne : first.1 ≠ entry.1 := fun heq => hnodup.1 (heq ▸ List.mem_map_of_mem hentry)
      rw [if_neg hne, ih hnodup.2 hentry, List.nil_append]

/-- The given parts are the sequences of a table from a number on, with their own parts put in. -/
def Fits (parts : Nat → List Step) (first : Nat) (table : List (List Pending)) : Prop :=
  ∀ k pending, first ≤ k → table[k]? = some pending → parts k = pending.map (Pending.nest parts)

/-- The tasks come to an end whatever the table of sequences is. They add just the given steps to
its sequences, once the parts of these are put in, and may open new sequences after them. -/
def Adds (walk : Walk) (tasks : List Task) (visited seen : List String)
    (entries : List (Nat × List Step)) : Prop :=
  ∀ table, (∀ entry ∈ entries, entry.1 < table.length) →
    ∃ (after : List (List Pending)) (new : Nat → List Pending),
      Ends walk tasks visited seen table after ∧ table.length ≤ after.length ∧
      (∀ k, k < table.length → after[k]? = table[k]?.map (· ++ new k)) ∧
      ∀ parts, Fits parts table.length after →
        ∀ k, k < table.length → (new k).map (Pending.nest parts) = stepsAt entries k

section Adds

variable {walk : Walk} {visited seen later : List String}

/-- What tasks add may be said by any entries that have the same steps for each sequence. -/
theorem Adds.congr {tasks : List Task} {entries others : List (Nat × List Step)}
    (h : Adds walk tasks visited seen entries)
    (hkeys : ∀ entry ∈ entries, ∃ other ∈ others, other.1 = entry.1)
    (hsteps : ∀ k, stepsAt entries k = stepsAt others k) :
    Adds walk tasks visited seen others := by
  intro table hothers
  obtain ⟨after, new, hends, hlength, hnew, hfits⟩ := h table fun entry hentry => by
    obtain ⟨other, hother, heq⟩ := hkeys entry hentry
    exact heq ▸ hothers other hother
  refine ⟨after, new, hends, hlength, hnew, fun parts hparts k hk => ?_⟩
  rw [hfits parts hparts k hk, hsteps]

/-- No tasks add nothing. -/
theorem adds_nil {entries : List (Nat × List Step)} (hentries : ∀ k, stepsAt entries k = []) :
    Adds walk [] visited visited entries := by
  intro table _
  refine ⟨table, fun _ => [], fun rest => rfl, Nat.le_refl _, ?_, ?_⟩
  · intro k hk
    simp
  · intro parts _ k _
    rw [hentries]
    rfl

/-- Tasks add their steps before those below them. -/
theorem Adds.append {tasks others : List Task} {entries more : List (Nat × List Step)}
    (h : Adds walk tasks visited seen entries) (hothers : Adds walk others seen later more) :
    Adds walk (tasks ++ others) visited later (entries ++ more) := by
  intro table hkeys
  have hmoreKeys : ∀ entry ∈ more, entry.1 < table.length :=
    fun entry hentry => hkeys entry (List.mem_append_right _ hentry)
  obtain ⟨middle, new, hends, hlength, hnew, hfits⟩ :=
    h table fun entry hentry => hkeys entry (List.mem_append_left _ hentry)
  obtain ⟨after, newer, hendsOthers, hlengthOthers, hnewer, hfitsOthers⟩ :=
    hothers middle fun entry hentry => Nat.lt_of_lt_of_le (hmoreKeys entry hentry) hlength
  refine ⟨after, fun k => new k ++ newer k, hends.append hendsOthers,
    Nat.le_trans hlength hlengthOthers, ?_, ?_⟩
  · intro k hk
    rw [hnewer k (Nat.lt_of_lt_of_le hk hlength), hnew k hk, Option.map_map]
    congr 1
    funext pending
    exact List.append_assoc ..
  · intro parts hparts k hk
    have hpartsAfter : Fits parts middle.length after :=
      fun j pending hj hpending => hparts j pending (Nat.le_trans hlength hj) hpending
    -- The tasks below add nothing to the sequences that those above have opened.
    have hpartsMiddle : Fits parts table.length middle := by
      intro j pending hj hpending
      have hlt : j < middle.length := (List.getElem?_eq_some_iff.1 hpending).1
      have hnone : stepsAt more j = [] :=
        stepsAt_eq_nil fun entry hentry heq => by
          have := hmoreKeys entry hentry
          omega
      have hempty : newer j = [] := by
        have := hfitsOthers parts hpartsAfter j hlt
        rw [hnone] at this
        exact List.map_eq_nil_iff.1 this
      apply hparts j pending hj
      rw [hnewer j hlt, hpending, hempty]
      simp
    rw [List.map_append, hfits parts hpartsMiddle k hk,
      hfitsOthers parts hpartsAfter k (Nat.lt_of_lt_of_le hk hlength), stepsAt_append]

/-- Steps added to one sequence one after the other. -/
theorem Adds.append_same {tasks others : List Task} {q : Nat} {steps more : List Step}
    (h : Adds walk tasks visited seen [(q, steps)])
    (hothers : Adds walk others seen later [(q, more)]) :
    Adds walk (tasks ++ others) visited later [(q, steps ++ more)] := by
  refine (h.append hothers).congr ?_ ?_
  · intro entry hentry
    refine ⟨(q, steps ++ more), List.mem_cons_self, ?_⟩
    simp at hentry
    rcases hentry with rfl | rfl <;> rfl
  · intro k
    by_cases hk : q = k <;> simp [stepsAt, hk]

/-! ## One node -/

/-- A task at which nothing is found adds nothing. -/
theorem adds_of_perform_eq {task : Task} {entries : List (Nat × List Step)}
    (hentries : ∀ k, stepsAt entries k = [])
    (h : ∀ table rest, walk.perform ⟨visited, table, rest⟩ task = ⟨seen, table, rest⟩) :
    Adds walk [task] visited seen entries := by
  intro table hkeys
  have hnil : Adds walk [] seen seen entries := adds_nil hentries
  obtain ⟨after, new, hends, hrest⟩ := hnil table hkeys
  refine ⟨after, new, Ends.cons (fun rest => ?_) hends, hrest⟩
  rw [h]
  rfl

/-- A task for a node without a step adds what the tasks add that it schedules. -/
theorem adds_of_schedule {task : Task} {tasks : List Task} {entries : List (Nat × List Step)}
    (h : ∀ table rest, walk.perform ⟨visited, table, rest⟩ task = ⟨seen, table, tasks ++ rest⟩)
    (htasks : Adds walk tasks seen later entries) : Adds walk [task] visited later entries := by
  intro table hkeys
  obtain ⟨after, new, hends, hrest⟩ := htasks table hkeys
  refine ⟨after, new, Ends.cons (fun rest => ?_) hends, hrest⟩
  rw [h]

/-- A task for a node with a step opens sequences for the parts of the step and adds the step, and
after it what the tasks add that it schedules. -/
theorem adds_of_emit {task : Task} (count : Nat) (step : Nat → Pending)
    (entries : Nat → List (Nat × List Step)) (tasks : Nat → List Task) {result : Step}
    {steps : List Step}
    (h : ∀ table rest, walk.perform ⟨visited, table, rest⟩ task =
      ⟨seen, (table ++ List.replicate count []).modify task.sequence (· ++ [step table.length]),
        tasks table.length ++ rest⟩)
    (htasks : ∀ first, Adds walk (tasks first) seen later
      (entries first ++ [(task.sequence, steps)]))
    (hkeys : ∀ first, (entries first).map (·.1) = List.range' first count)
    (hresult : ∀ parts first, (∀ entry ∈ entries first, parts entry.1 = entry.2) →
      (step first).nest parts = result) :
    Adds walk [task] visited later [(task.sequence, result :: steps)] := by
  intro table hrange
  have hsequence : task.sequence < table.length := hrange _ List.mem_cons_self
  -- The sequences that the task opens for the parts come after all that were there, so none of them
  -- is the one into which the step goes.
  have hentryRange : ∀ entry ∈ entries table.length,
      table.length ≤ entry.1 ∧ entry.1 < table.length + count := by
    intro entry hentry
    have hmem := List.mem_map_of_mem (f := (·.1)) hentry
    rw [hkeys] at hmem
    exact List.mem_range'_1.1 hmem
  have hgrownLength : ((table ++ List.replicate count []).modify task.sequence
      (· ++ [step table.length])).length = table.length + count := by
    simp
  obtain ⟨after, new, hends, hlength, hnew, hfits⟩ := htasks table.length
    ((table ++ List.replicate count []).modify task.sequence (· ++ [step table.length])) (by
      intro entry hentry
      rw [hgrownLength]
      rcases List.mem_append.1 hentry with hentry | hentry
      · exact (hentryRange entry hentry).2
      · rw [List.mem_singleton.1 hentry]
        exact Nat.lt_of_lt_of_le hsequence (Nat.le_add_right ..))
  rw [hgrownLength] at hlength hnew hfits
  refine ⟨after, fun k => if task.sequence = k then step table.length :: new k else new k,
    Ends.cons (fun rest => ?_) hends, by omega, ?_, ?_⟩
  · rw [h]
  · intro k hk
    rw [hnew k (by omega), List.getElem?_modify, List.getElem?_append_left hk]
    by_cases heq : task.sequence = k <;> simp [heq, Function.comp_def]
  · intro parts hparts k hk
    have hall := hfits parts fun j pending hj => hparts j pending (by omega)
    have hentries : stepsAt (entries table.length) k = [] :=
      stepsAt_eq_nil fun entry hentry heq => by
        have := (hentryRange entry hentry).1
        omega
    have hsteps := hall k (by omega)
    rw [stepsAt_append, hentries, List.nil_append] at hsteps
    by_cases heq : task.sequence = k
    · -- The parts of the step are the sequences opened for it, which hold just what the tasks add.
      have hstep : (step table.length).nest parts = result := by
        apply hresult parts table.length
        intro entry hentry
        obtain ⟨hle, hlt⟩ := hentryRange entry hentry
        have hempty : (table ++ List.replicate count ([] : List Pending))[entry.1]? = some [] := by
          rw [List.getElem?_append_right hle, List.getElem?_replicate, if_pos (by omega)]
        have hget : after[entry.1]? = some (new entry.1) := by
          have hne : task.sequence ≠ entry.1 := by omega
          rw [hnew entry.1 hlt, List.getElem?_modify, hempty]
          simp [hne]
        have hnodup : ((entries table.length).map (·.1)).Nodup := by
          rw [hkeys]
          exact List.nodup_range'
        have hown : stepsAt [(task.sequence, steps)] entry.1 = [] :=
          stepsAt_eq_nil fun other hother => by
            rw [List.mem_singleton.1 hother]
            show task.sequence ≠ entry.1
            omega
        rw [hparts entry.1 _ hle hget, hall entry.1 hlt, stepsAt_append, hown, List.append_nil]
        exact stepsAt_of_mem hnodup hentry
      simp [stepsAt, heq] at hsteps ⊢
      exact ⟨hstep, hsteps⟩
    · simpa [stepsAt, heq] using hsteps

end Adds

/-! ## The whole recursion -/

/-- A task for a node that was visited before changes nothing. -/
theorem perform_of_visited {walk : Walk} {visited : List String} {nodeId : String}
    (harrive : walk.arrive visited nodeId = .visited) (q : Nat) (table : List (List Pending))
    (rest : List Task) :
    walk.perform ⟨visited, table, rest⟩ ⟨nodeId, q⟩ = ⟨visited, table, rest⟩ := by
  simp only [perform, harrive]

/-- A task for an id without a node of a known type only visits the id. -/
theorem perform_of_nothing {walk : Walk} {visited : List String} {nodeId : String}
    (harrive : walk.arrive visited nodeId = .nothing) (q : Nat) (table : List (List Pending))
    (rest : List Task) :
    walk.perform ⟨visited, table, rest⟩ ⟨nodeId, q⟩ = ⟨nodeId :: visited, table, rest⟩ := by
  simp only [perform, harrive]
  rfl

/-- A task for a node visits it and emits its step. -/
theorem perform_of_node {walk : Walk} {visited : List String} {nodeId : String} {node : Node}
    {definition : Definition} (harrive : walk.arrive visited nodeId = .node definition node)
    (q : Nat) (table : List (List Pending)) (rest : List Task) :
    walk.perform ⟨visited, table, rest⟩ ⟨nodeId, q⟩ =
      walk.expand definition node q ⟨nodeId :: visited, table, rest⟩ := by
  simp only [perform, harrive]
  rfl

/-- The clauses of a branch node, without the numbers of their sequences. -/
theorem map_clauses (walk : Walk) (definition : Definition) (node : Node)
    (elseIf : Option ElseIfPins) (first : Nat) :
    (walk.clauses definition node elseIf first).map (fun c => (c.condition, c.output)) =
      walk.clauseOutputs definition node elseIf := by
  cases elseIf with
  | none => rfl
  | some pins => simp [clauses, clauseOutputs]

/-- The sequences of clauses, with the steps of these. -/
def clauseEntries (walk : Walk) (visited : List String) (node : Node) (clauses : List Clause) :
    List (Nat × List Step) :=
  (clauses.map (·.sequence)).zip
    ((walk.lowerClauses visited node
      (clauses.map fun c => (c.condition, c.output))).result.map (·.2))

/-- Each else-if clause is lowered to one clause. -/
theorem length_lowerClauses (walk : Walk) (visited : List String) (node : Node)
    (outputs : List (Condition × String)) :
    (walk.lowerClauses visited node outputs).result.length = outputs.length := by
  induction outputs generalizing visited with
  | nil =>
    rw [lowerClauses]
    rfl
  | cons clause rest ih =>
    rw [lowerClauses]
    exact congrArg (· + 1) (ih _)

/-- The first clause has the steps of the nodes after its output, and the others are lowered with
the ids visited then. -/
theorem clauseEntries_cons (walk : Walk) (visited : List String) (node : Node) (clause : Clause)
    (rest : List Clause) :
    walk.clauseEntries visited node (clause :: rest) =
      (clause.sequence,
          (walk.lowerAll visited (walk.targetsOf node (some clause.output))).result) ::
        walk.clauseEntries (walk.lowerAll visited (walk.targetsOf node (some clause.output))).seen
          node rest := by
  simp only [clauseEntries, List.map_cons]
  rw [lowerClauses]
  rfl

/-- The entries for else-if clauses are for the sequences of these. -/
theorem map_fst_clauseEntries (walk : Walk) (visited : List String) (node : Node)
    (clauses : List Clause) :
    (walk.clauseEntries visited node clauses).map (·.1) = clauses.map (·.sequence) := by
  rw [clauseEntries, List.map_fst_zip]
  simp [length_lowerClauses]

/-- Clauses whose sequences hold the steps of these. -/
theorem map_parts_clauses {walk : Walk} {visited : List String} {node : Node}
    {clauses : List Clause} {parts : Nat → List Step}
    (h : ∀ entry ∈ walk.clauseEntries visited node clauses, parts entry.1 = entry.2) :
    clauses.map (fun c => (c.condition, parts c.sequence)) =
      (walk.lowerClauses visited node (clauses.map fun c => (c.condition, c.output))).result := by
  induction clauses generalizing visited with
  | nil =>
    rw [List.map_nil, List.map_nil, lowerClauses]
  | cons clause rest ih =>
    rw [clauseEntries_cons] at h
    have hfirst := h _ List.mem_cons_self
    have hrest := ih fun entry hentry => h entry (List.mem_cons_of_mem _ hentry)
    rw [List.map_cons, List.map_cons, lowerClauses, hfirst, hrest]

/-- A task for a branch node adds the step whose parts are what the nodes after its own outputs are
lowered to. -/
theorem adds_of_branch {walk : Walk} {visited seen : List String} {nodeId : String}
    {node : Node} {definition : Definition} {type condition thenOut : String}
    {elseIf : Option ElseIfPins} {elseOut : String} {next : Option String} {q : Nat}
    {thenSteps elseSteps steps : List Step} {afterThen afterClauses : List String}
    (harrive : walk.arrive visited nodeId = .node definition node)
    (hlowering : definition.lowering = .branch type condition thenOut elseIf elseOut next)
    (hthen : ∀ k, Adds walk (tasksInto k (walk.targetsOf node (some thenOut)))
      (nodeId :: visited) afterThen [(k, thenSteps)])
    (hclauses : ∀ first, Adds walk
      (walk.clauseTasks node (walk.clauses definition node elseIf first)) afterThen
      (walk.lowerClauses afterThen node (walk.clauseOutputs definition node elseIf)).seen
      (walk.clauseEntries afterThen node (walk.clauses definition node elseIf first)))
    (helse : ∀ k, Adds walk (tasksInto k (walk.targetsOf node (some elseOut)))
      (walk.lowerClauses afterThen node (walk.clauseOutputs definition node elseIf)).seen
      afterClauses [(k, elseSteps)])
    (hnext : Adds walk (tasksInto q (walk.targetsOf node (afterBranch thenOut elseOut next)))
      afterClauses seen [(q, steps)]) :
    Adds walk [⟨nodeId, q⟩] visited seen
      [(q, .branch type (walk.conditionAt node.id condition) thenSteps
        (walk.lowerClauses afterThen node (walk.clauseOutputs definition node elseIf)).result
        elseSteps :: steps)] := by
  have hlength : ∀ first, (walk.clauses definition node elseIf first).length =
      (walk.clauseOutputs definition node elseIf).length := by
    intro first
    rw [← walk.map_clauses definition node elseIf first, List.length_map]
  generalize (walk.clauseOutputs definition node elseIf).length = count at hlength
  have hperform : ∀ table rest, walk.perform ⟨visited, table, rest⟩ ⟨nodeId, q⟩ =
      ⟨nodeId :: visited, (table ++ List.replicate (count + 2) []).modify q
        (· ++ [walk.branchStep node type condition table.length
          (walk.clauses definition node elseIf (table.length + 1))]),
        (tasksInto table.length (walk.targetsOf node (some thenOut))
          ++ (walk.clauseTasks node (walk.clauses definition node elseIf (table.length + 1))
          ++ (tasksInto (table.length + 1 + count) (walk.targetsOf node (some elseOut))
          ++ tasksInto q (walk.targetsOf node (afterBranch thenOut elseOut next))))) ++ rest⟩ := by
    intro table rest
    rw [perform_of_node harrive, walk.expand_branch node q _ hlowering rfl]
    simp only [hlength, List.append_assoc]
  -- The new sequences are those of the then part, of the clauses and of the else part, in this
  -- order.
  refine adds_of_emit (count + 2)
    (fun first => walk.branchStep node type condition first
      (walk.clauses definition node elseIf (first + 1)))
    (fun first => (first, thenSteps) ::
      (walk.clauseEntries afterThen node (walk.clauses definition node elseIf (first + 1))
        ++ [(first + 1 + count, elseSteps)]))
    (fun first => tasksInto first (walk.targetsOf node (some thenOut))
      ++ (walk.clauseTasks node (walk.clauses definition node elseIf (first + 1))
      ++ (tasksInto (first + 1 + count) (walk.targetsOf node (some elseOut))
      ++ tasksInto q (walk.targetsOf node (afterBranch thenOut elseOut next)))))
    hperform ?_ ?_ ?_
  · intro first
    have hall := (hthen first).append ((hclauses (first + 1)).append
      ((helse (first + 1 + count)).append hnext))
    simpa using hall
  · intro first
    rw [List.map_cons, List.map_append, map_fst_clauseEntries, map_sequence_clauses, hlength]
    show first :: (List.range' (first + 1) count ++ [first + 1 + count]) = _
    rw [← List.range'_1_concat, ← List.range'_succ]
  · intro parts first hparts
    have hclauseParts := map_parts_clauses fun entry hentry =>
      hparts entry (List.mem_cons_of_mem _ (List.mem_append_left _ hentry))
    have hthenParts := hparts (first, thenSteps) List.mem_cons_self
    have helseParts := hparts (first + 1 + count, elseSteps) (by simp)
    rw [map_clauses] at hclauseParts
    rw [branchStep, Pending.nest, List.map_map, hlength]
    simp only [Function.comp_def, hclauseParts, hthenParts, helseParts]

mutual

/-- A task for a node adds what the node is lowered to. The proof goes by the recursion of
`lowerNode`, with one case for each way in which a node is lowered. -/
theorem adds_lowerNode (walk : Walk) (visited : List String) (nodeId : String) (q : Nat) :
    Adds walk [⟨nodeId, q⟩] visited (walk.lowerNode visited nodeId).seen
      [(q, (walk.lowerNode visited nodeId).result)] := by
  rw [lowerNode]
  split
  next harrive => exact adds_of_perform_eq (by simp [stepsAt]) (perform_of_visited harrive q)
  next harrive => exact adds_of_perform_eq (by simp [stepsAt]) (perform_of_nothing harrive q)
  next definition node harrive =>
    have hlt := unvisited_lt_of_arrive harrive
    split
    next next hlowering =>
      refine adds_of_schedule (fun table rest => ?_)
        (adds_lowerAll walk (nodeId :: visited) (walk.targetsOf node (some next)) q)
      rw [perform_of_node harrive, expand, hlowering]
      rfl
    next type fields next hlowering =>
      have hafter := adds_lowerAll walk (nodeId :: visited) (walk.targetsOf node next) q
      refine adds_of_emit 0 (fun _ => .action type (actionFields definition node fields))
        (fun _ => []) (fun _ => tasksInto q (walk.targetsOf node next)) (fun table rest => ?_)
        (fun _ => hafter) (fun _ => rfl) (fun _ _ _ => rfl)
      rw [perform_of_node harrive, expand, hlowering, List.replicate_zero, List.append_nil]
      rfl
    next type condition thenOut elseIf elseOut next hlowering =>
      dsimp only
      -- The parts are generalized in turn, so that the next one is about their ends alone.
      have hthen := adds_lowerAll walk (nodeId :: visited) (walk.targetsOf node (some thenOut))
      have hthenLe := (walk.lowerAll (nodeId :: visited)
        (walk.targetsOf node (some thenOut))).unvisited_le
      generalize walk.lowerAll (nodeId :: visited) (walk.targetsOf node (some thenOut)) = thenPart
        at hthen hthenLe ⊢
      have hclausesLe := (walk.lowerClauses thenPart.seen node
        (walk.clauseOutputs definition node elseIf)).unvisited_le
      have helse := adds_lowerAll walk (walk.lowerClauses thenPart.seen node
        (walk.clauseOutputs definition node elseIf)).seen (walk.targetsOf node (some elseOut))
      have helseLe := (walk.lowerAll (walk.lowerClauses thenPart.seen node
        (walk.clauseOutputs definition node elseIf)).seen
        (walk.targetsOf node (some elseOut))).unvisited_le
      generalize walk.lowerAll (walk.lowerClauses thenPart.seen node
        (walk.clauseOutputs definition node elseIf)).seen (walk.targetsOf node (some elseOut)) =
        elsePart at helse helseLe ⊢
      refine adds_of_branch harrive hlowering hthen (fun first => ?_) helse
        (adds_lowerAll walk elsePart.seen
          (walk.targetsOf node (afterBranch thenOut elseOut next)) q)
      have hclauses := adds_lowerClauses walk thenPart.seen node
        (walk.clauses definition node elseIf first)
      rw [map_clauses] at hclauses
      exact hclauses
    next field hlowering =>
      refine adds_of_perform_eq (by simp [stepsAt]) (fun table rest => ?_)
      rw [perform_of_node harrive, expand, hlowering]
    next hlowering =>
      refine adds_of_perform_eq (by simp [stepsAt]) (fun table rest => ?_)
      rw [perform_of_node harrive, expand, hlowering]
termination_by (walk.unvisited visited, 0, 0)
decreasing_by
  all_goals exact .left _ _ (by omega)

/-- Tasks for some nodes whose steps go into one sequence add what the nodes are lowered to. -/
theorem adds_lowerAll (walk : Walk) (visited : List String) (nodeIds : List String) (q : Nat) :
    Adds walk (tasksInto q nodeIds) visited (walk.lowerAll visited nodeIds).seen
      [(q, (walk.lowerAll visited nodeIds).result)] := by
  rw [lowerAll.eq_def]
  cases nodeIds with
  | nil => exact adds_nil (by simp [stepsAt])
  | cons nodeId rest =>
    have hfirst := adds_lowerNode walk visited nodeId q
    have hrest := adds_lowerAll walk (walk.lowerNode visited nodeId).seen rest q
    exact hfirst.append_same hrest
termination_by (walk.unvisited visited, 1, nodeIds.length)
decreasing_by
  · exact .right _ (.left _ _ Nat.zero_lt_one)
  · exact Lowered.decreases _ _ (Nat.lt_succ_self _)

/-- The tasks for the nodes after the outputs of else-if clauses add to the sequence of each clause
what its part is lowered to. -/
theorem adds_lowerClauses (walk : Walk) (visited : List String) (node : Node)
    (clauses : List Clause) :
    Adds walk (walk.clauseTasks node clauses) visited
      (walk.lowerClauses visited node (clauses.map fun c => (c.condition, c.output))).seen
      (walk.clauseEntries visited node clauses) := by
  cases clauses with
  | nil =>
    rw [List.map_nil, lowerClauses]
    exact adds_nil fun _ => rfl
  | cons clause rest =>
    have hfirst := adds_lowerAll walk visited (walk.targetsOf node (some clause.output))
      clause.sequence
    have hrest := adds_lowerClauses walk
      (walk.lowerAll visited (walk.targetsOf node (some clause.output))).seen node rest
    rw [List.map_cons, lowerClauses, clauseEntries_cons]
    exact hfirst.append hrest
termination_by (walk.unvisited visited, 2, clauses.length)
decreasing_by
  · exact .right _ (.left _ _ (Nat.lt_succ_self _))
  · exact Lowered.decreases _ _ (Nat.lt_succ_self _)

end

/-! ## The walk from a start -/

/-- The sequences of a finished walk, put together, are the steps that the recursion finds. Nothing
but the task for the start was on the stack at first, so the steps it adds are all there are in the
first sequence. -/
theorem assemble_run_initial (walk : Walk) (start : String) :
    assemble (walk.run (initial start)).sequences = (walk.lowerNode [] start).result := by
  have hsound := walk.sound_run_initial start
  obtain ⟨table, new, hends, hlength, hnew, hfits⟩ :=
    adds_lowerNode walk [] start 0 [[]] fun entry hentry => by
      rw [List.mem_singleton.1 hentry]
      exact Nat.zero_lt_one
  have hrun : walk.run (initial start) = ⟨(walk.lowerNode [] start).seen, table, []⟩ := by
    have hstart := hends []
    rw [List.append_nil] at hstart
    rw [initial, hstart, run]
  rw [hrun] at hsound ⊢
  have hroot : table[0]? = some (new 0) := by
    rw [hnew 0 Nat.zero_lt_one]
    rfl
  have hne : table ≠ [] := List.ne_nil_of_length_pos hlength
  have hparts : Fits (nested table) 1 table := fun k pending _ hk => hsound.nested.nested_eq hk
  rw [assemble_eq_nested hsound.nested hne, hsound.nested.nested_eq hroot,
    hfits (nested table) hparts 0 Nat.zero_lt_one]
  simp [stepsAt]

/-- One turn of the walk: the next task is carried out. -/
def Turns (walk : Walk) (state next : State) : Prop :=
  ∃ task rest, state.tasks = task :: rest ∧ next = walk.perform { state with tasks := rest } task

/-- The walk reaches its last state by turns, and no task is left then. -/
theorem turns_run (walk : Walk) (state : State) :
    Relation.ReflTransGen walk.Turns state (walk.run state) ∧ (walk.run state).tasks = [] := by
  fun_induction run walk state with
  | case1 state htasks => exact ⟨.refl, htasks⟩
  | case2 state task rest htasks ih =>
    obtain ⟨hturns, hend⟩ := ih
    exact ⟨.head ⟨task, rest, htasks, rfl⟩ hturns, hend⟩

end Walk

/-- A graph is lowered to the steps that plain recursion finds from its first start node. From any
node, the walk comes to an end after finitely many turns, and its sequences put together are the
steps that the recursion finds. -/
theorem Graph.lower_depth_first (catalog : Catalog) (graph : Graph) :
    graph.lower catalog =
        (match graph.nodes.find? fun node => catalog.isStart node.nodeType with
        | some start => (Walk.lowerNode ⟨catalog, graph⟩ [] start.id).result
        | none => []) ∧
      ∀ start : Node, ∃ final,
        Relation.ReflTransGen (Walk.Turns ⟨catalog, graph⟩) (Walk.initial start.id) final ∧
          final.tasks = [] ∧
          Walk.assemble final.sequences = (Walk.lowerNode ⟨catalog, graph⟩ [] start.id).result := by
  constructor
  · unfold Graph.lower
    cases graph.nodes.find? fun node => catalog.isStart node.nodeType with
    | none => rfl
    | some start => exact Walk.assemble_run_initial ⟨catalog, graph⟩ start.id
  · intro start
    obtain ⟨hturns, hend⟩ := Walk.turns_run ⟨catalog, graph⟩ (Walk.initial start.id)
    exact ⟨_, hturns, hend, Walk.assemble_run_initial ⟨catalog, graph⟩ start.id⟩

end AbilityGraph
