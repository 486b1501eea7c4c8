import AbilityGraph.Proofs.Compile.Visits

/-!
# Every sequence is put in once

At each turn of a walk the table of sequences is in order (`Walk.InOrder`): all numbers on the stack
are those of sequences, and every sequence but the first is a part of exactly one branch, which
stands in a sequence of smaller number. Later turns only add steps at the ends of sequences.

So when the walk has ended and the sequences are put together, each of them is there when it is
taken, and none is left over. The steps of the tree are then just those that were put into the
sequences (`Walk.sequences_assembled_once`): the steps nested in the tree of one sequence are its
own steps and those nested in the trees of its parts, and summed over the whole table, where every
tree but the first counts once as that of a part, these parts cancel out (`Nested.perm_inside`).
-/

set_option autoImplicit false

namespace AbilityGraph

namespace Walk

/-! ## Which branch has a sequence -/

/-- A part of a branch: the number of the sequence that the branch stands in, the position of the
branch in it, and which of the parts of the branch it is. -/
structure BranchPart where
  sequence : Nat
  position : Nat
  index : Nat

/-- The number of the sequence that a table has for a part of a branch. -/
def numberAt? (table : List (List Pending)) (part : BranchPart) : Option Nat := do
  let pending ← table[part.sequence]?
  let step ← pending[part.position]?
  step.children[part.index]?

/-- Every number on the stack is that of a sequence. Every number of a sequence but the first is
that of exactly one part of a branch, and the branch stands in a sequence of smaller number. -/
structure InOrder (state : State) : Prop where
  tasks : ∀ task ∈ state.tasks, task.sequence < state.sequences.length
  owned : ∀ number, 0 < number → number < state.sequences.length →
    ∃! part, numberAt? state.sequences part = some number
  deeper : ∀ part number, numberAt? state.sequences part = some number →
    part.sequence < number ∧ number < state.sequences.length

section Parts

variable {table : List (List Pending)}

/-- A table has a number for a part of a branch just if there is such a branch at that place in that
sequence, and the number is that of this part. -/
theorem numberAt?_eq_some_iff {part : BranchPart} {number : Nat} :
    numberAt? table part = some number ↔ ∃ pending, table[part.sequence]? = some pending ∧
      ∃ step, pending[part.position]? = some step ∧ step.children[part.index]? = some number := by
  simp only [numberAt?, Option.bind_eq_bind, Option.bind_eq_some_iff]

/-- Every number among the parts of the steps in a table is that of some part of a branch. -/
theorem exists_numberAt? {number : Nat} (h : number ∈ table.flatMap children) :
    ∃ part, numberAt? table part = some number := by
  obtain ⟨pending, hpending, hnumber⟩ := List.mem_flatMap.1 h
  obtain ⟨step, hstep, hnumber⟩ := List.mem_flatMap.1 hnumber
  obtain ⟨k, hk⟩ := List.mem_iff_getElem?.1 hpending
  obtain ⟨i, hi⟩ := List.mem_iff_getElem?.1 hstep
  obtain ⟨j, hj⟩ := List.mem_iff_getElem?.1 hnumber
  exact ⟨⟨k, i, j⟩, numberAt?_eq_some_iff.2 ⟨pending, hk, step, hi, hj⟩⟩

/-- Where all entries give different things, what is given shows which entry gives it. -/
theorem position_unique {α β : Type} {given : α → List β} {entries : List α}
    (hnodup : (entries.flatMap given).Nodup) {i j : Nat} {x y : α} {c : β}
    (hi : entries[i]? = some x) (hj : entries[j]? = some y) (hx : c ∈ given x)
    (hy : c ∈ given y) : i = j := by
  induction entries generalizing i j with
  | nil => cases hi
  | cons first rest ih =>
    rw [List.flatMap_cons, List.nodup_append] at hnodup
    obtain ⟨-, hrest, hdisjoint⟩ := hnodup
    have hlater : ∀ {k z}, rest[k]? = some z → c ∈ given z → c ∉ given first :=
      fun hk hz hfirst =>
        hdisjoint c hfirst c (List.mem_flatMap.2 ⟨_, List.mem_of_getElem? hk, hz⟩) rfl
    cases i with
    | zero =>
      cases hi
      cases j with
      | zero => rfl
      | succ j => exact absurd hx (hlater hj hy)
    | succ i =>
      cases j with
      | zero =>
        cases hj
        exact absurd hy (hlater hi hx)
      | succ j => exact congrArg (· + 1) (ih hrest hi hj)

/-- In a table in order, a number shows which part of which branch it belongs to. Its sequence is
found first, then the branch in it, and then the part of the branch. -/
theorem Nested.part_unique (h : Nested table) {part other : BranchPart} {number : Nat}
    (hpart : numberAt? table part = some number) (hother : numberAt? table other = some number) :
    part = other := by
  have hnodup : (table.flatMap children).Nodup := h.once.nodup_iff.2 List.nodup_range'
  obtain ⟨pending, hpending, step, hstep, hnumber⟩ := numberAt?_eq_some_iff.1 hpart
  obtain ⟨pending', hpending', step', hstep', hnumber'⟩ := numberAt?_eq_some_iff.1 hother
  obtain ⟨k, i, j⟩ := part
  obtain ⟨k', i', j'⟩ := other
  have hstepMem := List.mem_of_getElem? hnumber
  have hstepMem' := List.mem_of_getElem? hnumber'
  obtain rfl : k = k' := position_unique hnodup hpending hpending'
    (List.mem_flatMap.2 ⟨step, List.mem_of_getElem? hstep, hstepMem⟩)
    (List.mem_flatMap.2 ⟨step', List.mem_of_getElem? hstep', hstepMem'⟩)
  obtain rfl : pending = pending' := Option.some.inj (hpending.symm.trans hpending')
  have hpendingNodup : (children pending).Nodup :=
    (List.nodup_flatMap.1 hnodup).1 pending (List.mem_of_getElem? hpending)
  obtain rfl : i = i' := position_unique hpendingNodup hstep hstep' hstepMem hstepMem'
  obtain rfl : step = step' := Option.some.inj (hstep.symm.trans hstep')
  have hstepNodup : step.children.Nodup :=
    (List.nodup_flatMap.1 hpendingNodup).1 step (List.mem_of_getElem? hstep)
  have hlt : j < step.children.length := (List.getElem?_eq_some_iff.1 hnumber).1
  obtain rfl : j = j' := (List.getElem?_inj hlt hstepNodup).1 (hnumber.trans hnumber'.symm)
  rfl

/-- What every turn keeps puts the sequences in order: the numbers of the parts, each of which is
there once, are just those of the sequences after the first. -/
theorem Sound.inOrder {state : State} (h : Sound state) : InOrder state where
  tasks := h.tasks
  owned number hpos hlt := by
    obtain ⟨part, hpart⟩ := exists_numberAt? (h.nested.mem_children_iff.2 ⟨hpos, hlt⟩)
    exact ⟨part, hpart, fun other hother => h.nested.part_unique hother hpart⟩
  deeper part number hpart := by
    obtain ⟨pending, hpending, step, hstep, hnumber⟩ := numberAt?_eq_some_iff.1 hpart
    have hmem : number ∈ children pending :=
      List.mem_flatMap.2 ⟨step, List.mem_of_getElem? hstep, List.mem_of_getElem? hnumber⟩
    exact ⟨h.nested.deeper _ _ hpending _ hmem, h.nested.lt_length hpending hmem⟩

end Parts

/-! ## Later turns -/

/-- Every sequence is the beginning of that of the same number in a later table. -/
def Grows (table later : List (List Pending)) : Prop :=
  ∀ (k : Nat) pending, table[k]? = some pending → ∃ more, later[k]? = some (pending ++ more)

/-- Every table grows into itself, by nothing. -/
theorem Grows.refl (table : List (List Pending)) : Grows table table :=
  fun _ pending hk => ⟨[], by rw [List.append_nil]; exact hk⟩

/-- If one table grows into a second and the second into a third, then the first grows into the
third. -/
theorem Grows.trans {table middle later : List (List Pending)} (h : Grows table middle)
    (hlater : Grows middle later) : Grows table later := by
  intro k pending hk
  obtain ⟨more, hmore⟩ := h k pending hk
  obtain ⟨others, hothers⟩ := hlater k _ hmore
  exact ⟨more ++ others, by rw [hothers, List.append_assoc]⟩

/-- Opening sequences and adding a step at the end of one takes nothing from those that were
there. -/
theorem grows_emit (table : List (List Pending)) (count sequence : Nat) (step : Pending) :
    Grows table ((table ++ List.replicate count []).modify sequence (· ++ [step])) := by
  intro k pending hk
  have hlt : k < table.length := (List.getElem?_eq_some_iff.1 hk).1
  rw [List.getElem?_modify, List.getElem?_append_left hlt, hk]
  by_cases heq : sequence = k
  · exact ⟨[step], by simp [heq]⟩
  · exact ⟨[], by simp [heq]⟩

/-- The step of a node is added to what is in the table. -/
theorem grows_expand (walk : Walk) (definition : Definition) (node : Node) (sequence : Nat)
    (state : State) :
    Grows state.sequences (walk.expand definition node sequence state).sequences := by
  cases hlowering : definition.lowering with
  | entry next =>
    simp only [expand, hlowering]
    exact .refl _
  | step type fields next =>
    have hgrown := grows_emit state.sequences 0 sequence
      (.action type (actionFields definition node fields))
    rw [List.replicate_zero, List.append_nil] at hgrown
    simp only [expand, hlowering]
    exact hgrown
  | branch type condition thenOut elseIf elseOut next =>
    rw [walk.expand_branch node sequence state hlowering rfl]
    exact grows_emit _ _ _ _
  | literal field =>
    simp only [expand, hlowering]
    exact .refl _
  | data =>
    simp only [expand, hlowering]
    exact .refl _

section Turns

variable {walk : Walk} {state next : State}

/-- A turn takes no step out of the table. -/
theorem Turns.grows (h : walk.Turns state next) : Grows state.sequences next.sequences := by
  obtain ⟨task, rest, -, rfl⟩ := h
  unfold perform
  split
  · exact .refl _
  · exact .refl _
  · exact walk.grows_expand _ _ _ (State.visit { state with tasks := rest } task.nodeId)

/-- A turn keeps the sequences in order. -/
theorem Turns.sound (h : walk.Turns state next) (hsound : Sound state) : Sound next := by
  obtain ⟨task, rest, htasks, rfl⟩ := h
  exact hsound.performNext walk htasks

/-- From the state after a turn the walk ends as it does from the state before. -/
theorem Turns.run_eq (h : walk.Turns state next) : walk.run next = walk.run state := by
  obtain ⟨task, rest, htasks, rfl⟩ := h
  rw [run.eq_def walk state]
  split
  next hnone => simp [htasks] at hnone
  next task' rest' htasks' =>
    rw [htasks] at htasks'
    cases htasks'
    rfl

/-- What holds of each turn holds of all turns up to a state. -/
theorem turns_from (h : Relation.ReflTransGen walk.Turns state next) :
    (Sound state → Sound next) ∧ walk.run next = walk.run state ∧
      Grows state.sequences next.sequences := by
  induction h with
  | refl => exact ⟨id, rfl, .refl _⟩
  | tail _ hturn ih =>
    obtain ⟨hsound, hrun, hgrows⟩ := ih
    exact ⟨fun h => hturn.sound (hsound h), hturn.run_eq.trans hrun, hgrows.trans hturn.grows⟩

end Turns

/-! ## The steps of the tree -/

section Steps

open Step (inside insideClauses)

/-- A step and those nested in its parts. -/
theorem perm_withNested_nest (parts : Nat → List Step) (step : Pending) :
    (step.nest parts).withNested.Perm
      (step.nest parts :: step.children.flatMap fun c => inside (parts c)) := by
  cases step with
  | action type fields => simp [Pending.nest, Pending.children, Step.withNested]
  | branch type condition thenSequence elseIf elseSequence =>
    have hclauses : insideClauses (elseIf.map fun c => (c.1, parts c.2)) =
        elseIf.flatMap fun c => inside (parts c.2) := by
      rw [Step.insideClauses_eq_flatMap, List.flatMap_map]
    simp only [Pending.nest, Pending.children, Step.withNested, hclauses, List.flatMap_append,
      List.flatMap_map, List.flatMap_cons, List.flatMap_nil, List.append_nil]
    rw [← List.append_assoc]
    exact (List.perm_append_comm.append_right _).cons _

/-- The steps of a sequence and those nested in its parts. -/
theorem perm_inside_map_nest (parts : Nat → List Step) (pending : List Pending) :
    (inside (pending.map (Pending.nest parts))).Perm
      (pending.map (Pending.nest parts) ++
        (children pending).flatMap fun c => inside (parts c)) := by
  induction pending with
  | nil => simp [inside, children]
  | cons step rest ih =>
    have hchildren : children (step :: rest) = step.children ++ children rest := rfl
    rw [List.map_cons, inside, hchildren, List.flatMap_append, List.cons_append]
    refine ((perm_withNested_nest parts step).append ih).trans ?_
    rw [List.cons_append]
    refine .cons _ ?_
    rw [← List.append_assoc, ← List.append_assoc]
    exact List.perm_append_comm.append_right _

/-- The trees of the sequences of a table in order are the sequences themselves with the parts of
their steps put in. -/
theorem Nested.map_nested_range {table : List (List Pending)} (h : Nested table) :
    (List.range table.length).map (nested table) =
      table.map (List.map (Pending.nest (nested table))) := by
  refine List.ext_getElem? fun k => ?_
  rw [List.getElem?_map, List.getElem?_map]
  cases hk : table[k]? with
  | none =>
    rw [List.getElem?_eq_none_iff] at hk
    rw [List.getElem?_eq_none (by simpa using hk)]
    rfl
  | some pending =>
    have hlt : k < table.length := (List.getElem?_eq_some_iff.1 hk).1
    rw [List.getElem?_range hlt, Option.map_some, Option.map_some, h.nested_eq hk]

/-- The steps of the tree of a table in order are those of its sequences, each with its parts put
in. -/
theorem Nested.perm_inside {table : List (List Pending)} (h : Nested table) (hne : table ≠ []) :
    (inside (nested table 0)).Perm (table.flatten.map (Pending.nest (nested table))) := by
  have hlength : table.length = table.length - 1 + 1 := by
    have := List.length_pos_iff.2 hne
    omega
  have hall : (List.range table.length).flatMap (fun c => inside (nested table c)) =
      inside (table.flatten.map (Pending.nest (nested table))) := by
    rw [← List.flatMap_map (f := nested table) (g := inside), h.map_nested_range,
      ← Step.inside_flatten, ← List.map_flatten]
  have hroot : (List.range table.length).flatMap (fun c => inside (nested table c)) =
      inside (nested table 0) ++
        (List.range' 1 (table.length - 1)).flatMap fun c => inside (nested table c) := by
    rw [hlength, List.range_eq_range', List.range'_succ, List.flatMap_cons, Nat.add_sub_cancel]
  have hparts : ((table.flatMap children).flatMap fun c => inside (nested table c)).Perm
      ((List.range' 1 (table.length - 1)).flatMap fun c => inside (nested table c)) :=
    h.once.flatMap_right _
  have hown := perm_inside_map_nest (nested table) table.flatten
  have hchildren : children table.flatten = table.flatMap children := by
    simp only [children, List.flatten_eq_flatMap, List.flatMap_assoc, id]
    rfl
  rw [hchildren, ← hall, hroot] at hown
  exact (List.perm_append_right_iff _).1 (hown.trans (hparts.append_left _))

/-- Without its parts, a step is the same whatever parts are put in. -/
theorem bare_nest (parts : Nat → List Step) (step : Pending) :
    (step.nest parts).bare = step.nest fun _ => [] := by
  cases step with
  | action type fields => rfl
  | branch type condition thenSequence elseIf elseSequence =>
    simp [Pending.nest, Step.bare]

end Steps

/-- Up to its end a walk has its sequences in order, and none of them loses steps. When they are put
together then, none is missing as it is taken, and none is left: this gives the steps that the flow
is lowered to. The steps in their tree are those that were put into the sequences, each once. -/
theorem sequences_assembled_once (walk : Walk) (start : Node) :
    ∃ final, Relation.ReflTransGen walk.Turns (initial start.id) final ∧ final.tasks = [] ∧
      (∀ state, Relation.ReflTransGen walk.Turns (initial start.id) state →
        InOrder state ∧ Grows state.sequences final.sequences) ∧
      assemble? final.sequences =
        some (walk.stepsFrom start, List.replicate final.sequences.length none) ∧
      ((Step.inside (walk.stepsFrom start)).map Step.bare).Perm
        (final.sequences.flatten.map (Pending.nest fun _ => [])) := by
  have hsound := walk.sound_run_initial start.id
  obtain ⟨hturns, hend⟩ := walk.turns_run (initial start.id)
  have hne : (walk.run (initial start.id)).sequences ≠ [] := by
    obtain ⟨more, hmore⟩ := (turns_from hturns).2.2 0 [] rfl
    exact List.ne_nil_of_mem (List.mem_of_getElem? hmore)
  obtain ⟨hassemble, hstrict⟩ := assemble?_eq_nested hsound.nested hne
  have hsteps : walk.stepsFrom start = nested (walk.run (initial start.id)).sequences 0 :=
    hassemble
  refine ⟨walk.run (initial start.id), hturns, hend, ?_, hsteps ▸ hstrict, ?_⟩
  · intro state hstate
    obtain ⟨hkeeps, hrun, -⟩ := turns_from hstate
    obtain ⟨hlater, -⟩ := walk.turns_run state
    have hgrows := (turns_from hlater).2.2
    rw [hrun] at hgrows
    exact ⟨(hkeeps (sound_initial start.id)).inOrder, hgrows⟩
  · rw [hsteps]
    refine ((hsound.nested.perm_inside hne).map Step.bare).trans (List.Perm.of_eq ?_)
    rw [List.map_map]
    exact List.map_congr_left fun step _ => bare_nest _ step

end Walk

end AbilityGraph
