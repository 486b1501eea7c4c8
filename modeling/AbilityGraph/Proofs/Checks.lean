import Mathlib.Data.List.Basic

/-!
# Computations that may fail

What is known when checks that are made one after the other succeed, or fail with a certain fault. A
computation that succeeds just if a condition holds `Gives` a value; this carries over to
computations put together from such. Two computations may `FailAlike` and give different values.
-/

set_option autoImplicit false

namespace AbilityGraph

section Except

variable {ε δ α β : Type}

/-- Two computations one after the other succeed just if the first does and the second does with
what the first gives. -/
theorem bind_eq_ok_iff {first : Except ε α} {next : α → Except ε β} {result : β} :
    (first >>= next) = .ok result ↔ ∃ value, first = .ok value ∧ next value = .ok result := by
  cases first <;> simp [bind, Except.bind]

/-- Of two computations one after the other, the fault is that of the first, or else that of the
second. -/
theorem bind_eq_error_iff {first : Except ε α} {next : α → Except ε β} {fault : ε} :
    (first >>= next) = .error fault ↔
      first = .error fault ∨ ∃ value, first = .ok value ∧ next value = .error fault := by
  cases first <;> simp [bind, Except.bind]

/-- A computation whose result is changed succeeds just if the computation does. -/
theorem map_eq_ok_iff {computation : Except ε α} {f : α → β} {result : β} :
    computation.map f = .ok result ↔ ∃ value, computation = .ok value ∧ f value = result := by
  cases computation <;> simp [Except.map]

/-- What is made of a fault makes no difference where there is none. -/
theorem mapError_eq_ok_iff {computation : Except ε α} {f : ε → δ} {value : α} :
    computation.mapError f = .ok value ↔ computation = .ok value := by
  cases computation <;> simp [Except.mapError]

/-- A check of all entries succeeds just if each entry passes it. -/
theorem forM_eq_ok_iff {check : α → Except ε Unit} {entries : List α} :
    entries.forM check = .ok () ↔ ∀ x ∈ entries, check x = .ok () := by
  induction entries with
  | nil => simp [pure, Except.pure]
  | cons x rest ih =>
    have hcons : (x :: rest).forM check = check x >>= fun _ => rest.forM check := rfl
    rw [hcons, bind_eq_ok_iff, List.forall_mem_cons, ← ih]
    constructor
    · rintro ⟨_, hx, hrest⟩
      exact ⟨hx, hrest⟩
    · rintro ⟨hx, hrest⟩
      exact ⟨(), hx, hrest⟩

/-- A list is computed with just if its first entry and the rest of it are. -/
theorem mapM_cons_eq_ok_iff {f : α → Except ε β} {x : α} {rest : List α} {results : List β} :
    (x :: rest).mapM f = .ok results ↔
      ∃ first others, f x = .ok first ∧ rest.mapM f = .ok others ∧ results = first :: others := by
  rw [List.mapM_cons, bind_eq_ok_iff]
  constructor
  · rintro ⟨first, hfirst, h⟩
    obtain ⟨others, hothers, h⟩ := bind_eq_ok_iff.1 h
    cases h
    exact ⟨first, others, hfirst, hothers, rfl⟩
  · rintro ⟨first, others, hfirst, hothers, rfl⟩
    exact ⟨first, hfirst, bind_eq_ok_iff.2 ⟨others, hothers, rfl⟩⟩

/-- A list can be computed with just if each entry can. -/
theorem exists_mapM_eq_ok_iff {f : α → Except ε β} {entries : List α} :
    (∃ results, entries.mapM f = .ok results) ↔ ∀ x ∈ entries, ∃ result, f x = .ok result := by
  induction entries with
  | nil => simp [pure, Except.pure]
  | cons x rest ih =>
    rw [List.forall_mem_cons, ← ih]
    constructor
    · rintro ⟨_, h⟩
      obtain ⟨first, others, hfirst, hothers, rfl⟩ := mapM_cons_eq_ok_iff.1 h
      exact ⟨⟨first, hfirst⟩, others, hothers⟩
    · rintro ⟨⟨first, hfirst⟩, others, hothers⟩
      exact ⟨_, mapM_cons_eq_ok_iff.2 ⟨first, others, hfirst, hothers, rfl⟩⟩

/-- It makes no difference whether entries are left out before all are computed with or after. -/
theorem mapM_filter {f : α → Except ε β} {keeps : α → Bool} {keepsResult : β → Bool}
    (hkeeps : ∀ x result, f x = .ok result → keepsResult result = keeps x) {entries : List α}
    {results : List β} (h : entries.mapM f = .ok results) :
    (entries.filter keeps).mapM f = .ok (results.filter keepsResult) := by
  induction entries generalizing results with
  | nil =>
    cases h
    rfl
  | cons x rest ih =>
    obtain ⟨first, others, hfirst, hothers, rfl⟩ := mapM_cons_eq_ok_iff.1 h
    have hrest := ih hothers
    rw [List.filter_cons, List.filter_cons, hkeeps x first hfirst]
    split
    · exact mapM_cons_eq_ok_iff.2 ⟨first, _, hfirst, hrest, rfl⟩
    · exact hrest

end Except

/-- A computation that succeeds just if a condition holds, and then gives a value. -/
def Gives {ε α : Type} (computation : Except ε α) (condition : Prop) (value : α) : Prop :=
  ∀ other, computation = .ok other ↔ condition ∧ other = value

section Gives

variable {ε α β : Type}

/-- What is made of the value that a computation gives is given under the same condition. -/
theorem Gives.bind_pure {computation : Except ε α} {condition : Prop} {value : α}
    (h : Gives computation condition value) (f : α → β) :
    Gives (computation >>= fun x => pure (f x)) condition (f value) := by
  intro other
  cases computation with
  | error fault =>
    have hnot : ¬ condition := by
      intro hcondition
      cases (h value).2 ⟨hcondition, rfl⟩
    constructor
    · intro hok
      cases hok
    · intro hok
      exact absurd hok.1 hnot
  | ok found =>
    obtain ⟨hcondition, rfl⟩ := (h found).1 rfl
    constructor
    · intro hok
      cases hok
      exact ⟨hcondition, rfl⟩
    · rintro ⟨-, rfl⟩
      rfl

/-- If every entry gives a value under a condition, then a list gives the list of values where all
conditions hold. -/
theorem Gives.mapM {f : α → Except ε β} {condition : α → Prop} {value : α → β}
    (h : ∀ x, Gives (f x) (condition x) (value x)) (entries : List α) :
    Gives (entries.mapM f) (∀ x ∈ entries, condition x) (entries.map value) := by
  induction entries with
  | nil =>
    intro other
    simp [pure, Except.pure, eq_comm]
  | cons x rest ih =>
    intro other
    rw [List.mapM_cons, List.forall_mem_cons, List.map_cons]
    cases hx : f x with
    | error fault =>
      have hnot : ¬ condition x := by
        intro hcondition
        rw [(h x _).2 ⟨hcondition, rfl⟩] at hx
        cases hx
      constructor
      · intro hok
        cases hok
      · intro hok
        exact absurd hok.1.1 hnot
    | ok first =>
      obtain ⟨hcondition, rfl⟩ := (h x first).1 hx
      have hrest : (rest.mapM f >>= fun others => pure (value x :: others)) = .ok other ↔ _ :=
        ih.bind_pure (value x :: ·) other
      refine hrest.trans ?_
      simp [hcondition]

end Gives

/-- Two computations fail with the same fault, or both succeed. -/
inductive FailAlike {ε α β : Type} : Except ε α → Except ε β → Prop
  | error (fault : ε) : FailAlike (.error fault) (.error fault)
  | ok (value : α) (other : β) : FailAlike (.ok value) (.ok other)

namespace FailAlike

variable {ε α β γ δ : Type}

/-- That two computations fail alike does not depend on which of them comes first. -/
theorem symm {first : Except ε α} {second : Except ε β} (h : FailAlike first second) :
    FailAlike second first := by
  cases h with
  | error fault => exact .error fault
  | ok value other => exact .ok other value

/-- A computation that fails like another one fails like whatever that one fails like. -/
theorem trans {first : Except ε α} {second : Except ε β} {third : Except ε γ}
    (h : FailAlike first second) (hnext : FailAlike second third) : FailAlike first third := by
  cases h with
  | error fault =>
    cases hnext with
    | error => exact .error fault
  | ok value other =>
    cases hnext with
    | ok _ last => exact .ok value last

/-- Two computations that fail alike have the same fault, or both succeed. -/
theorem error_or_ok {first : Except ε α} {second : Except ε β} (h : FailAlike first second) :
    (∃ fault, first = .error fault ∧ second = .error fault) ∨
      ∃ value other, first = .ok value ∧ second = .ok other := by
  cases h with
  | error fault => exact .inl ⟨fault, rfl, rfl⟩
  | ok value other => exact .inr ⟨value, other, rfl, rfl⟩

/-- Computations that are put together from such as fail alike fail alike, whatever values are
handed on. -/
theorem bind {first : Except ε α} {second : Except ε β} {next : α → Except ε γ}
    {after : β → Except ε δ} (h : FailAlike first second)
    (hnext : ∀ value other, FailAlike (next value) (after other)) :
    FailAlike (first >>= next) (second >>= after) := by
  cases h with
  | error fault => exact .error fault
  | ok value other => exact hnext value other

/-- If two computations fail alike for every entry, then they do for a list. -/
theorem mapM {f : α → Except ε β} {g : α → Except ε γ} (h : ∀ x, FailAlike (f x) (g x))
    (entries : List α) : FailAlike (entries.mapM f) (entries.mapM g) := by
  induction entries with
  | nil => exact .ok _ _
  | cons x rest ih =>
    rw [List.mapM_cons, List.mapM_cons]
    exact (h x).bind fun _ _ => ih.bind fun _ _ => .ok _ _

end FailAlike

end AbilityGraph
