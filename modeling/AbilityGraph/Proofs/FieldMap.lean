import AbilityGraph.FieldMap
import Mathlib.Data.List.Nodup

/-!
# Looking up names

The entries of a field map are the only ordered list of entries in which its fields are found
(`FieldMap.ext_get?`). A map that is made from entries with distinct names gives each name the value
that the entries give it (`FieldMap.get?_ofList`).
-/

set_option autoImplicit false

namespace AbilityGraph

/-! ## Entries with distinct names -/

section Entries

variable {α : Type}

/-- The first entry is found at its name, and what the others have at other names. -/
theorem lookup_cons_eq (name other : String) (value : α) (entries : List (String × α)) :
    ((name, value) :: entries).lookup other =
      if other = name then some value else entries.lookup other := by
  by_cases h : other = name
  · simp [h]
  · rw [List.lookup_cons, beq_false_of_ne h, if_neg h]

/-- Nothing is found at a name just if no entry has this name. -/
theorem lookup_eq_none_iff_not_mem {entries : List (String × α)} {name : String} :
    entries.lookup name = none ↔ name ∉ entries.map (·.1) := by
  simp only [List.lookup_eq_none_iff, List.mem_map, not_exists, not_and, bne_iff_ne]
  exact ⟨fun h e he heq => h e he heq.symm, fun h e he heq => h e he heq.symm⟩

/-- If a function is applied to all values, then what is found is that function applied to what was
found. -/
theorem lookup_map_snd {β : Type} (f : α → β) (entries : List (String × α)) (name : String) :
    (entries.map fun e => (e.1, f e.2)).lookup name = (entries.lookup name).map f := by
  induction entries with
  | nil => rfl
  | cons first rest ih =>
    obtain ⟨other, value⟩ := first
    rw [List.map_cons, lookup_cons_eq, lookup_cons_eq, ih]
    by_cases h : name = other
    · rw [if_pos h, if_pos h, Option.map_some]
    · rw [if_neg h, if_neg h]

/-- If no name is used twice, then the entries with a name are at most the one that is found
there. -/
theorem filter_name_eq {entries : List (String × α)} (hnodup : (entries.map (·.1)).Nodup)
    (name : String) :
    entries.filter (·.1 == name) = ((entries.lookup name).map (name, ·)).toList := by
  induction entries with
  | nil => rfl
  | cons first rest ih =>
    obtain ⟨other, value⟩ := first
    rw [List.map_cons, List.nodup_cons] at hnodup
    rw [lookup_cons_eq]
    by_cases heq : name = other
    · have hnone : rest.filter (·.1 == name) = [] := by
        rw [List.filter_eq_nil_iff]
        intro e he hname
        have hmem : e.1 ∈ rest.map (·.1) := List.mem_map_of_mem he
        rw [beq_iff_eq.1 hname, heq] at hmem
        exact hnodup.1 hmem
      rw [List.filter_cons_of_pos (by simp [heq]), hnone, if_pos heq, heq]
      rfl
    · rw [List.filter_cons_of_neg (by simpa using Ne.symm heq), ih hnodup.2, if_neg heq]

/-- Without the entries of one name, nothing is found there, and at other names what was found
before. -/
theorem lookup_filter_bne (entries : List (String × α)) (name other : String) :
    (entries.filter (·.1 != other)).lookup name =
      if name = other then none else entries.lookup name := by
  induction entries with
  | nil => simp
  | cons first rest ih =>
    obtain ⟨own, value⟩ := first
    rw [List.filter_cons, lookup_cons_eq]
    by_cases hown : own = other
    · rw [if_neg (by simpa using hown), ih, ← hown]
      by_cases hname : name = own <;> simp [hname]
    · rw [if_pos (by simpa using hown), lookup_cons_eq, ih]
      by_cases hname : name = own
      · rw [if_pos hname, if_pos hname, if_neg (hname ▸ hown)]
      · rw [if_neg hname, if_neg hname]

/-- If no name is used twice, then an entry is there just if it is found at its name. -/
theorem lookup_eq_some_iff_mem {entries : List (String × α)} (hnodup : (entries.map (·.1)).Nodup)
    {name : String} {value : α} : entries.lookup name = some value ↔ (name, value) ∈ entries := by
  have hmem : (name, value) ∈ entries ↔ (name, value) ∈ entries.filter (·.1 == name) := by
    simp [List.mem_filter]
  rw [hmem, filter_name_eq hnodup]
  simp

/-- Where names are distinct, the order of the entries does not matter for looking one up. -/
theorem lookup_of_perm {entries others : List (String × α)} (hperm : others.Perm entries)
    (hnodup : (entries.map (·.1)).Nodup) (name : String) :
    others.lookup name = entries.lookup name := by
  have hothers : (others.map (·.1)).Nodup := (hperm.map _).nodup_iff.2 hnodup
  apply Option.ext
  intro value
  rw [lookup_eq_some_iff_mem hothers, lookup_eq_some_iff_mem hnodup, hperm.mem_iff]

end Entries

namespace FieldMap

variable {α : Type}

/-- A map uses no name twice. -/
theorem nodup_names (m : FieldMap α) : (m.entries.map (·.1)).Nodup :=
  List.pairwise_map.2 (m.ordered.imp fun hlt => String.ne_of_lt hlt)

/-- After placing a value at a name it is found there, and at other names what was found before. -/
theorem lookup_place (name : String) (value : α) (entries : List (String × α)) (other : String) :
    (place name value entries).lookup other =
      if other = name then some value else entries.lookup other := by
  induction entries with
  | nil => rw [place, lookup_cons_eq]
  | cons entry rest ih =>
    obtain ⟨own, first⟩ := entry
    unfold place
    split
    · rw [lookup_cons_eq]
    · split
      next heq =>
        obtain rfl : name = own := heq
        rw [lookup_cons_eq, lookup_cons_eq]
        by_cases hother : other = name
        · rw [if_pos hother, if_pos hother]
        · rw [if_neg hother, if_neg hother, if_neg hother]
      next hne =>
        rw [lookup_cons_eq, lookup_cons_eq, ih]
        by_cases hother : other = own
        · rw [if_pos hother, if_pos hother, if_neg fun heq => hne (heq.symm.trans hother)]
        · rw [if_neg hother, if_neg hother]

/-- After inserting a value at a name, a map has it there, and at other names what it had before. -/
theorem get?_insert (m : FieldMap α) (name : String) (value : α) (other : String) :
    (m.insert name value).get? other = if other = name then some value else m.get? other :=
  lookup_place name value m.entries other

/-- A map built from entries whose names differ has what the entries have. -/
theorem get?_ofList {entries : List (String × α)} (hnodup : (entries.map (·.1)).Nodup)
    (name : String) : (ofList entries).get? name = entries.lookup name := by
  have hfold : ∀ m : FieldMap α, (entries.foldl (fun m e => m.insert e.1 e.2) m).get? name =
      (entries.lookup name).or (m.get? name) := by
    induction entries with
    | nil => exact fun m => rfl
    | cons first rest ih =>
      intro m
      obtain ⟨own, value⟩ := first
      rw [List.map_cons, List.nodup_cons] at hnodup
      rw [List.foldl_cons, ih hnodup.2, get?_insert, lookup_cons_eq]
      by_cases heq : name = own
      · have hnone : rest.lookup name = none := lookup_eq_none_iff_not_mem.2 (heq ▸ hnodup.1)
        rw [hnone, if_pos heq, if_pos heq]
        rfl
      · rw [if_neg heq, if_neg heq]
  exact (hfold empty).trans (Option.or_none)

/-- Maps that give the same values are equal, since their entries are in order. -/
theorem ext_get? {m n : FieldMap α} (h : ∀ name, m.get? name = n.get? name) : m = n := by
  have hmem : ∀ e : String × α, e ∈ m.entries ↔ e ∈ n.entries := by
    intro e
    have hlookup : m.entries.lookup e.1 = n.entries.lookup e.1 := h e.1
    rw [← lookup_eq_some_iff_mem m.nodup_names, hlookup, lookup_eq_some_iff_mem n.nodup_names]
  have hperm : m.entries.Perm n.entries :=
    (List.perm_ext_iff_of_nodup (List.Nodup.of_map _ m.nodup_names)
      (List.Nodup.of_map _ n.nodup_names)).2 hmem
  refine FieldMap.ext (hperm.eq_of_pairwise ?_ m.ordered n.ordered)
  intro a b _ _ hab hba
  exact absurd (String.lt_trans hab hba) (String.lt_irrefl _)

end FieldMap

end AbilityGraph
