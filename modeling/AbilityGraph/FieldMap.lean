/-!
# Values by field name

A node's config, a config schema and the fields of a compiled step are all maps from field names
to values. `FieldMap` keeps such a map as its entries in strictly increasing order of name, so two
maps with the same content are equal, and listing a map needs no further choice of order.

Names are compared by code point, which is also the order of their UTF-8 bytes.
-/

set_option autoImplicit false

namespace AbilityGraph

/-- A finite map from field names to values: its entries, names strictly increasing. -/
@[ext] structure FieldMap (α : Type) where
  entries : List (String × α)
  ordered : entries.Pairwise (fun a b => a.1 < b.1)

namespace FieldMap

variable {α : Type}

def empty : FieldMap α := ⟨[], .nil⟩

instance : EmptyCollection (FieldMap α) := ⟨empty⟩

instance : Inhabited (FieldMap α) := ⟨empty⟩

/-- The value of a field, if the map has the field. -/
def get? (m : FieldMap α) (name : String) : Option α := m.entries.lookup name

def contains (m : FieldMap α) (name : String) : Bool := (m.get? name).isSome

/-- Puts an entry where the order of names wants it, in place of an entry of the same name. -/
def place (name : String) (value : α) : List (String × α) → List (String × α)
  | [] => [(name, value)]
  | entry :: rest =>
    if name < entry.1 then (name, value) :: entry :: rest
    else if name = entry.1 then (name, value) :: rest
    else entry :: place name value rest

/-- An entry of a list in which an entry was placed is this entry or was there before. -/
theorem mem_place {name : String} {value : α} {entries : List (String × α)} {e : String × α}
    (h : e ∈ place name value entries) : e = (name, value) ∨ e ∈ entries := by
  induction entries with
  | nil => exact .inl (by simpa [place] using h)
  | cons entry rest ih =>
    unfold place at h
    split at h
    · simpa using h
    · split at h
      · rcases List.mem_cons.1 h with h | h
        · exact .inl h
        · exact .inr (List.mem_cons_of_mem _ h)
      · rcases List.mem_cons.1 h with h | h
        · exact .inr (h ▸ List.mem_cons_self)
        · exact (ih h).imp_right (List.mem_cons_of_mem _)

/-- Placing an entry keeps the names in ascending order. -/
theorem pairwise_place (name : String) (value : α) {entries : List (String × α)}
    (h : entries.Pairwise (fun a b => a.1 < b.1)) :
    (place name value entries).Pairwise (fun a b => a.1 < b.1) := by
  induction entries with
  | nil => simp [place]
  | cons entry rest ih =>
    obtain ⟨hentry, hrest⟩ := List.pairwise_cons.1 h
    unfold place
    split
    next hlt =>
      refine List.pairwise_cons.2 ⟨fun e he => ?_, h⟩
      rcases List.mem_cons.1 he with rfl | he
      · exact hlt
      · exact String.lt_trans hlt (hentry e he)
    next hnlt =>
      split
      next heq => exact List.pairwise_cons.2 ⟨fun e he => heq ▸ hentry e he, hrest⟩
      next hne =>
        refine List.pairwise_cons.2 ⟨fun e he => ?_, ih hrest⟩
        rcases mem_place he with rfl | he
        · exact Std.not_le.1 fun hle => hne (String.le_antisymm hle (String.not_lt.1 hnlt))
        · exact hentry e he

/-- Sets a field, in place of the value it had. -/
def insert (m : FieldMap α) (name : String) (value : α) : FieldMap α :=
  ⟨place name value m.entries, pairwise_place name value m.ordered⟩

/-- The map of a list of entries; of several entries with one name the last counts. -/
def ofList (entries : List (String × α)) : FieldMap α :=
  entries.foldl (fun m e => m.insert e.1 e.2) empty

/-- A map that is made of some entries has no other entries. -/
theorem mem_ofList {entries : List (String × α)} {e : String × α}
    (h : e ∈ (ofList entries).entries) : e ∈ entries := by
  have hfold : ∀ (rest : List (String × α)) (m : FieldMap α),
      e ∈ (rest.foldl (fun m e => m.insert e.1 e.2) m).entries → e ∈ m.entries ∨ e ∈ rest := by
    intro rest
    induction rest with
    | nil => exact fun m h => .inl h
    | cons first rest ih =>
      intro m h
      rcases ih _ h with h | h
      · rcases mem_place h with rfl | h
        · exact .inr List.mem_cons_self
        · exact .inl h
      · exact .inr (List.mem_cons_of_mem _ h)
  rcases hfold entries empty h with h | h
  · cases h
  · exact h

end FieldMap

end AbilityGraph
