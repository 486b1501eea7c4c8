import AbilityGraph.Json.Writer
import AbilityGraph.Proofs.Json.Wire

/-!
# Reading back what was written

What is written for something arrives as a value, and it is read back if it is read from that
value, in whatever order members arrive (`Wire.ReadsBack`). A list or a map is read back if what it
holds is, and a record if its members are. A `Wire.Member` is a member of a record with the proof
that it is read back. A record that is written from such members gives each of them what it was
written from (`Wire.Alike.exists_find`), so all that is left to show of a record is that it is put
together again from the contents of its members (`Wire.readsBack_record`).
-/

set_option autoImplicit false

namespace AbilityGraph

namespace Wire

/-- What is written arrives as a value, and from this value it is read back, in whatever order its
members arrive. -/
def ReadsBack {α : Type} (read : Wire → Option α) (tree : Json) (x : α) : Prop :=
  ∃ value, (ofJson tree).Shows value ∧ ∀ w, w.Shows value → read w = some x

/-- If reading depends on the value alone, then it is enough that what is written is read back as it
was written. -/
theorem readsBack_of_congr {α : Type} {read : Wire → Option α}
    (hcongr : ∀ w other : Wire, w.Alike other → read w = read other) {tree : Json} {x : α}
    (hvalue : (ofJson tree).IsValue) (hread : read (ofJson tree) = some x) :
    ReadsBack read tree x := by
  obtain ⟨value, hshows⟩ := hvalue
  refine ⟨value, hshows, fun w hw => ?_⟩
  rw [hcongr w (ofJson tree) ⟨value, hw, hshows⟩, hread]

section ReadBack

variable {α : Type} {read : Wire → Option α} {tree : Json} {x : α} {w : Wire}

/-- What is read back arrives as a value. -/
theorem ReadsBack.isValue (h : ReadsBack read tree x) : (ofJson tree).IsValue := by
  obtain ⟨value, hshows, -⟩ := h
  exact ⟨value, hshows⟩

/-- It is read back from all that shows the same value. -/
theorem ReadsBack.read_eq (h : ReadsBack read tree x) (hw : w.Alike (ofJson tree)) :
    read w = some x := by
  obtain ⟨value, hshows, hread⟩ := h
  exact hread w (hw.symm.shows hshows)

/-- Something is read back if it is from all that shows the value written. -/
theorem readsBack_of_alike (hvalue : (ofJson tree).IsValue)
    (hread : ∀ w : Wire, w.Alike (ofJson tree) → read w = some x) : ReadsBack read tree x := by
  obtain ⟨value, hshows⟩ := hvalue
  exact ⟨value, hshows, fun w hw => hread w ⟨value, hw, hshows⟩⟩

/-! ## Plain values -/

/-- What is neither an array nor an object arrives as a value. -/
theorem isValue_of_isPlain (hplain : (ofJson tree).isPlain = true) : (ofJson tree).IsValue := by
  cases tree with
  | array items => cases hplain
  | object members => cases hplain
  | null => exact ⟨_, shows_ofJson .null⟩
  | bool value => exact ⟨_, shows_ofJson (.bool value)⟩
  | number value => exact ⟨_, shows_ofJson (.number value)⟩
  | string value => exact ⟨_, shows_ofJson (.string value)⟩

/-- A value that is neither an array nor an object arrives in one way only. -/
theorem Alike.eq_of_isPlain (h : w.Alike (ofJson tree)) (hplain : (ofJson tree).isPlain = true) :
    w = ofJson tree := by
  obtain ⟨-, heq⟩ | ⟨_, _, -, heq, -⟩ | ⟨_, _, -, heq, -⟩ := h.parts
  · exact heq
  · rw [heq] at hplain
    cases hplain
  · rw [heq] at hplain
    cases hplain

/-- A value other than null does not arrive as null. -/
theorem Alike.ne_null (h : w.Alike (ofJson tree)) (hne : tree ≠ .null) : w ≠ null := by
  rintro rfl
  obtain ⟨-, heq⟩ | ⟨_, _, heq, -⟩ | ⟨_, _, heq, -⟩ := h.parts
  · cases tree with
    | null => exact hne rfl
    | _ => cases heq
  · cases heq
  · cases heq

/-- What is written as a plain value is read back if it is read from just that. -/
theorem readsBack_of_isPlain (hplain : (ofJson tree).isPlain = true)
    (hread : read (ofJson tree) = some x) : ReadsBack read tree x := by
  apply readsBack_of_alike (isValue_of_isPlain hplain)
  intro w hw
  rw [hw.eq_of_isPlain hplain, hread]

/-- A text is read back. -/
theorem readsBack_string (text : String) : ReadsBack string? (.string text) text :=
  readsBack_of_isPlain rfl rfl

/-- A boolean is read back. -/
theorem readsBack_bool (b : Bool) : ReadsBack bool? (.bool b) b := readsBack_of_isPlain rfl rfl

/-- A count is read back if it has no more than 64 binary digits. -/
theorem readsBack_count {n : Nat} (h : n ≤ 18446744073709551615) :
    ReadsBack count? (Json.count n) n := by
  apply readsBack_of_isPlain rfl
  show (if (0 : Int) ≤ n ∧ (n : Int) ≤ 18446744073709551615 then some (n : Int).toNat else none) = _
  rw [if_pos (by omega), Int.toNat_natCast]

/-- A config value is read back. -/
theorem readsBack_value (value : Value) : ReadsBack toValue? value.tree value :=
  ⟨value.tree, shows_ofJson value.normal, fun _ hw => hw.toValue?_eq⟩

/-- An alternative is read back if no alternative before it has the same name. -/
theorem readsBack_choice {text : α → String} {all : List α}
    (h : all.find? (text · == text x) = some x) :
    ReadsBack (choice? text all) (.string (text x)) x := readsBack_of_isPlain rfl h

/-! ## Lists and maps -/

/-- A list is read back if each of its items is. -/
theorem readsBack_list {write : α → Json} {items : List α}
    (h : ∀ item ∈ items, ReadsBack read (write item) item) :
    ReadsBack (list? read) (Json.list write items) items := by
  have htree : ofJson (Json.list write items) =
      array (items.map fun item => ofJson (write item)) := by
    rw [Json.list, ofJson, ofItems_eq_map, List.map_map]
    rfl
  apply readsBack_of_alike <;> rw [htree]
  · apply isValue_array
    intro part hpart
    obtain ⟨item, hitem, rfl⟩ := List.mem_map.1 hpart
    exact (h item hitem).isValue
  · intro w hw
    obtain ⟨hplain, rfl⟩ | ⟨parts, _, rfl, ⟨⟩, hall⟩ | ⟨_, _, -, heq, -⟩ := hw.parts
    · cases hplain
    · rw [List.forall₂_map_right_iff] at hall
      show parts.mapM read = some items
      rw [mapM_eq_some_iff]
      clear hw htree
      induction hall with
      | nil => exact .nil
      | cons hfirst _ ih =>
        rw [List.forall_mem_cons] at h
        exact .cons (h.1.read_eq hfirst) (ih h.2)
    · cases heq

/-- A map is read if each of its entries is read from what an object has for its name, and if the
object has no other names. -/
theorem fieldMap?_object {members : List (String × Wire)} (hnodup : (members.map (·.1)).Nodup)
    {m : FieldMap α}
    (hread : ∀ name, Option.Rel (fun part x => read part = some x) (members.lookup name)
      (m.get? name)) : fieldMap? read (object members) = some m := by
  have hmembers : ∀ member ∈ members, ∃ entry : String × α,
      (read member.2).map (member.1, ·) = some entry := by
    intro member hmember
    have hmem := hread member.1
    rw [(lookup_eq_some_iff_mem hnodup).2 hmember, rel_some_left_iff] at hmem
    obtain ⟨x, -, hx⟩ := hmem
    exact ⟨(member.1, x), by rw [hx, Option.map_some]⟩
  obtain ⟨entries, hentries⟩ := exists_mapM hmembers
  have heq : FieldMap.ofList entries = m := by
    apply FieldMap.ext_get?
    intro name
    rw [FieldMap.get?_ofList (names_mapM hentries ▸ hnodup)]
    apply eq_of_rel
    apply rel_both (rel_swap (lookup_mapM hentries name)) (rel_swap (hread name))
    exact fun x part y hx hy => Option.some.inj (hx.symm.trans hy)
  simp only [fieldMap?, hentries, Option.bind_eq_bind, Option.bind_some, heq]

/-- A map is read back if each of its values is. -/
theorem readsBack_fieldMap {write : α → Json} {m : FieldMap α}
    (h : ∀ entry ∈ m.entries, ReadsBack read (write entry.2) entry.2) :
    ReadsBack (fieldMap? read) (Json.fieldMap write m) m := by
  have htree : ofJson (Json.fieldMap write m) =
      object (m.entries.map fun entry => (entry.1, ofJson (write entry.2))) := by
    rw [Json.fieldMap, ofJson, ofMembers_eq_map, List.map_map]
    rfl
  apply readsBack_of_alike <;> rw [htree]
  · apply isValue_object
    · rw [List.map_map]
      exact m.nodup_names
    · intro member hmember
      obtain ⟨entry, hentry, rfl⟩ := List.mem_map.1 hmember
      exact (h entry hentry).isValue
  · intro w hw
    obtain ⟨hplain, rfl⟩ | ⟨_, _, -, heq, -⟩ | ⟨members, _, rfl, ⟨⟩, hnodup, -, hlookup⟩ := hw.parts
    · cases hplain
    · cases heq
    · apply fieldMap?_object hnodup
      intro name
      have halike := rel_swap (hlookup name)
      rw [lookup_map_snd fun x => ofJson (write x), rel_map_left_iff] at halike
      apply rel_swap
      apply rel_imp halike
      intro x hx part hpart
      exact (h (name, x) ((lookup_eq_some_iff_mem m.nodup_names).1 hx)).read_eq hpart

end ReadBack

/-! ## What was read -/

section Read

variable {α : Type} {read : Wire → Option α}

/-- A member that may be missing is read if it is there and not null. -/
theorem optional_some {w : Wire} (h : w ≠ null) :
    optional read (some w) = (read w).map some := by
  cases w with
  | null => exact absurd rfl h
  | _ => rfl

/-- A member that must be there was read from something that arrived. -/
theorem exists_of_required {member : Option Wire} {x : α} (h : required read member = some x) :
    ∃ part, read part = some x := by
  cases member with
  | none => cases h
  | some part => exact ⟨part, h⟩

/-- A member that may be missing and is not was read from something other than null. -/
theorem exists_of_optional {member : Option Wire} {x : α}
    (h : optional read member = some (some x)) : ∃ part, part ≠ null ∧ read part = some x := by
  cases member with
  | none => cases h
  | some part =>
    by_cases hnull : part = null
    · rw [hnull] at h
      cases h
    · rw [optional_some hnull] at h
      obtain ⟨_, hread, ⟨⟩⟩ := Option.map_eq_some_iff.1 h
      exact ⟨part, hnull, hread⟩

/-- What is read from a member with a default is the default, or is read from what the member
holds. -/
theorem exists_of_withDefault {default : α} {member : Option Wire} {x : α}
    (h : withDefault default read member = some x) :
    x = default ∨ ∃ part, member = some part ∧ read part = some x := by
  cases member with
  | none =>
    cases h
    exact .inl rfl
  | some part => exact .inr ⟨part, rfl, h⟩

/-- Each item of a list is read from an item of what arrives. -/
theorem exists_of_list? {w : Wire} {items : List α} (h : list? read w = some items) {item : α}
    (hitem : item ∈ items) : ∃ parts, w = array parts ∧ ∃ part ∈ parts, read part = some item := by
  cases w with
  | array parts => exact ⟨parts, rfl, exists_of_mapM h hitem⟩
  | _ => cases h

/-- Each value of a map was read from something that arrived. -/
theorem exists_of_fieldMap? {w : Wire} {m : FieldMap α} (h : fieldMap? read w = some m)
    {entry : String × α} (hentry : entry ∈ m.entries) : ∃ part, read part = some entry.2 := by
  cases w with
  | object members =>
    obtain ⟨entries, hentries, ⟨⟩⟩ := Option.bind_eq_some_iff.1 h
    obtain ⟨member, -, hmember⟩ := exists_of_mapM hentries (FieldMap.mem_ofList hentry)
    obtain ⟨x, hx, rfl⟩ := Option.map_eq_some_iff.1 hmember
    exact ⟨member.2, hx⟩
  | _ => cases h

/-- A config value is not null unless it arrived as null. -/
theorem tree_ne_null_of_toValue? {w : Wire} {value : Value} (h : toValue? w = some value)
    (hnull : w ≠ null) : value.tree ≠ .null := by
  intro htree
  have hjson := toValue?_eq_some_iff.1 h
  rw [htree] at hjson
  cases w with
  | null => exact hnull rfl
  | array items =>
    obtain ⟨_, -, ⟨⟩⟩ := Option.map_eq_some_iff.1 hjson
  | object members =>
    obtain ⟨_, -, ⟨⟩⟩ := Option.map_eq_some_iff.1 hjson
  | _ => cases hjson

/-- A count that was read has no more than 64 binary digits. -/
theorem le_of_count? {w : Wire} {n : Nat} (h : count? w = some n) : n ≤ 18446744073709551615 := by
  unfold count? at h
  split at h
  next =>
    split at h
    next hbounds =>
      cases h
      omega
    next => cases h
  next => cases h

end Read

/-! ## Records -/

/-- What arrives for a member, if anything, is what is written for it. -/
def Arrives (w : Option Wire) (tree : Option Json) : Prop :=
  Option.Rel (fun w tree => w.Alike (ofJson tree)) w tree

/-- A member of a record: what it holds, how that is written and read, and that it is read back.
Nothing is written for a member that is absent. -/
structure Member where
  name : String
  Content : Type
  content : Content
  read : Option Wire → Option Content
  tree : Option Json
  written : List (String × Json)
  written_eq : written = (tree.map (name, ·)).toList
  isValue : ∀ t, tree = some t → (ofJson t).IsValue
  read_eq : ∀ w, Arrives w tree → read w = some content

namespace Member

variable {α : Type} {read : Wire → Option α} {tree : Json} {x : α}

/-- A member that is always written, with how it is read where it may be missing. -/
def always (name : String) (read : Option Wire → Option α)
    (h : ReadsBack (fun w => read (some w)) tree x) : Member where
  name := name
  Content := α
  content := x
  read := read
  tree := some tree
  written := Json.member name tree
  written_eq := rfl
  isValue _ ht := Option.some.inj ht ▸ h.isValue
  read_eq w hw := by
    obtain ⟨part, rfl, hpart⟩ := rel_some_left_iff.1 (rel_swap hw)
    exact h.read_eq hpart

/-- A member that must be there. -/
def required (name : String) (h : ReadsBack read tree x) : Member :=
  always name (Wire.required read) h

/-- A member that is always written, though it has a default value. -/
def withDefault (name : String) (default : α) (h : ReadsBack read tree x) : Member :=
  always name (Wire.withDefault default read) h

/-- A member that is left out when it is absent, and that is never written as null. -/
def optional (name : String) (write : α → Json) (x : Option α)
    (h : ∀ a, x = some a → ReadsBack read (write a) a)
    (hnull : ∀ a, x = some a → write a ≠ .null) : Member where
  name := name
  Content := Option α
  content := x
  read := Wire.optional read
  tree := x.map write
  written := Json.member? name write x
  written_eq := by cases x <;> rfl
  isValue t ht := by
    obtain ⟨a, ha, rfl⟩ := Option.map_eq_some_iff.1 ht
    exact (h a ha).isValue
  read_eq w hw := by
    cases x with
    | none =>
      rw [rel_none_left_iff.1 (rel_swap hw)]
      rfl
    | some a =>
      obtain ⟨part, rfl, hpart⟩ := rel_some_left_iff.1 (rel_swap hw)
      have hne : part ≠ null := hpart.ne_null (hnull a rfl)
      rw [optional_some hne, (h a rfl).read_eq hpart, Option.map_some]

/-- What is written for a member is found at its name and nowhere else. -/
theorem lookup_written (member : Member) (name : String) :
    member.written.lookup name = if name = member.name then member.tree else none := by
  rw [member.written_eq]
  cases member.tree with
  | none => exact (ite_self none).symm
  | some tree => exact lookup_cons_eq member.name name tree []

/-- A member is written at most once, under its name. -/
theorem names_written_sublist (member : Member) :
    (member.written.map (·.1)).Sublist [member.name] := by
  rw [member.written_eq]
  cases member.tree with
  | none => exact List.nil_sublist _
  | some tree => exact List.Sublist.refl _

end Member

/-- What is written for the members of a record, one after the other. -/
def writtenFor (members : List Member) : List (String × Json) := (members.map (·.written)).flatten

section Records

variable {members : List Member}

/-- What is written for the members of a record has their names in their order. -/
theorem names_writtenFor_sublist (members : List Member) :
    ((writtenFor members).map (·.1)).Sublist (members.map (·.name)) := by
  induction members with
  | nil => exact List.Sublist.refl _
  | cons member rest ih =>
    have happend := member.names_written_sublist.append ih
    rwa [← List.map_append] at happend

/-- A record has for the name of each member what is written for the member. -/
theorem lookup_writtenFor (hnodup : (members.map (·.name)).Nodup) {member : Member}
    (hmember : member ∈ members) : (writtenFor members).lookup member.name = member.tree := by
  induction members with
  | nil => cases hmember
  | cons first rest ih =>
    rw [List.map_cons, List.nodup_cons] at hnodup
    show (first.written ++ writtenFor rest).lookup member.name = member.tree
    rw [List.lookup_append, first.lookup_written]
    obtain rfl | hmember := List.mem_cons.1 hmember
    · have hnone : (writtenFor rest).lookup member.name = none := by
        apply lookup_eq_none_iff_not_mem.2
        exact fun hmem => hnodup.1 ((names_writtenFor_sublist rest).mem hmem)
      rw [if_pos rfl, hnone, Option.or_none]
    · have hne : member.name ≠ first.name := by
        intro heq
        exact hnodup.1 (heq ▸ List.mem_map_of_mem hmember)
      rw [if_neg hne, Option.none_or, ih hnodup.2 hmember]

/-- A written object arrives with its members in their order. -/
theorem ofJson_object (entries : List (String × Json)) :
    ofJson (.object entries) = object (entries.map fun e => (e.1, ofJson e.2)) := by
  rw [ofJson, ofMembers_eq_map]

/-- A record whose members have different names arrives as a value. -/
theorem isValue_record (members : List Member) (hnodup : (members.map (·.name)).Nodup) :
    (ofJson (.record (members.map (·.written)))).IsValue := by
  show (ofJson (.object (writtenFor members))).IsValue
  rw [ofJson_object]
  apply isValue_object
  · rw [List.map_map]
    exact hnodup.sublist (names_writtenFor_sublist members)
  · intro entry hentry
    obtain ⟨part, hpart, rfl⟩ := List.mem_map.1 hentry
    obtain ⟨_, hwritten, hpart⟩ := List.mem_flatten.1 hpart
    obtain ⟨member, -, rfl⟩ := List.mem_map.1 hwritten
    rw [member.written_eq, Option.mem_toList, Option.map_eq_some_iff] at hpart
    obtain ⟨tree, htree, rfl⟩ := hpart
    exact member.isValue tree htree

/-- In what arrives for a record, each member is found, and is read as what it was written from. -/
theorem Alike.exists_find {w : Wire} (h : w.Alike (ofJson (.record (members.map (·.written)))))
    (hnodup : (members.map (·.name)).Nodup) :
    ∃ find : String → Option Wire,
      w.members? (members.map fun m => [m.name]) = some (members.map fun m => find m.name) ∧
        ∀ m ∈ members, m.read (find m.name) = some m.content := by
  have halike : w.Alike (ofJson (.object (writtenFor members))) := h
  rw [ofJson_object] at halike
  obtain ⟨hplain, rfl⟩ | ⟨_, _, -, heq, -⟩ | ⟨parts, _, rfl, ⟨⟩, hparts, -, hlookup⟩ := halike.parts
  · cases hplain
  · cases heq
  · refine ⟨fun name => parts.lookup name, ?_, fun m hm => m.read_eq _ ?_⟩
    · have hmembers := members?_object hparts (members.map (·.name))
      rwa [List.map_map, List.map_map] at hmembers
    · have hfound := rel_swap (hlookup m.name)
      rw [lookup_map_snd, lookup_writtenFor hnodup hm, rel_map_left_iff] at hfound
      exact rel_swap hfound

/-- A record is read back if it is put together from the contents of its members. -/
theorem readsBack_record {α : Type} {read : Wire → Option α} {x : α} (members : List Member)
    (hnodup : (members.map (·.name)).Nodup)
    (hread : ∀ (w : Wire) (find : String → Option Wire),
      w.members? (members.map fun m => [m.name]) = some (members.map fun m => find m.name) →
        (∀ m ∈ members, m.read (find m.name) = some m.content) → read w = some x) :
    ReadsBack read (.record (members.map (·.written))) x := by
  apply readsBack_of_alike (isValue_record members hnodup)
  intro w hw
  obtain ⟨find, hfound, hmembers⟩ := hw.exists_find hnodup
  exact hread w find hfound hmembers

/-- In what arrives for a tagged record the tag is found, and what is left arrives for the record of
the other members. -/
theorem Alike.exists_tagged {w : Wire} {key tag : String}
    (h : w.Alike (ofJson (.record (Json.member key (.string tag) :: members.map (·.written)))))
    (hnodup : (key :: members.map (·.name)).Nodup) :
    ∃ content, w.tagged? key = some (.string tag, content) ∧
      content.Alike (ofJson (.record (members.map (·.written)))) := by
  have hcontent : ofJson (.record (members.map (·.written))) =
      object ((writtenFor members).map fun e => (e.1, ofJson e.2)) := ofJson_object _
  have htree : ofJson (.record (Json.member key (.string tag) :: members.map (·.written))) =
      object ((key, string tag) :: (writtenFor members).map fun e => (e.1, ofJson e.2)) :=
    ofJson_object _
  -- no other member has the name of the tag, so taking the tag off leaves all others
  have hrest : ∀ e ∈ (writtenFor members).map (fun e => (e.1, ofJson e.2)),
      (e.1 != key) = true := by
    intro e he
    obtain ⟨entry, hentry, rfl⟩ := List.mem_map.1 he
    have hname := (names_writtenFor_sublist members).mem (List.mem_map_of_mem hentry)
    exact bne_iff_ne.2 fun heq => (List.nodup_cons.1 hnodup).1 (heq ▸ hname)
  have htagged := h.tagged? key
  obtain ⟨value, -, hshows⟩ := h
  rw [htree] at hshows htagged
  rw [tagged?_object hshows.exists_fields.1 hshows.isReadable, List.lookup_cons_self,
    List.filter_cons_of_neg (by simp), List.filter_eq_self.2 hrest, Option.map_some] at htagged
  obtain ⟨⟨own, content⟩, heq, hown, hpart⟩ := rel_some_left_iff.1 (rel_swap htagged)
  have hplain : own.Alike (ofJson (.string tag)) := hown
  have htag : own = string tag := hplain.eq_of_isPlain rfl
  exact ⟨content, by rw [heq, htag], hcontent ▸ hpart⟩

end Records

end Wire

end AbilityGraph
