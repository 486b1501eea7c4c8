import AbilityGraph.Proofs.Json.Wire
import AbilityGraph.Step.Wire

/-!
# Reading steps

A step is read as a branch or else as an action (`Step.ofReadable?_eq`), and which of the two it is,
and what is in it, depends on nothing but the value that arrives (`Step.ofReadable?_congr`): neither
on the order of members nor on anything else that two arrivals of one value may differ in. An action
is read just if what is written for it is the value that arrives (`Step.actionOfWire?_eq_some_iff`).
-/

set_option autoImplicit false

namespace AbilityGraph

open Wire (Alike Shows IsValue)

namespace Wire

section Readers

variable {α : Type} {read : Wire → Option α} {w other : Wire} {x y : Option Wire}

/-- To read a list knowing that its items are smaller is to read a list. -/
theorem smallerList?_eq (w : Wire) (read : Wire → Option α) :
    w.smallerList? (fun x _ => read x) = list? read w := by
  cases w with
  | array items => simp [smallerList?, list?]
  | _ => rfl

/-- To read a member with a default, knowing that it is smaller, is to read a member with a
default. -/
theorem smallerOr_eq {names : List Names} {found : List (Option Wire)}
    (h : w.members? names = some found) (default : α) (read : Wire → Option α)
    {member : Option Wire} (hmember : member ∈ found) :
    smallerOr h default (fun x _ => read x) member hmember = withDefault default read member := by
  cases member <;> rfl

/-- A member that must be there is read the same from arrivals that are alike. -/
theorem required_congr (h : Option.Rel Alike x y)
    (hread : ∀ a, x = some a → ∀ b, a.Alike b → read a = read b) :
    required read x = required read y := by
  cases h with
  | none => rfl
  | some h => exact hread _ rfl _ h

/-- A member with a default is read the same from arrivals that are alike. -/
theorem withDefault_congr (h : Option.Rel Alike x y) (default : α)
    (hread : ∀ a, x = some a → ∀ b, a.Alike b → read a = read b) :
    withDefault default read x = withDefault default read y := by
  cases h with
  | none => rfl
  | some h => exact hread _ rfl _ h

/-- A text is read the same from arrivals that are alike. -/
theorem string?_congr (h : w.Alike other) : w.string? = other.string? := by
  obtain ⟨-, rfl⟩ | ⟨items, others, rfl, rfl, -⟩ | ⟨members, others, rfl, rfl, -⟩ := h.parts
  · rfl
  · rfl
  · rfl

/-- Records are read alike if the lists of their members are. -/
theorem bind_members?_congr {found? : List (Option Wire) → Option α} (names : List String)
    (h : w.Alike other)
    (hfound : ∀ found others, List.Forall₂ (Option.Rel Alike) found others →
      (∀ a, some a ∈ found → sizeOf a < sizeOf w) → found? found = found? others) :
    (w.members? (names.map ([·]))).bind found? =
      (other.members? (names.map ([·]))).bind found? := by
  have hmembers := h.members? names
  cases hw : w.members? (names.map ([·])) with
  | none =>
    rw [hw, rel_none_left_iff] at hmembers
    rw [hmembers]
  | some found =>
    rw [hw, rel_some_left_iff] at hmembers
    obtain ⟨others, hothers, hall⟩ := hmembers
    rw [hothers, Option.bind_some, Option.bind_some]
    exact hfound found others hall fun a ha => sizeOf_members? hw ha

/-- Lists are read alike if their items are, which are smaller. -/
theorem list?_congr (h : w.Alike other)
    (hread : ∀ a, sizeOf a < sizeOf w → ∀ b, a.Alike b → read a = read b) :
    list? read w = list? read other := by
  obtain ⟨-, rfl⟩ | ⟨items, others, rfl, rfl, hall⟩ | ⟨members, others, rfl, rfl, -⟩ := h.parts
  · rfl
  · have hitems : ∀ a ∈ items, ∀ b, a.Alike b → read a = read b := by
      intro a ha
      apply hread
      have := List.sizeOf_lt_of_mem ha
      rw [array.sizeOf_spec]
      omega
    clear h hread
    show items.mapM read = others.mapM read
    induction hall with
    | nil => rfl
    | @cons item _ rest others hfirst _ ih =>
      rw [List.mapM_cons, List.mapM_cons, hitems item List.mem_cons_self _ hfirst,
        ih fun a ha => hitems a (List.mem_cons_of_mem _ ha)]
  · rfl

end Readers

end Wire

namespace Condition

/-- A tag is read the same from arrivals that are alike. -/
theorem nestedTag?_congr {w other : Wire} (h : w.Alike other) :
    nestedTag? w = nestedTag? other := by
  obtain ⟨-, rfl⟩ | ⟨items, others, rfl, rfl, -⟩ | ⟨members, others, rfl, rfl, -⟩ := h.parts
  · rfl
  · rfl
  · rfl

/-- A constant with the given members. -/
def literalOf? : List (Option Wire) → Option Condition
  | [value] => do return .literal (← Wire.required Wire.toValue? value)
  | _ => none

/-- A condition with a tag and the other members. -/
def ofContent? (tag : String) (content : Wire) : Option Condition :=
  match tag with
  | "LITERAL" => (content.members? [["value"]]).bind literalOf?
  | "ALWAYS" => content.nothing?.map fun _ => .always
  | _ => none

/-- A condition is read by its tag and then by its other members. -/
theorem ofWireWith?_eq (tag? : Wire → Option String) (w : Wire) :
    ofWireWith? tag? w = (w.tagged? "type").bind fun parts =>
      (tag? parts.1).bind fun tag => ofContent? tag parts.2 := rfl

/-- The other members of a condition are read the same from arrivals that are alike. -/
theorem ofContent?_congr {w other : Wire} (tag : String) (h : w.Alike other) :
    ofContent? tag w = ofContent? tag other := by
  unfold ofContent?
  split
  · apply Wire.bind_members?_congr ["value"] h
    intro found others hall _
    obtain _ | ⟨hvalue, hmore⟩ := hall
    · rfl
    cases hmore with
    | cons => rfl
    | nil =>
      simp only [literalOf?]
      rw [Wire.required_congr hvalue fun _ _ _ h => h.toValue?_eq]
  · rw [h.nothing?_eq]
  · rfl

/-- Two arrivals of one value are read as the same condition. -/
theorem nestedOfWire?_congr {w other : Wire} (h : w.Alike other) :
    nestedOfWire? w = nestedOfWire? other := by
  unfold nestedOfWire?
  rw [ofWireWith?_eq, ofWireWith?_eq]
  have htagged := h.tagged? "type"
  revert htagged
  generalize w.tagged? "type" = parts
  generalize other.tagged? "type" = others
  intro htagged
  cases htagged with
  | none => rfl
  | some halike =>
    obtain ⟨htag, hcontent⟩ := halike
    rw [Option.bind_some, Option.bind_some, nestedTag?_congr htag]
    congr 1
    funext tag
    exact ofContent?_congr tag hcontent

end Condition

namespace Step

/-- An else-if clause with the given members, given how a step is read. -/
def clauseOf? (read : Wire → Option Step) : List (Option Wire) → Option (Condition × List Step)
  | [condition, some steps] => do
    return (← Wire.required Condition.nestedOfWire? condition, ← Wire.list? read steps)
  | _ => none

/-- Reads an else-if clause, given how a step is read. -/
def clause? (read : Wire → Option Step) (w : Wire) : Option (Condition × List Step) :=
  (w.members? clauseNames).bind (clauseOf? read)

/-- A branch with the given members, given how a step is read. -/
def branchOf? (read : Wire → Option Step) : List (Option Wire) → Option Step
  | [type, condition, some thenSteps, elseIf, elseSteps] => do
    return .branch (← Wire.required Wire.string? type)
      (← Wire.required Condition.nestedOfWire? condition) (← Wire.list? read thenSteps)
      (← Wire.withDefault [] (Wire.list? (clause? read)) elseIf)
      (← Wire.withDefault [] (Wire.list? read) elseSteps)
  | _ => none

/-- Reads a branch, given how a step is read. -/
def branch? (read : Wire → Option Step) (w : Wire) : Option Step :=
  (w.members? branchNames).bind (branchOf? read)

/-- To read steps knowing that they are smaller is to read a list of steps. -/
theorem stepsWith?_eq (w : Wire) (read : Wire → Option Step) :
    stepsWith? w (fun x _ => read x) = fun x _ => Wire.list? read x := by
  funext x _
  exact x.smallerList?_eq read

/-- To read an else-if clause knowing that its steps are smaller is to read a clause. -/
theorem clauseWith?_eq (w : Wire) (read : Wire → Option Step) {x : Wire}
    (hx : sizeOf x < sizeOf w) :
    clauseWith? w (fun x _ => read x) x hx = clause? read x := by
  unfold clauseWith? clause?
  split
  next condition steps hfound => simp only [stepsWith?_eq, hfound, Option.bind_some, clauseOf?]
  next hother =>
    cases hfound : x.members? clauseNames with
    | none => rfl
    | some found =>
      rw [Option.bind_some]
      unfold clauseOf?
      split
      next => exact absurd hfound (hother _ _)
      next => rfl

/-- To read a branch knowing that its steps are smaller is to read a branch. -/
theorem branchWith?_eq (w : Wire) (read : Wire → Option Step) :
    branchWith? w (fun x _ => read x) = branch? read w := by
  unfold branchWith? branch?
  split
  next type condition thenSteps elseIf elseSteps hfound =>
    simp only [stepsWith?_eq, clauseWith?_eq, Wire.smallerList?_eq, Wire.smallerOr_eq, hfound,
      Option.bind_some, branchOf?]
  next hother =>
    cases hfound : w.members? branchNames with
    | none => rfl
    | some found =>
      rw [Option.bind_some]
      unfold branchOf?
      split
      next => exact absurd hfound (hother _ _ _ _ _)
      next => rfl

/-- Each member of an else-if clause has one name. -/
theorem clauseNames_eq : clauseNames = ["condition", "steps"].map ([·]) := rfl

/-- Each member of a branch has one name. -/
theorem branchNames_eq :
    branchNames = ["type", "condition", "then", "elseIf", "else"].map ([·]) := rfl

/-- A clause is read from an object by the names of its members. -/
theorem clause?_object {members : List (String × Wire)} (hnodup : (members.map (·.1)).Nodup)
    (read : Wire → Option Step) : clause? read (.object members) =
      clauseOf? read (["condition", "steps"].map fun name => members.lookup name) := by
  rw [clause?, clauseNames_eq, Wire.members?_object hnodup, Option.bind_some]

/-- A branch is read from an object by the names of its members. -/
theorem branch?_object {members : List (String × Wire)} (hnodup : (members.map (·.1)).Nodup)
    (read : Wire → Option Step) : branch? read (.object members) =
      branchOf? read (["type", "condition", "then", "elseIf", "else"].map fun name =>
        members.lookup name) := by
  rw [branch?, branchNames_eq, Wire.members?_object hnodup, Option.bind_some]

/-- A step is read as a branch, or else as an action. -/
theorem ofReadable?_eq (w : Wire) :
    ofReadable? w = (branch? ofReadable? w).or (actionOfWire? w) := by
  rw [ofReadable?, branchWith?_eq]

/-! ## Reading branches -/

section Congr

variable {read : Wire → Option Step} {w other : Wire} {found others : List (Option Wire)}

/-- An else-if clause is the same for members that are alike, if its steps are. -/
theorem clauseOf?_congr (h : List.Forall₂ (Option.Rel Alike) found others)
    (hread : ∀ a, some a ∈ found → ∀ b, a.Alike b → Wire.list? read a = Wire.list? read b) :
    clauseOf? read found = clauseOf? read others := by
  obtain _ | ⟨hcondition, _ | ⟨hsteps, hmore⟩⟩ := h
  · rfl
  · rfl
  cases hsteps with
  | none => rfl
  | some hsteps =>
    cases hmore with
    | cons => rfl
    | nil =>
      simp only [clauseOf?]
      rw [Wire.required_congr hcondition fun _ _ _ h => Condition.nestedOfWire?_congr h,
        hread _ (by simp) _ hsteps]

/-- Clauses are read alike if steps are that are smaller. -/
theorem clause?_congr (h : w.Alike other)
    (hread : ∀ a, sizeOf a < sizeOf w → ∀ b, a.Alike b → read a = read b) :
    clause? read w = clause? read other := by
  unfold clause?
  rw [clauseNames_eq]
  apply Wire.bind_members?_congr _ h
  intro found others hall hsmaller
  apply clauseOf?_congr hall
  intro a ha b hab
  apply Wire.list?_congr hab
  exact fun x hx => hread x (Nat.lt_trans hx (hsmaller a ha))

/-- A branch is the same for members that are alike, if its steps and clauses are. -/
theorem branchOf?_congr (h : List.Forall₂ (Option.Rel Alike) found others)
    (hread : ∀ a, some a ∈ found → ∀ b, a.Alike b → Wire.list? read a = Wire.list? read b)
    (hclause : ∀ a, some a ∈ found → ∀ b, a.Alike b →
      Wire.list? (clause? read) a = Wire.list? (clause? read) b) :
    branchOf? read found = branchOf? read others := by
  obtain _ | ⟨htype, _ | ⟨hcondition, _ | ⟨hthen, hmore⟩⟩⟩ := h
  · rfl
  · rfl
  · rfl
  cases hthen with
  | none => rfl
  | some hthen =>
    obtain _ | ⟨helseIf, _ | ⟨helse, hmore⟩⟩ := hmore
    · rfl
    · rfl
    cases hmore with
    | cons => rfl
    | nil =>
      simp only [branchOf?]
      rw [Wire.required_congr htype fun _ _ _ h => Wire.string?_congr h,
        Wire.required_congr hcondition fun _ _ _ h => Condition.nestedOfWire?_congr h,
        hread _ (by simp) _ hthen,
        Wire.withDefault_congr helseIf [] fun a ha b hab => hclause a (by simp [ha]) b hab,
        Wire.withDefault_congr helse [] fun a ha b hab => hread a (by simp [ha]) b hab]

/-- Branches are read alike if steps are that are smaller. -/
theorem branch?_congr (h : w.Alike other)
    (hread : ∀ a, sizeOf a < sizeOf w → ∀ b, a.Alike b → read a = read b) :
    branch? read w = branch? read other := by
  unfold branch?
  rw [branchNames_eq]
  apply Wire.bind_members?_congr _ h
  intro found others hall hsmaller
  apply branchOf?_congr hall
  · intro a ha b hab
    apply Wire.list?_congr hab
    exact fun x hx => hread x (Nat.lt_trans hx (hsmaller a ha))
  · intro a ha b hab
    apply Wire.list?_congr hab
    intro x hx y hxy
    apply clause?_congr hxy
    exact fun z hz => hread z (Nat.lt_trans hz (Nat.lt_trans hx (hsmaller a ha)))

end Congr

/-! ## Reading actions -/

/-- An object is that of an action: it has the type, and each other member is a field. -/
structure IsAction (shown : FieldMap Json) (type : String) (fields : FieldMap Value) : Prop where
  type : shown.get? "type" = some (.string type)
  fields : ∀ name, Option.Rel (fun value tree => value.tree = tree) (fields.get? name)
    (if name = "type" then none else shown.get? name)

/-- An object is that of one action only. -/
theorem IsAction.unique {shown : FieldMap Json} {type : String} {fields others : FieldMap Value}
    (h : IsAction shown type fields) (hothers : IsAction shown type others) : fields = others := by
  apply FieldMap.ext_get?
  intro name
  apply eq_of_rel
  apply rel_both (h.fields name) (hothers.fields name)
  exact fun value tree other hvalue hother => Value.ext (hvalue.trans hother.symm)

/-- An action arrives with its type first and then its fields, all as members of one object. -/
theorem ofJson_action (type : String) (fields : FieldMap Value) :
    Wire.ofJson (toJson (.action type fields)) =
      .object (("type", .string type) ::
        fields.entries.map fun e => (e.1, Wire.ofJson e.2.tree)) := by
  rw [toJson, Wire.ofJson, Wire.ofMembers_eq_map, List.map_cons, List.map_map]
  rfl

/-- A written action has its type at the name of the type, and its fields at their own. -/
theorem lookup_written (type : String) (fields : FieldMap Value) (name : String) :
    List.lookup name (("type", Wire.string type) ::
        fields.entries.map fun e => (e.1, Wire.ofJson e.2.tree)) =
      if name = "type" then some (.string type)
      else (fields.get? name).map fun value => Wire.ofJson value.tree := by
  rw [lookup_cons_eq, lookup_map_snd (fun value : Value => Wire.ofJson value.tree)]
  rfl

/-- A written action repeats a name just if one of its fields has the name of the type. -/
theorem nodup_written_iff (type : String) (fields : FieldMap Value) :
    ((("type", Wire.string type) :: fields.entries.map fun e =>
        (e.1, Wire.ofJson e.2.tree)).map (·.1)).Nodup ↔ fields.get? "type" = none := by
  have hnames : (fields.entries.map fun e => (e.1, Wire.ofJson e.2.tree)).map (·.1) =
      fields.entries.map (·.1) := by
    rw [List.map_map]
    rfl
  rw [List.map_cons, hnames, List.nodup_cons, and_iff_left fields.nodup_names]
  exact lookup_eq_none_iff_not_mem.symm

/-- What is written for an action is its object. -/
theorem shows_written_iff {type : String} {fields : FieldMap Value} {shown : FieldMap Json} :
    (Wire.ofJson (toJson (.action type fields))).Shows (.object shown.entries) ↔
      IsAction shown type fields := by
  rw [ofJson_action]
  rw [Wire.shows_fields_iff, nodup_written_iff]
  constructor
  · rintro ⟨hnodup, hlookup⟩
    constructor
    · have htype := hlookup "type"
      rw [lookup_written, if_pos rfl] at htype
      exact Wire.rel_string_left_iff.1 htype
    · intro name
      by_cases hname : name = "type"
      · rw [hname, hnodup]
        exact .none
      · have hfield := hlookup name
        rw [lookup_written, if_neg hname, rel_map_left_iff] at hfield
        rw [if_neg hname]
        apply rel_imp hfield
        intro value _ tree hshows
        exact Option.some.inj
          ((Wire.shows_ofJson value.normal).toJson?_eq.symm.trans hshows.toJson?_eq)
  · intro h
    have hnone : fields.get? "type" = none := by
      have htype := h.fields "type"
      rw [if_pos rfl] at htype
      exact rel_none_left_iff.1 (rel_swap htype)
    refine ⟨hnone, fun name => ?_⟩
    rw [lookup_written]
    split
    next hname =>
      rw [hname]
      exact Wire.rel_string_left_iff.2 h.type
    next hname =>
      have hfield := h.fields name
      rw [if_neg hname] at hfield
      rw [rel_map_left_iff]
      apply rel_imp hfield
      rintro value - tree rfl
      exact Wire.shows_ofJson value.normal

/-- The values of all members but the type. -/
def fieldsOf? (members : List (String × Wire)) : Option (List (String × Value)) :=
  (members.filter (·.1 != "type")).mapM fun m => (m.2.toValue?).map (m.1, ·)

/-- If no name is repeated, then an object is read as an action with its type and all other members
as fields. -/
theorem actionOfWire?_object {members : List (String × Wire)}
    (hnodup : (members.map (·.1)).Nodup) :
    actionOfWire? (.object members) = (members.lookup "type").bind fun type =>
      (fieldsOf? members).bind fun fields =>
        type.string?.map fun type => .action type (.ofList fields) := by
  unfold actionOfWire?
  dsimp only
  rw [filter_name_eq hnodup]
  cases members.lookup "type" with
  | none => rfl
  | some type =>
    rw [Option.bind_some]
    show (fieldsOf? members).bind _ = _
    congr 1
    funext fields
    cases type.string? <;> rfl

/-- The fields of an action are read from the other members of its object. -/
theorem isAction_of_mapM {members : List (String × Wire)} {shown : FieldMap Json}
    (h : (Wire.object members).Shows (.object shown.entries)) {type : String}
    (htype : members.lookup "type" = some (.string type)) {fields : List (String × Value)}
    (hfields : fieldsOf? members = some fields) :
    IsAction shown type (.ofList fields) := by
  obtain ⟨hnodup, hlookup⟩ := Wire.shows_fields_iff.1 h
  constructor
  · have hshown := hlookup "type"
    rw [htype] at hshown
    exact Wire.rel_string_left_iff.1 hshown
  · intro name
    unfold fieldsOf? at hfields
    have hnames : (fields.map (·.1)).Nodup :=
      names_mapM hfields ▸ hnodup.sublist (List.filter_sublist.map _)
    have hfield := lookup_mapM hfields name
    rw [lookup_filter_bne] at hfield
    rw [FieldMap.get?_ofList hnames]
    by_cases hname : name = "type"
    · rw [if_pos hname, rel_none_left_iff] at hfield
      rw [if_pos hname, hfield]
      exact .none
    · rw [if_neg hname] at hfield ⊢
      apply rel_both (rel_swap hfield) (rel_swap (hlookup name))
      intro value w tree hvalue hshows
      rw [hshows.toValue?_eq] at hvalue
      exact congrArg Value.tree (Option.some.inj hvalue).symm

/-- An action is read just if what arrives is its object. -/
theorem actionOfWire?_object_iff {members : List (String × Wire)} {shown : FieldMap Json}
    (h : (Wire.object members).Shows (.object shown.entries)) {step : Step} :
    actionOfWire? (.object members) = some step ↔
      ∃ type fields, step = .action type fields ∧ IsAction shown type fields := by
  obtain ⟨hnodup, hlookup⟩ := Wire.shows_fields_iff.1 h
  rw [actionOfWire?_object hnodup]
  constructor
  · intro hread
    obtain ⟨w, hw, hread⟩ := Option.bind_eq_some_iff.1 hread
    obtain ⟨fields, hfields, hread⟩ := Option.bind_eq_some_iff.1 hread
    obtain ⟨type, htype, rfl⟩ := Option.map_eq_some_iff.1 hread
    have hstring : w = .string type := by
      cases w with
      | string text =>
        cases htype
        rfl
      | _ => cases htype
    exact ⟨type, .ofList fields, rfl, isAction_of_mapM h (hstring ▸ hw) hfields⟩
  · -- All members can be read, and what they are read as is an action of the same object.
    rintro ⟨type, fields, rfl, haction⟩
    have hread : ∀ m ∈ members.filter (·.1 != "type"), ∃ entry : String × Value,
        (m.2.toValue?).map (m.1, ·) = some entry := by
      intro m hm
      have hshown := hlookup m.1
      rw [(lookup_eq_some_iff_mem hnodup).2 (List.mem_filter.1 hm).1, rel_some_left_iff] at hshown
      obtain ⟨tree, -, hshows⟩ := hshown
      exact ⟨_, congrArg _ hshows.toValue?_eq⟩
    obtain ⟨entries, hentries⟩ : ∃ entries, fieldsOf? members = some entries := exists_mapM hread
    have hstring : members.lookup "type" = some (.string type) := by
      rw [← Wire.rel_string_right_iff, ← haction.type]
      exact hlookup "type"
    have hfields := haction.unique (isAction_of_mapM h hstring hentries)
    rw [hstring, hentries, hfields]
    rfl

/-- An action is read just if it is the one for which the value is written that arrives. -/
theorem actionOfWire?_eq_some_iff {w : Wire} {value : Json} (h : w.Shows value) {step : Step} :
    actionOfWire? w = some step ↔ ∃ type fields, step = .action type fields ∧
      (Wire.ofJson step.toJson).Shows value := by
  constructor
  · intro hread
    cases w with
    | object members =>
      obtain ⟨-, shown, rfl, -⟩ := h.exists_fields
      obtain ⟨type, fields, rfl, haction⟩ := (actionOfWire?_object_iff h).1 hread
      exact ⟨type, fields, rfl, shows_written_iff.2 haction⟩
    | _ => cases hread
  · rintro ⟨type, fields, rfl, hwritten⟩
    have hobject := hwritten
    rw [ofJson_action] at hobject
    obtain ⟨-, shown, rfl, -⟩ := hobject.exists_fields
    obtain ⟨members, rfl, -⟩ := h.exists_members
    exact (actionOfWire?_object_iff h).2 ⟨type, fields, rfl, shows_written_iff.1 hwritten⟩

/-- An action is read the same from arrivals that are alike. -/
theorem actionOfWire?_congr {w other : Wire} (h : w.Alike other) :
    actionOfWire? w = actionOfWire? other := by
  obtain ⟨value, hw, hother⟩ := h
  apply Option.ext
  intro step
  rw [actionOfWire?_eq_some_iff hw, actionOfWire?_eq_some_iff hother]

/-- Two arrivals of one value are read as the same step. -/
theorem ofReadable?_congr {w other : Wire} (h : w.Alike other) :
    ofReadable? w = ofReadable? other := by
  have hbranch : branch? ofReadable? w = branch? ofReadable? other :=
    branch?_congr h fun a ha b hab => ofReadable?_congr hab
  rw [ofReadable?_eq w, ofReadable?_eq other, hbranch, actionOfWire?_congr h]
termination_by sizeOf w

/-- A step is read the same from arrivals that are alike. -/
theorem ofWire?_congr {w other : Wire} (h : w.Alike other) : ofWire? w = ofWire? other := by
  unfold ofWire?
  rw [h.isReadable_eq, ofReadable?_congr h]

end Step

end AbilityGraph
