import AbilityGraph.Proofs.Compile.Conditions
import AbilityGraph.Proofs.Json.ReadBack
import AbilityGraph.Proofs.Step.Wire

/-!
# Written steps are read back

Nothing in a written step says whether it is a branch or an action. A step is read back if no action
in it can be taken for a branch (`Step.Legible`); then what is written for it arrives as a value,
and however the members of that value are ordered, the step is read from it (`Wire.ReadsBack`).
Compiled steps are legible, because a catalog keeps the names of a branch's members out of the
fields of actions. Steps that were read are legible, because an action that was read arrived as the
value that is written for it, which had been tried as a branch before (`steps_read_back`).
-/

set_option autoImplicit false

namespace AbilityGraph

open Wire (Alike Shows IsValue)

namespace Condition

/-- A constant condition arrives with its tag and its value. -/
theorem ofJson_literal (value : Value) : Wire.ofJson (literal value).toJson =
    .object [("type", .string "LITERAL"), ("value", Wire.ofJson value.tree)] := rfl

/-- The condition that always holds arrives with its tag alone. -/
theorem ofJson_always : Wire.ofJson always.toJson = .object [("type", .string "ALWAYS")] := rfl

/-- A written condition arrives as a value. -/
theorem isValue_toJson (condition : Condition) : (Wire.ofJson condition.toJson).IsValue := by
  cases condition with
  | literal value =>
    have hvalue : (Wire.ofJson value.tree).IsValue := ⟨value.tree, Wire.shows_ofJson value.normal⟩
    rw [ofJson_literal]
    apply Wire.isValue_object
    · simp
    · simpa using ⟨Wire.isValue_string "LITERAL", hvalue⟩
  | always =>
    rw [ofJson_always]
    apply Wire.isValue_object
    · simp
    · simpa using Wire.isValue_string "ALWAYS"

/-- A condition inside a step is read as it was written. -/
theorem nestedOfWire?_toJson (condition : Condition) :
    nestedOfWire? (Wire.ofJson condition.toJson) = some condition := by
  obtain ⟨shown, hshows⟩ := condition.isValue_toJson
  have hreadable := hshows.isReadable
  unfold nestedOfWire?
  cases condition with
  | literal value =>
    have htagged : (Wire.ofJson (literal value).toJson).tagged? "type" =
        some (.string "LITERAL", .object [("value", Wire.ofJson value.tree)]) := by
      unfold Wire.tagged?
      rw [if_pos hreadable]
      rfl
    rw [ofWireWith?_eq, htagged]
    show (Wire.toValue? (Wire.ofJson value.tree)).bind _ = _
    rw [(Wire.shows_ofJson value.normal).toValue?_eq]
    rfl
  | always =>
    have htagged : (Wire.ofJson always.toJson).tagged? "type" =
        some (.string "ALWAYS", .object []) := by
      unfold Wire.tagged?
      rw [if_pos hreadable]
      rfl
    rw [ofWireWith?_eq, htagged]
    rfl

end Condition

namespace Step

/-! ## Legible steps -/

/-- A step that is not taken for another kind of step: an action arrives as a value that is not read
as a branch. -/
def Legible : Step → Prop
  | action type fields =>
    (Wire.ofJson (toJson (.action type fields))).IsValue ∧
      branch? ofReadable? (Wire.ofJson (toJson (.action type fields))) = none
  | branch _ _ _ _ _ => True

/-- The steps in a sequence are those in one of its entries. -/
theorem mem_inside_iff {step : Step} {steps : List Step} :
    step ∈ inside steps ↔ ∃ s ∈ steps, step ∈ s.withNested := by
  rw [inside_eq_flatMap, List.mem_flatMap]

/-- The steps in else-if clauses are those in the sequence of one of them. -/
theorem mem_insideClauses_iff {step : Step} {clauses : List (Condition × List Step)} :
    step ∈ insideClauses clauses ↔ ∃ c ∈ clauses, step ∈ inside c.2 := by
  rw [insideClauses_eq_flatMap, List.mem_flatMap]

/-! ## Reading back -/

/-- A branch arrives with its type, its condition and its three kinds of parts, in this order. -/
theorem ofJson_branch (type : String) (condition : Condition) (thenSteps : List Step)
    (elseIf : List (Condition × List Step)) (elseSteps : List Step) :
    Wire.ofJson (toJson (.branch type condition thenSteps elseIf elseSteps)) =
      .object [("type", .string type), ("condition", Wire.ofJson condition.toJson),
        ("then", Wire.ofJson (.array (sequenceToJson thenSteps))),
        ("elseIf", Wire.ofJson (.array (clausesToJson elseIf))),
        ("else", Wire.ofJson (.array (sequenceToJson elseSteps)))] := by
  simp [toJson, Wire.ofJson, Wire.ofMembers]

/-- A written part arrives as a value, and is read as what was written. -/
structure Reads {α : Type} (read : Wire → Option α) (w : Wire) (x : α) : Prop where
  isValue : w.IsValue
  read_eq : read w = some x

/-- The empty list is read as it was written. -/
theorem reads_nil {α : Type} (read : Wire → Option α) :
    Reads (Wire.list? read) (.array []) [] :=
  ⟨Wire.isValue_array (by simp), rfl⟩

/-- A list is read as it was written if its first item and the list of the others are. -/
theorem reads_cons {α : Type} {read : Wire → Option α} {w : Wire} {x : α} {ws : List Wire}
    {xs : List α} (hfirst : Reads read w x) (hrest : Reads (Wire.list? read) (.array ws) xs) :
    Reads (Wire.list? read) (.array (w :: ws)) (x :: xs) := by
  constructor
  · apply Wire.isValue_array
    intro item hitem
    rcases List.mem_cons.1 hitem with rfl | hitem
    · exact hfirst.isValue
    · exact hrest.isValue.of_mem hitem
  · have hws : ws.mapM read = some xs := hrest.read_eq
    show (w :: ws).mapM read = some (x :: xs)
    rw [List.mapM_cons, hfirst.read_eq, hws]
    rfl

/-- An else-if clause is read as it was written if its steps are. -/
theorem reads_clause {condition : Condition} {steps : List Step}
    (h : Reads (Wire.list? ofReadable?) (Wire.ofJson (.array (sequenceToJson steps))) steps) :
    Reads (clause? ofReadable?)
      (.object [("condition", Wire.ofJson condition.toJson),
        ("steps", Wire.ofJson (.array (sequenceToJson steps)))]) (condition, steps) := by
  have hnodup : ([("condition", Wire.ofJson condition.toJson),
      ("steps", Wire.ofJson (.array (sequenceToJson steps)))].map (·.1)).Nodup := by
    simp
  constructor
  · apply Wire.isValue_object hnodup
    simpa using ⟨condition.isValue_toJson, h.isValue⟩
  · rw [clause?_object hnodup]
    show (do
      return (← Condition.nestedOfWire? (Wire.ofJson condition.toJson),
        ← Wire.list? ofReadable? (Wire.ofJson (.array (sequenceToJson steps))))) = _
    rw [condition.nestedOfWire?_toJson, h.read_eq]
    rfl

/-- A branch is read as it was written if its parts are. -/
theorem reads_branch (type : String) (condition : Condition) {thenSteps : List Step}
    {elseIf : List (Condition × List Step)} {elseSteps : List Step}
    (hthen : Reads (Wire.list? ofReadable?) (Wire.ofJson (.array (sequenceToJson thenSteps)))
      thenSteps)
    (helseIf : Reads (Wire.list? (clause? ofReadable?))
      (Wire.ofJson (.array (clausesToJson elseIf))) elseIf)
    (helse : Reads (Wire.list? ofReadable?) (Wire.ofJson (.array (sequenceToJson elseSteps)))
      elseSteps) :
    Reads ofReadable? (Wire.ofJson (toJson (.branch type condition thenSteps elseIf elseSteps)))
      (.branch type condition thenSteps elseIf elseSteps) := by
  rw [ofJson_branch]
  have hnodup : ([("type", Wire.string type), ("condition", Wire.ofJson condition.toJson),
      ("then", Wire.ofJson (.array (sequenceToJson thenSteps))),
      ("elseIf", Wire.ofJson (.array (clausesToJson elseIf))),
      ("else", Wire.ofJson (.array (sequenceToJson elseSteps)))].map (·.1)).Nodup := by
    simp
  constructor
  · apply Wire.isValue_object hnodup
    simpa using ⟨Wire.isValue_string type, condition.isValue_toJson, hthen.isValue,
      helseIf.isValue, helse.isValue⟩
  · have hbranch : branch? ofReadable? (.object [("type", Wire.string type),
        ("condition", Wire.ofJson condition.toJson),
        ("then", Wire.ofJson (.array (sequenceToJson thenSteps))),
        ("elseIf", Wire.ofJson (.array (clausesToJson elseIf))),
        ("else", Wire.ofJson (.array (sequenceToJson elseSteps)))]) =
          some (.branch type condition thenSteps elseIf elseSteps) := by
      rw [branch?_object hnodup]
      show (do
        return Step.branch type (← Condition.nestedOfWire? (Wire.ofJson condition.toJson))
          (← Wire.list? ofReadable? (Wire.ofJson (.array (sequenceToJson thenSteps))))
          (← Wire.list? (clause? ofReadable?) (Wire.ofJson (.array (clausesToJson elseIf))))
          (← Wire.list? ofReadable? (Wire.ofJson (.array (sequenceToJson elseSteps))))) = _
      rw [condition.nestedOfWire?_toJson, hthen.read_eq, helseIf.read_eq, helse.read_eq]
      rfl
    rw [ofReadable?_eq, hbranch, Option.some_or]

mutual

/-- A legible step is read back, as are all steps in it. -/
theorem reads_step : ∀ step : Step, (∀ s ∈ step.withNested, s.Legible) →
    Reads ofReadable? (Wire.ofJson step.toJson) step
  | .action type fields, h => by
    obtain ⟨hvalue, hnone⟩ := h (.action type fields) (by simp [withNested])
    obtain ⟨value, hshows⟩ := hvalue
    refine ⟨⟨value, hshows⟩, ?_⟩
    rw [ofReadable?_eq, hnone, Option.none_or]
    exact (actionOfWire?_eq_some_iff hshows).2 ⟨type, fields, rfl, hshows⟩
  | .branch type condition thenSteps elseIf elseSteps, h => by
    have hthen := reads_sequence thenSteps fun s hs => h s (by simp [withNested, hs])
    have helseIf := reads_clauses elseIf fun s hs => h s (by simp [withNested, hs])
    have helse := reads_sequence elseSteps fun s hs => h s (by simp [withNested, hs])
    exact reads_branch type condition hthen helseIf helse

/-- A sequence is read as it was written if no step in it is taken for another kind of step. -/
theorem reads_sequence : ∀ steps : List Step, (∀ s ∈ inside steps, s.Legible) →
    Reads (Wire.list? ofReadable?) (Wire.ofJson (.array (sequenceToJson steps))) steps
  | [], _ => reads_nil _
  | step :: rest, h => by
    have hfirst := reads_step step fun s hs => h s (by simp [inside, hs])
    have hrest := reads_sequence rest fun s hs => h s (by simp [inside, hs])
    exact reads_cons hfirst hrest

/-- So are else-if clauses. -/
theorem reads_clauses : ∀ clauses : List (Condition × List Step),
    (∀ s ∈ insideClauses clauses, s.Legible) →
    Reads (Wire.list? (clause? ofReadable?)) (Wire.ofJson (.array (clausesToJson clauses))) clauses
  | [], _ => reads_nil _
  | (condition, steps) :: rest, h => by
    have hsteps := reads_sequence steps fun s hs => h s (by simp [insideClauses, hs])
    have hrest := reads_clauses rest fun s hs => h s (by simp [insideClauses, hs])
    exact reads_cons (reads_clause hsteps) hrest

end

/-! ## Steps that were read -/

/-- The steps that stand directly in a step. -/
def parts : Step → List Step
  | action _ _ => []
  | branch _ _ thenSteps elseIf elseSteps => thenSteps ++ elseIf.flatMap (·.2) ++ elseSteps

/-- The steps in a step are the step itself and those in its parts. -/
theorem mem_withNested_iff {step s : Step} :
    s ∈ step.withNested ↔ s = step ∨ ∃ part ∈ step.parts, s ∈ part.withNested := by
  cases step with
  | action type fields => simp [withNested, parts]
  | branch type condition thenSteps elseIf elseSteps =>
    simp only [withNested, parts, List.mem_cons, List.mem_append, mem_inside_iff,
      mem_insideClauses_iff, List.mem_flatMap]
    constructor
    · rintro (rfl | (⟨part, hpart, hs⟩ | ⟨c, hc, part, hpart, hs⟩) | ⟨part, hpart, hs⟩)
      · exact .inl rfl
      · exact .inr ⟨part, .inl (.inl hpart), hs⟩
      · exact .inr ⟨part, .inl (.inr ⟨c, hc, hpart⟩), hs⟩
      · exact .inr ⟨part, .inr hpart, hs⟩
    · rintro (rfl | ⟨part, (hpart | ⟨c, hc, hpart⟩) | hpart, hs⟩)
      · exact .inl rfl
      · exact .inr (.inl (.inl ⟨part, hpart, hs⟩))
      · exact .inr (.inl (.inr ⟨c, hc, part, hpart, hs⟩))
      · exact .inr (.inr ⟨part, hpart, hs⟩)

/-- Something is read from a value that is smaller than what arrives. -/
def ReadWithin {α : Type} (read : Wire → Option α) (w : Wire) (x : α) : Prop :=
  ∃ part : Wire, part.IsValue ∧ sizeOf part < sizeOf w ∧ read part = some x

section Within

variable {α : Type} {read : Wire → Option α} {w : Wire}

/-- What is read from a part of something smaller is read from a part of the whole. -/
theorem ReadWithin.of_lt {part : Wire} {x : α} (h : ReadWithin read part x)
    (hlt : sizeOf part < sizeOf w) : ReadWithin read w x := by
  obtain ⟨inner, hvalue, hsize, hread⟩ := h
  exact ⟨inner, hvalue, Nat.lt_trans hsize hlt, hread⟩

/-- The items of a list are read from the items that arrive. -/
theorem readWithin_of_list? (hw : w.IsValue) {xs : List α} (hread : Wire.list? read w = some xs)
    {x : α} (hx : x ∈ xs) : ReadWithin read w x := by
  obtain ⟨items, rfl, item, hitem, hitemRead⟩ := Wire.exists_of_list? hread hx
  refine ⟨item, hw.of_mem hitem, ?_, hitemRead⟩
  have := List.sizeOf_lt_of_mem hitem
  rw [Wire.array.sizeOf_spec]
  omega

/-- The items of a list that may be left out are read from the items that arrive. -/
theorem readWithin_of_withDefault {xs : List α} {member : Option Wire}
    (hread : Wire.withDefault [] (Wire.list? read) member = some xs) {x : α} (hx : x ∈ xs)
    (hmember : ∀ part, member = some part → part.IsValue ∧ sizeOf part < sizeOf w) :
    ReadWithin read w x := by
  obtain rfl | ⟨part, hpart, hlist⟩ := Wire.exists_of_withDefault hread
  · cases hx
  · obtain ⟨hvalue, hlt⟩ := hmember part hpart
    exact (readWithin_of_list? hvalue hlist hx).of_lt hlt

end Within

section Parts

variable {read : Wire → Option Step} {w : Wire}

/-- Each step of an else-if clause was read from a part of the clause. -/
theorem readWithin_of_clause? (hw : w.IsValue) {clause : Condition × List Step}
    (hread : clause? read w = some clause) {step : Step} (hstep : step ∈ clause.2) :
    ReadWithin read w step := by
  obtain ⟨found, hfound, hclause⟩ := Option.bind_eq_some_iff.1 hread
  rw [clauseNames_eq] at hfound
  unfold clauseOf? at hclause
  split at hclause
  next condition steps =>
    obtain ⟨_, -, hclause⟩ := Option.bind_eq_some_iff.1 hclause
    obtain ⟨list, hlist, hclause⟩ := Option.bind_eq_some_iff.1 hclause
    cases hclause
    have hmem : some steps ∈ [condition, some steps] := by simp
    have hwithin := readWithin_of_list? (hw.of_members? hfound hmem) hlist hstep
    exact hwithin.of_lt (Wire.sizeOf_members? hfound hmem)
  next => cases hclause

/-- A branch is legible, and the steps that stand directly in it are read from smaller values. -/
theorem legible_of_branch? (hw : w.IsValue) {step : Step} (hread : branch? read w = some step) :
    step.Legible ∧ ∀ part ∈ step.parts, ReadWithin read w part := by
  obtain ⟨found, hfound, hbranch⟩ := Option.bind_eq_some_iff.1 hread
  rw [branchNames_eq] at hfound
  have hvalue : ∀ a, some a ∈ found → a.IsValue := fun a ha => hw.of_members? hfound ha
  have hsize : ∀ a, some a ∈ found → sizeOf a < sizeOf w := fun a ha =>
    Wire.sizeOf_members? hfound ha
  unfold branchOf? at hbranch
  split at hbranch
  next type condition thenWire elseIfWire elseWire =>
    obtain ⟨_, -, hbranch⟩ := Option.bind_eq_some_iff.1 hbranch
    obtain ⟨_, -, hbranch⟩ := Option.bind_eq_some_iff.1 hbranch
    obtain ⟨thenSteps, hthen, hbranch⟩ := Option.bind_eq_some_iff.1 hbranch
    obtain ⟨elseIf, helseIf, hbranch⟩ := Option.bind_eq_some_iff.1 hbranch
    obtain ⟨elseSteps, helse, hbranch⟩ := Option.bind_eq_some_iff.1 hbranch
    cases hbranch
    refine ⟨trivial, fun part hpart => ?_⟩
    simp only [parts, List.mem_append, List.mem_flatMap] at hpart
    obtain (hpart | ⟨clause, hclause, hpart⟩) | hpart := hpart
    · have hwithin := readWithin_of_list? (hvalue thenWire (by simp)) hthen hpart
      exact hwithin.of_lt (hsize thenWire (by simp))
    · obtain ⟨item, hitem, hlt, hitemRead⟩ :=
        readWithin_of_withDefault helseIf hclause fun list hlist =>
          ⟨hvalue list (by simp [hlist]), hsize list (by simp [hlist])⟩
      exact (readWithin_of_clause? hitem hitemRead hpart).of_lt hlt
    · exact readWithin_of_withDefault helse hpart fun list hlist =>
        ⟨hvalue list (by simp [hlist]), hsize list (by simp [hlist])⟩
  next => cases hbranch

/-- An action that is read arrived as the value that is written for it, and could not be read as a
branch. -/
theorem legible_of_actionOfWire? (hw : w.IsValue) (hnone : branch? ofReadable? w = none)
    {step : Step} (hread : actionOfWire? w = some step) : step.Legible ∧ step.parts = [] := by
  obtain ⟨value, hshows⟩ := hw
  obtain ⟨type, fields, rfl, hwritten⟩ := (actionOfWire?_eq_some_iff hshows).1 hread
  refine ⟨⟨⟨value, hwritten⟩, ?_⟩, rfl⟩
  rw [← hnone]
  apply branch?_congr ⟨value, hwritten, hshows⟩
  exact fun a _ b hab => ofReadable?_congr hab

end Parts

/-- Every step that is read from a value is legible, as are all steps in it. -/
theorem legible_of_ofReadable? {w : Wire} (hw : w.IsValue) {step : Step}
    (hread : ofReadable? w = some step) : ∀ s ∈ step.withNested, s.Legible := by
  have hstep : step.Legible ∧ ∀ part ∈ step.parts, ReadWithin ofReadable? w part := by
    rw [ofReadable?_eq] at hread
    cases hbranch : branch? ofReadable? w with
    | some branch =>
      rw [hbranch, Option.some_or] at hread
      exact legible_of_branch? hw (hread ▸ hbranch)
    | none =>
      rw [hbranch, Option.none_or] at hread
      obtain ⟨hlegible, hparts⟩ := legible_of_actionOfWire? hw hbranch hread
      exact ⟨hlegible, by simp [hparts]⟩
  intro s hs
  obtain rfl | ⟨part, hpart, hs⟩ := mem_withNested_iff.1 hs
  · exact hstep.1
  · obtain ⟨x, hx, hsize, hreadPart⟩ := hstep.2 part hpart
    exact legible_of_ofReadable? hx hreadPart s hs
termination_by sizeOf w

/-! ## Compiled steps -/

/-- An action whose fields avoid the members of a branch is legible. -/
theorem legible_of_field? {step : Step}
    (h : ∀ name ∈ Definition.reservedStepFields, step.field? name = none) : step.Legible := by
  cases step with
  | branch => trivial
  | action type fields =>
    have hnodup := (nodup_written_iff type fields).2 (h "type" (by decide))
    have hthen : fields.get? "then" = none := h "then" (by decide)
    rw [Legible, ofJson_action]
    constructor
    · apply Wire.isValue_object hnodup
      intro member hmember
      obtain rfl | hmember := List.mem_cons.1 hmember
      · exact Wire.isValue_string type
      · obtain ⟨entry, -, rfl⟩ := List.mem_map.1 hmember
        exact ⟨entry.2.tree, Wire.shows_ofJson entry.2.normal⟩
    · rw [branch?_object hnodup]
      simp only [List.map_cons, List.map_nil, lookup_written, hthen]
      rfl

/-- If every part has a value, then a step is read the same way whether or not that is checked
first. -/
theorem ofWire?_eq_ofReadable? {w : Wire} (h : w.IsValue) : ofWire? w = ofReadable? w := by
  obtain ⟨value, hshows⟩ := h
  rw [ofWire?, if_pos hshows.isReadable]

/-- If every part has a value, then so is a list of steps read. -/
theorem list?_ofWire? {w : Wire} (h : w.IsValue) :
    Wire.list? ofWire? w = Wire.list? ofReadable? w := by
  cases w with
  | array items =>
    have hitems : ∀ item ∈ items, ofWire? item = ofReadable? item := fun item hitem =>
      ofWire?_eq_ofReadable? (h.of_mem hitem)
    show items.mapM ofWire? = items.mapM ofReadable?
    clear h
    induction items with
    | nil => rfl
    | cons item rest ih =>
      rw [List.mapM_cons, List.mapM_cons, hitems item List.mem_cons_self,
        ih fun other hother => hitems other (List.mem_cons_of_mem _ hother)]
  | _ => rfl

end Step

/-- The fields of an action have none of the names that the written form of a step keeps for
itself. -/
theorem Definition.not_mem_reserved_of_step {definition : Definition}
    (hcheck : definition.check = .ok ()) {type : String} {fields : List String}
    {next : Option String} (hlowering : definition.lowering = .step type fields next) :
    ∀ name ∈ fields, name ∉ reservedStepFields := by
  obtain ⟨-, hcheckLowering⟩ := check_eq_ok hcheck
  unfold checkLowering at hcheckLowering
  rw [hlowering] at hcheckLowering
  obtain ⟨_, hfields, -⟩ := bind_eq_ok_iff.1 hcheckLowering
  unfold checkStepFields at hfields
  split at hfields
  next => cases hfields
  next hfind => simpa using List.find?_eq_none.1 hfind

/-- Every compiled step is legible, if the catalog was loaded. -/
theorem Catalog.legible_of_lower {definitions : List Definition} {startType : String}
    {catalog : Catalog} (hload : Catalog.load definitions startType = .ok catalog) {graph : Graph}
    {step : Step} (hstep : step ∈ Step.inside (graph.lower catalog)) : step.Legible := by
  obtain ⟨node, hnode, hbecomes⟩ := Graph.exists_becomes_of_lower hstep
  apply Step.legible_of_field?
  intro name hname
  by_contra hsome
  obtain ⟨value, hvalue⟩ := Option.ne_none_iff_exists'.1 hsome
  obtain ⟨definition, type, fields, next, hlookup, hlowering, hfield, -⟩ :=
    Walk.fieldValue?_of_becomes hbecomes hvalue
  have hcheck := Catalog.check_of_lookup? hload hlookup
  exact definition.not_mem_reserved_of_step hcheck hlowering name hfield hname

/-- Steps survive being written and read. The steps that a graph is compiled to with a catalog that
was loaded are read back as they are, and so is every step that was read from a value. -/
theorem steps_read_back :
    (∀ definitions startType catalog, Catalog.load definitions startType = .ok catalog →
      ∀ (graph : Graph) (aliases : TypeAliases) (compiled : Compiled),
        graph.compile catalog aliases = .ok compiled →
          Wire.ReadsBack (Wire.list? Step.ofWire?) (.array (Step.sequenceToJson compiled.steps))
            compiled.steps) ∧
    ∀ w : Wire, w.Distinct → ∀ step, Step.ofWire? w = some step →
      Wire.ReadsBack Step.ofWire? step.toJson step := by
  constructor
  · intro definitions startType catalog hload graph aliases compiled hcompile
    obtain ⟨-, hsteps⟩ := Graph.compile_eq_ok_iff.1 hcompile
    have hreads := Step.reads_sequence compiled.steps fun s hs =>
      Catalog.legible_of_lower hload (hsteps ▸ hs)
    apply Wire.readsBack_of_congr _ hreads.isValue
    · rw [Step.list?_ofWire? hreads.isValue, hreads.read_eq]
    · intro w other h
      exact Wire.list?_congr h fun a _ b hab => Step.ofWire?_congr hab
  · intro w hdistinct step hread
    unfold Step.ofWire? at hread
    split at hread
    next hreadable =>
      have hvalue : w.IsValue := hdistinct.exists_shows hreadable
      have hreads := Step.reads_step step (Step.legible_of_ofReadable? hvalue hread)
      apply Wire.readsBack_of_congr (fun w other => Step.ofWire?_congr) hreads.isValue
      rw [Step.ofWire?_eq_ofReadable? hreads.isValue, hreads.read_eq]
    next => cases hread

/-- A branch that always holds, with the tag of its condition given by number, and with a member
that no branch has. -/
def numberedBranch : Wire :=
  .object [("then", .array []), ("note", .null),
    ("condition", .array [.number (.integer 1)]), ("type", .string "IF")]

/-- The branch with a numbered tag repeats no name. -/
theorem distinct_numberedBranch : numberedBranch.Distinct := by
  apply Wire.Distinct.object (by decide)
  intro member hmember
  simp only [List.mem_cons, List.not_mem_nil, or_false] at hmember
  obtain rfl | rfl | rfl | rfl := hmember
  · exact .array (by simp)
  · exact .null
  · apply Wire.Distinct.array
    intro item hitem
    rw [List.mem_singleton.1 hitem]
    exact .number _
  · exact .string _

/-- It is read as a branch that always holds, without steps. -/
theorem ofWire?_numberedBranch :
    Step.ofWire? numberedBranch = some (.branch "IF" .always [] [] []) := by
  have hreadable : numberedBranch.isReadable = true := by
    decide +kernel
  rw [Step.ofWire?, if_pos hreadable, Step.ofReadable?_eq]
  rfl

/-- A compiled branch is read back, and so is a branch that was read from another form. -/
theorem decided_read_back :
    Catalog.load Catalog.builtin.definitions "start" = .ok .builtin ∧
    (∃ compiled, decided.compile .builtin = .ok compiled ∧
      compiled.steps = [.branch "IF" (.literal (.bool true)) [] [(.always, [])] []] ∧
      Wire.ReadsBack (Wire.list? Step.ofWire?) (.array (Step.sequenceToJson compiled.steps))
        compiled.steps) ∧
    Step.ofWire? numberedBranch = some (.branch "IF" .always [] [] []) ∧
    Wire.ReadsBack Step.ofWire? (Step.toJson (.branch "IF" .always [] [] []))
      (.branch "IF" .always [] [] []) := by
  obtain ⟨compiled, hcompile, -, hsteps⟩ := compile_decided
  obtain ⟨hcompiled, hread⟩ := steps_read_back
  exact ⟨Catalog.load_builtin,
    ⟨compiled, hcompile, hsteps, hcompiled _ _ _ Catalog.load_builtin _ _ _ hcompile⟩,
    ofWire?_numberedBranch,
    hread _ distinct_numberedBranch _ ofWire?_numberedBranch⟩

end AbilityGraph
