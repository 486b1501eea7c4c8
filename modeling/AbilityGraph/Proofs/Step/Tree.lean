import AbilityGraph.Proofs.Compile.Visits
import AbilityGraph.Proofs.Json.OneLine
import AbilityGraph.Step.Tree

/-!
# The tree shows how steps are nested

Steps with the same tree are nested in the same way (`Step.shapes_eq_of_tree_eq`), whatever their
types, names and values look like. The lines of the parts of a step begin with a margin that leads
one level down, and the line that comes after them does not (`Above`). So from two equal lists of
lines the parts of a step can be taken off in the same way, which leaves the lines after them
(`sequence_cancel`, by induction on the steps).

A sequence without steps has a line that says so. An action that looks like this line could be taken
for it, and a name with a line feed for several lines; with these exceptions (`Drawable`) all steps
can be told by their trees. Values take one line each.
-/

set_option autoImplicit false

namespace AbilityGraph

/-- The text of a condition has no line feed. -/
theorem Condition.oneLine_text (condition : Condition) : OneLine condition.text := by
  cases condition with
  | literal value =>
    have hopening : OneLine "LITERAL(" := by
      decide
    exact (hopening.append value.oneLine_text).append (by decide)
  | always => exact (by decide : OneLine "ALWAYS")

namespace Step

/-! ## Shapes -/

/-- How steps are nested in a step: it is an action, or a branch with a sequence for the case that
its condition holds, one for each else-if clause, and one for the case that none holds. -/
inductive Shape where
  | action
  | branch (thenSteps : List Shape) (elseIf : List (List Shape)) (elseSteps : List Shape)

mutual

/-- The shape of a step. -/
def shape : Step → Shape
  | action _ _ => .action
  | branch _ _ thenSteps elseIf elseSteps =>
    .branch (shapes thenSteps) (clauseShapes elseIf) (shapes elseSteps)

/-- The shapes of the steps of a sequence. -/
def shapes : List Step → List Shape
  | [] => []
  | step :: rest => step.shape :: shapes rest

/-- The shapes of the steps of each else-if clause. -/
def clauseShapes : List (Condition × List Step) → List (List Shape)
  | [] => []
  | (_, steps) :: rest => shapes steps :: clauseShapes rest

end

/-- The names in the line of a step: its type, and those of its fields. -/
def names : Step → List String
  | action type fields => type :: fields.entries.map (·.1)
  | branch type _ _ _ _ => [type]

/-- An action that looks like the line of a sequence without steps. -/
def emptyLike : Step := .action "<empty>" .empty

/-- No name in the steps has a line feed, and no action looks like the line of a sequence without
steps. -/
structure Drawable (steps : List Step) : Prop where
  oneLine : ∀ step ∈ inside steps, ∀ name ∈ step.names, OneLine name
  notEmpty : emptyLike ∉ inside steps

/-! ## The lines of a step -/

/-- What the line of an entry adds to the margin. -/
def mark (isLast : Bool) : String := if isLast then lastMark else middleMark

/-- What the lines below an entry add to the margin. -/
def indent (isLast : Bool) : String := if isLast then closedMargin else openMargin

/-- What the line of a step says after the margin. -/
def title : Step → String
  | action type fields => actionLine type fields
  | branch type condition _ _ _ => type ++ " " ++ condition.text

/-- The lines of the parts of a step. -/
def partLines (margin : String) : Step → List String
  | action _ _ => []
  | branch _ _ thenSteps elseIf elseSteps =>
    (margin ++ mark false ++ "then") :: (sequenceLines (margin ++ indent false) thenSteps ++
      (clausesLines margin elseIf ++
        (margin ++ mark true ++ "else") :: sequenceLines (margin ++ indent true) elseSteps))

/-- The lines of the steps that follow a step of their sequence. -/
def laterLines (margin : String) : List Step → List String
  | [] => []
  | step :: rest => sequenceLines margin (step :: rest)

/-- The lines of a step are its own line and those of its parts. -/
theorem stepLines_eq (start margin : String) (step : Step) :
    stepLines start margin step = (start ++ step.title) :: partLines margin step := by
  cases step with
  | action type fields => simp [stepLines, title, partLines]
  | branch type condition thenSteps elseIf elseSteps =>
    simp [stepLines, title, partLines, mark, indent, String.append_assoc]

/-- A sequence without steps has one line, which says so. -/
theorem sequenceLines_nil (margin : String) :
    sequenceLines margin [] = [margin ++ mark true ++ "<empty>"] := by
  rw [sequenceLines]
  rfl

/-- The lines of a sequence are those of its first step and those of the steps that follow. -/
theorem sequenceLines_cons (margin : String) (step : Step) (rest : List Step) :
    sequenceLines margin (step :: rest) =
      (margin ++ mark rest.isEmpty ++ step.title) ::
        (partLines (margin ++ indent rest.isEmpty) step ++ laterLines margin rest) := by
  rw [← List.cons_append, ← stepLines_eq]
  cases rest with
  | nil => simp [sequenceLines, laterLines, mark, indent]
  | cons second more => simp [sequenceLines, laterLines, mark, indent]

/-- The lines of else-if clauses are those of the first and those of the others. -/
theorem clausesLines_cons (margin : String) (condition : Condition) (steps : List Step)
    (rest : List (Condition × List Step)) :
    clausesLines margin ((condition, steps) :: rest) =
      (margin ++ mark false ++ ("else if " ++ condition.text)) ::
        (sequenceLines (margin ++ indent false) steps ++ clausesLines margin rest) := by
  simp [clausesLines, mark, indent, String.append_assoc]

/-- Only an action without fields has a line that says that there are no steps: every other line has
a blank in it. -/
theorem eq_of_title_eq {step : Step} (h : step.title = "<empty>") : step = emptyLike := by
  have hblank : ' ' ∉ step.title.toList := by
    rw [h]
    decide
  cases step with
  | action type fields =>
    cases hentries : fields.entries with
    | nil =>
      have htype : type = "<empty>" := by
        simpa [title, actionLine, hentries] using h
      rw [htype, emptyLike]
      exact congrArg _ (FieldMap.ext hentries)
    | cons first rest => simp [title, actionLine, hentries] at hblank
  | branch type condition thenSteps elseIf elseSteps => simp [title] at hblank

/-! ## Margins -/

/-- The first of the lines does not begin with a margin. -/
def Above (margin : String) (lines : List String) : Prop :=
  ∀ line ∈ lines.head?, ¬margin.toList <+: line.toList

/-- Lines that do not begin with a margin do not begin with a longer one. -/
theorem Above.append {margin : String} {lines : List String} (h : Above margin lines)
    (other : String) : Above (margin ++ other) lines := by
  intro line hline hstarts
  rw [String.toList_append] at hstarts
  exact h line hline ((List.prefix_append _ _).trans hstarts)

/-- The margin below an entry leads further down than that of an entry of its level. -/
theorem above_cons (margin text : String) (isLast last : Bool) (lines : List String) :
    Above (margin ++ indent isLast) ((margin ++ mark last ++ text) :: lines) := by
  intro line hline
  obtain rfl : margin ++ mark last ++ text = line := by simpa using hline
  simp only [String.toList_append, List.append_assoc, List.prefix_append_right_inj]
  cases isLast <;> cases last <;>
    simp [indent, mark, openMargin, closedMargin, middleMark, lastMark]

/-- Lines that do not begin with the margin of an entry do not begin with the margin below it, also
if the steps that follow the entry stand before them. -/
theorem above_laterLines {margin : String} {lines : List String} (h : Above margin lines)
    (isLast : Bool) (rest : List Step) :
    Above (margin ++ indent isLast) (laterLines margin rest ++ lines) := by
  cases rest with
  | nil => exact h.append _
  | cons step more =>
    rw [laterLines, sequenceLines_cons]
    exact above_cons _ _ _ _ _

/-- The lines from the else-if clauses of a branch on do not begin with the margin below an entry of
their level. -/
theorem above_clausesLines (margin text : String) (isLast : Bool)
    (clauses : List (Condition × List Step)) (lines : List String) :
    Above (margin ++ indent isLast)
      (clausesLines margin clauses ++ (margin ++ mark true ++ text) :: lines) := by
  cases clauses with
  | nil =>
    rw [clausesLines]
    exact above_cons _ _ _ _ _
  | cons clause rest =>
    rw [clausesLines_cons]
    exact above_cons _ _ _ _ _

/-- Two lines with the same margin are the same only if both or neither are the last, and they say
the same. -/
theorem mark_cancel {margin text other : String} {isLast last : Bool}
    (h : margin ++ mark isLast ++ text = margin ++ mark last ++ other) :
    isLast = last ∧ text = other := by
  have hlists := congrArg String.toList h
  simp only [String.toList_append, List.append_assoc, List.append_cancel_left_eq] at hlists
  cases isLast <;> cases last <;>
    simp [mark, middleMark, lastMark, String.toList_inj] at hlists ⊢
  all_goals exact hlists

/-- The first step of a sequence is in it. -/
theorem mem_inside_cons_self (step : Step) (rest : List Step) : step ∈ inside (step :: rest) := by
  cases step <;> simp [inside, withNested]

/-! ## Taking off the lines of steps -/

/-- After the parts of a step comes no line of a part. -/
theorem not_above_partLines {margin : String} {type : String} {condition : Condition}
    {thenSteps : List Step} {elseIf : List (Condition × List Step)} {elseSteps : List Step}
    {lines rest : List String} (habove : Above margin lines) :
    lines ≠ partLines margin (.branch type condition thenSteps elseIf elseSteps) ++ rest := by
  rintro rfl
  refine habove (margin ++ mark false ++ "then") rfl ?_
  rw [String.append_assoc, String.toList_append]
  exact List.prefix_append _ _

mutual

/-- The lines of the parts of a step can be taken off in one way only. -/
theorem parts_cancel : ∀ (step : Step) {other : Step} {margin : String} {rest tail : List String},
    emptyLike ∉ step.withNested → emptyLike ∉ other.withNested →
    Above margin rest → Above margin tail →
    partLines margin step ++ rest = partLines margin other ++ tail →
    step.shape = other.shape ∧ rest = tail
  | .action _ _, other, margin, rest, tail, _, _, hrest, _, h => by
    cases other with
    | action type fields => exact ⟨by simp [shape], h⟩
    | branch type condition thenSteps elseIf elseSteps =>
      exact absurd h (not_above_partLines hrest)
  | .branch _ _ thenSteps elseIf elseSteps, other, margin, rest, tail, hstep, hother, hrest, htail,
    h => by
    cases other with
    | action type fields => exact absurd h.symm (not_above_partLines htail)
    | branch type condition otherThen otherElseIf otherElse =>
      simp only [withNested, List.mem_cons, List.mem_append, not_or] at hstep hother
      simp only [partLines, List.cons_append, List.append_assoc, List.cons.injEq, true_and] at h
      obtain ⟨hthen, h⟩ := sequence_cancel thenSteps hstep.2.1.1 hother.2.1.1
        (above_clausesLines margin "else" false elseIf _)
        (above_clausesLines margin "else" false otherElseIf _) h
      obtain ⟨helseIf, h⟩ := clauses_cancel elseIf hstep.2.1.2 hother.2.1.2 h
      obtain ⟨helse, h⟩ := sequence_cancel elseSteps hstep.2.2 hother.2.2 (hrest.append _)
        (htail.append _) h
      exact ⟨by rw [shape, shape, hthen, helseIf, helse], h⟩

/-- The lines of a sequence can be taken off in one way only. -/
theorem sequence_cancel : ∀ (steps : List Step) {others : List Step} {margin : String}
    {rest tail : List String},
    emptyLike ∉ inside steps → emptyLike ∉ inside others →
    Above margin rest → Above margin tail →
    sequenceLines margin steps ++ rest = sequenceLines margin others ++ tail →
    shapes steps = shapes others ∧ rest = tail
  | [], others, margin, rest, tail, _, hothers, _, _, h => by
    cases others with
    | nil => exact ⟨rfl, List.append_cancel_left h⟩
    | cons other more =>
      rw [sequenceLines_nil, sequenceLines_cons, List.cons_append] at h
      obtain ⟨-, htitle⟩ := mark_cancel (List.cons.inj h).1
      have hself := mem_inside_cons_self other more
      rw [eq_of_title_eq htitle.symm] at hself hothers
      exact absurd hself hothers
  | step :: more, others, margin, rest, tail, hsteps, hothers, hrest, htail, h => by
    cases others with
    | nil =>
      rw [sequenceLines_nil, sequenceLines_cons, List.cons_append] at h
      obtain ⟨-, htitle⟩ := mark_cancel (List.cons.inj h).1
      have hself := mem_inside_cons_self step more
      rw [eq_of_title_eq htitle] at hself hsteps
      exact absurd hself hsteps
    | cons other others =>
      simp only [inside, List.mem_append, not_or] at hsteps hothers
      rw [sequenceLines_cons, sequenceLines_cons, List.cons_append, List.cons_append,
        List.append_assoc, List.append_assoc] at h
      obtain ⟨hline, hlines⟩ := List.cons.inj h
      obtain ⟨hlast, -⟩ := mark_cancel hline
      rw [← hlast] at hlines
      obtain ⟨hshape, hlater⟩ := parts_cancel step hsteps.1 hothers.1
        (above_laterLines hrest _ more) (above_laterLines htail _ others) hlines
      have hmore : shapes more = shapes others ∧ rest = tail := by
        cases others with
        | nil =>
          obtain rfl := List.isEmpty_iff.1 hlast
          exact ⟨rfl, hlater⟩
        | cons second others =>
          cases more with
          | nil => cases hlast
          | cons third more =>
            exact sequence_cancel (third :: more) hsteps.2 hothers.2 hrest htail hlater
      exact ⟨by rw [shapes, shapes, hshape, hmore.1], hmore.2⟩

/-- The lines of else-if clauses can be taken off in one way only from those of the last part. -/
theorem clauses_cancel : ∀ (clauses : List (Condition × List Step))
    {others : List (Condition × List Step)} {margin : String} {rest tail : List String},
    emptyLike ∉ insideClauses clauses → emptyLike ∉ insideClauses others →
    clausesLines margin clauses ++ (margin ++ mark true ++ "else") :: rest =
      clausesLines margin others ++ (margin ++ mark true ++ "else") :: tail →
    clauseShapes clauses = clauseShapes others ∧ rest = tail
  | [], others, margin, rest, tail, _, _, h => by
    cases others with
    | nil => exact ⟨rfl, (List.cons.inj (List.append_cancel_left h)).2⟩
    | cons other others =>
      rw [clausesLines, clausesLines_cons] at h
      cases (mark_cancel (List.cons.inj h).1).1
  | (_, steps) :: more, others, margin, rest, tail, hclauses, hothers, h => by
    cases others with
    | nil =>
      rw [clausesLines_cons, clausesLines] at h
      cases (mark_cancel (List.cons.inj h).1).1
    | cons other others =>
      simp only [insideClauses, List.mem_append, not_or] at hclauses hothers
      rw [clausesLines_cons, clausesLines_cons, List.cons_append, List.cons_append,
        List.append_assoc, List.append_assoc] at h
      obtain ⟨hsteps, h⟩ := sequence_cancel steps hclauses.1 hothers.1
        (above_clausesLines margin "else" false more rest)
        (above_clausesLines margin "else" false others tail) (List.cons.inj h).2
      obtain ⟨hmore, h⟩ := clauses_cancel more hclauses.2 hothers.2 h
      exact ⟨by rw [clauseShapes, clauseShapes, hsteps, hmore], h⟩

end

/-! ## Lines of a text -/

/-- The line of a step has no line feed if its names have none. -/
theorem oneLine_title {step : Step} (h : ∀ name ∈ step.names, OneLine name) :
    OneLine step.title := by
  have hblank : OneLine " " := by
    decide
  cases step with
  | action type fields =>
    refine oneLine_intercalate hblank fun part hpart => ?_
    rcases List.mem_cons.1 hpart with rfl | hpart
    · exact h _ List.mem_cons_self
    · obtain ⟨field, hfield, rfl⟩ := List.mem_map.1 hpart
      have hname : OneLine field.1 :=
        h _ (List.mem_cons_of_mem _ (List.mem_map_of_mem hfield))
      have hsign : OneLine (field.1 ++ "=") := hname.append (by decide)
      exact hsign.append field.2.oneLine_text
  | branch type condition thenSteps elseIf elseSteps =>
    have htype : OneLine type := h _ List.mem_cons_self
    exact (htype.append hblank).append condition.oneLine_text

/-- What the line of an entry adds to the margin has no line feed. -/
theorem oneLine_mark (isLast : Bool) : OneLine (mark isLast) := by
  cases isLast <;> decide

/-- What the lines below an entry add to the margin has no line feed. -/
theorem oneLine_indent (isLast : Bool) : OneLine (indent isLast) := by
  cases isLast <;> decide

mutual

/-- The lines of the parts of a step have no line feed if no name in it has one. -/
theorem oneLine_partLines : ∀ (step : Step) {margin : String}, OneLine margin →
    (∀ s ∈ step.withNested, ∀ name ∈ s.names, OneLine name) →
    ∀ line ∈ partLines margin step, OneLine line
  | .action _ _, _, _, _ => by simp [partLines]
  | .branch _ _ thenSteps elseIf elseSteps, margin, hmargin, h => by
    intro line hline
    simp only [partLines, List.mem_cons, List.mem_append] at hline
    rcases hline with rfl | hline | hline | rfl | hline
    · exact (hmargin.append (oneLine_mark false)).append (by decide)
    · exact oneLine_sequenceLines thenSteps (hmargin.append (oneLine_indent false))
        (fun s hs => h s (by simp [withNested, hs])) line hline
    · exact oneLine_clausesLines elseIf hmargin
        (fun s hs => h s (by simp [withNested, hs])) line hline
    · exact (hmargin.append (oneLine_mark true)).append (by decide)
    · exact oneLine_sequenceLines elseSteps (hmargin.append (oneLine_indent true))
        (fun s hs => h s (by simp [withNested, hs])) line hline

/-- Nor have the lines of a sequence. -/
theorem oneLine_sequenceLines : ∀ (steps : List Step) {margin : String}, OneLine margin →
    (∀ s ∈ inside steps, ∀ name ∈ s.names, OneLine name) →
    ∀ line ∈ sequenceLines margin steps, OneLine line
  | [], margin, hmargin, _ => by
    intro line hline
    rw [sequenceLines_nil, List.mem_singleton] at hline
    rw [hline]
    exact (hmargin.append (oneLine_mark true)).append (by decide)
  | step :: rest, margin, hmargin, h => by
    intro line hline
    rw [sequenceLines_cons, List.mem_cons, List.mem_append] at hline
    have hstep : ∀ s ∈ step.withNested, ∀ name ∈ s.names, OneLine name :=
      fun s hs => h s (by simp [inside, hs])
    rcases hline with rfl | hline | hline
    · have htitle := oneLine_title (h step (mem_inside_cons_self step rest))
      exact (hmargin.append (oneLine_mark _)).append htitle
    · exact oneLine_partLines step (hmargin.append (oneLine_indent _)) hstep line hline
    · have hrest := oneLine_sequenceLines rest hmargin fun s hs => h s (by simp [inside, hs])
      cases rest with
      | nil => cases hline
      | cons second more => exact hrest line hline

/-- Nor have the lines of else-if clauses. -/
theorem oneLine_clausesLines : ∀ (clauses : List (Condition × List Step)) {margin : String},
    OneLine margin → (∀ s ∈ insideClauses clauses, ∀ name ∈ s.names, OneLine name) →
    ∀ line ∈ clausesLines margin clauses, OneLine line
  | [], _, _, _ => by simp [clausesLines]
  | (condition, steps) :: rest, margin, hmargin, h => by
    intro line hline
    rw [clausesLines_cons, List.mem_cons, List.mem_append] at hline
    rcases hline with rfl | hline | hline
    · have hlabel : OneLine "else if " := by
        decide
      exact (hmargin.append (oneLine_mark false)).append (hlabel.append condition.oneLine_text)
    · exact oneLine_sequenceLines steps (hmargin.append (oneLine_indent false))
        (fun s hs => h s (by simp [insideClauses, hs])) line hline
    · exact oneLine_clausesLines rest hmargin (fun s hs => h s (by simp [insideClauses, hs])) line
        hline

end

/-- What stands before the first line feed can be taken off in one way only. -/
theorem append_lineFeed_cancel {line other rest tail : List Char} (hline : '\n' ∉ line)
    (hother : '\n' ∉ other) (h : line ++ '\n' :: rest = other ++ '\n' :: tail) :
    line = other ∧ rest = tail := by
  induction line generalizing other with
  | nil =>
    cases other with
    | nil => exact ⟨rfl, (List.cons.inj h).2⟩
    | cons d other =>
      cases (List.cons.inj h).1
      exact absurd List.mem_cons_self hother
  | cons c line ih =>
    cases other with
    | nil =>
      cases (List.cons.inj h).1
      exact absurd List.mem_cons_self hline
    | cons d other =>
      obtain ⟨rfl, hlater⟩ := List.cons.inj h
      obtain ⟨rfl, hrest⟩ := ih (fun hmem => hline (List.mem_cons_of_mem _ hmem))
        (fun hmem => hother (List.mem_cons_of_mem _ hmem)) hlater
      exact ⟨rfl, hrest⟩

/-- A text has its lines in one way only. -/
theorem lines_eq_of_join_eq {lines others : List String} (hlines : ∀ line ∈ lines, OneLine line)
    (hothers : ∀ line ∈ others, OneLine line)
    (h : String.join (lines.map (· ++ "\n")) = String.join (others.map (· ++ "\n"))) :
    lines = others := by
  have hcons : ∀ (line : String) (rest : List String),
      (String.join ((line :: rest).map (· ++ "\n"))).toList =
        line.toList ++ '\n' :: (String.join (rest.map (· ++ "\n"))).toList := by
    intro line rest
    simp
  induction lines generalizing others with
  | nil =>
    cases others with
    | nil => rfl
    | cons other others =>
      have hlist := congrArg String.toList h
      rw [hcons] at hlist
      simp at hlist
  | cons line rest ih =>
    cases others with
    | nil =>
      have hlist := congrArg String.toList h
      rw [hcons] at hlist
      simp at hlist
    | cons other others =>
      have hlist := congrArg String.toList h
      rw [hcons, hcons] at hlist
      obtain ⟨hline, hrest⟩ := append_lineFeed_cancel (hlines line List.mem_cons_self)
        (hothers other List.mem_cons_self) hlist
      rw [String.toList_inj.1 hline, ih (fun l hl => hlines l (List.mem_cons_of_mem _ hl))
        (fun l hl => hothers l (List.mem_cons_of_mem _ hl)) (String.toList_inj.1 hrest)]

/-- The lines of a tree. -/
def treeLines (steps : List Step) : List String :=
  if steps.isEmpty then ["<no steps>"] else sequenceLines "" steps

/-- No line of a tree that can be drawn has a line feed. -/
theorem oneLine_treeLines {steps : List Step} (h : Drawable steps) :
    ∀ line ∈ treeLines steps, OneLine line := by
  intro line hline
  unfold treeLines at hline
  split at hline
  · rw [List.mem_singleton.1 hline]
    decide
  · exact oneLine_sequenceLines steps (by decide) h.oneLine line hline

/-- If trees that can be drawn have the same lines, then they have the same shape. -/
theorem shapes_eq_of_treeLines_eq {steps others : List Step} (hsteps : Drawable steps)
    (hothers : Drawable others) (h : treeLines steps = treeLines others) :
    shapes steps = shapes others := by
  -- The line of an entry begins with its mark, which is not that of a tree without steps.
  have hentry : ∀ step (rest : List Step), treeLines (step :: rest) ≠ ["<no steps>"] := by
    intro step rest heq
    rw [treeLines, if_neg (by simp), sequenceLines_cons] at heq
    have hline := congrArg String.toList (List.cons.inj heq).1
    cases rest <;> simp [mark, middleMark, lastMark] at hline
  cases steps with
  | nil =>
    cases others with
    | nil => rfl
    | cons other others => exact absurd h.symm (hentry other others)
  | cons step steps =>
    cases others with
    | nil => exact absurd h (hentry step steps)
    | cons other others =>
      have hlines : sequenceLines "" (step :: steps) ++ [] =
          sequenceLines "" (other :: others) ++ [] := congrArg (· ++ []) h
      have habove : Above "" [] := by
        intro line hline
        cases hline
      exact (sequence_cancel (step :: steps) hsteps.notEmpty hothers.notEmpty habove habove
        hlines).1

/-- Steps that are drawn as the same tree are nested in the same way: every sequence has as many
steps, with branches at the same places and as many else-if clauses in each of them. -/
theorem shapes_eq_of_tree_eq {steps others : List Step} (hsteps : Drawable steps)
    (hothers : Drawable others) (h : tree steps = tree others) : shapes steps = shapes others :=
  shapes_eq_of_treeLines_eq hsteps hothers
    (lines_eq_of_join_eq (oneLine_treeLines hsteps) (oneLine_treeLines hothers) h)

/-- A branch with one action and no more, and after it an action whose type looks like a line of the
branch. -/
def drawn (action : Step) : List Step :=
  [.branch "IF" .always [action] [(.always, [])] [], .action "└── else" .empty]

/-- The branch with an action in it can be drawn if the action can. -/
theorem drawable_drawn {type : String} {fields : FieldMap Value} (hempty : type ≠ "<empty>")
    (hnames : ∀ name ∈ (action type fields).names, OneLine name) :
    Drawable (drawn (.action type fields)) := by
  constructor
  · intro step hstep
    simp only [drawn, inside, insideClauses, withNested, List.append_nil, List.cons_append,
      List.nil_append, List.mem_cons, List.not_mem_nil, or_false] at hstep
    rcases hstep with rfl | rfl | rfl
    · simp only [names, List.mem_singleton, forall_eq]
      decide
    · exact hnames
    · simp only [names, FieldMap.empty, List.map_nil, List.mem_singleton, forall_eq]
      decide
  · simp [drawn, emptyLike, inside, insideClauses, withNested, Ne.symm hempty]

/-- An action with a field and one whose type looks like it are drawn alike and nested alike. -/
theorem shapes_drawn :
    tree (drawn (.action "say" (.ofList [("text", .integer 1)]))) =
        tree (drawn (.action "say text=1" .empty)) ∧
      shapes (drawn (.action "say" (.ofList [("text", .integer 1)]))) =
        shapes (drawn (.action "say text=1" .empty)) := by
  have htree : tree (drawn (.action "say" (.ofList [("text", .integer 1)]))) =
      tree (drawn (.action "say text=1" .empty)) := by
    decide +kernel
  refine ⟨htree, shapes_eq_of_tree_eq (drawable_drawn ?_ ?_) (drawable_drawn ?_ ?_) htree⟩
  all_goals decide

/-- An action that looks like the line of a sequence without steps is drawn as if it were none. -/
example : tree [.branch "IF" .always [] [] []] = tree [.branch "IF" .always [emptyLike] [] []] := by
  decide +kernel

end Step

end AbilityGraph
