import AbilityGraph.Json.Printer
import Mathlib.Data.List.Basic

/-!
# Compact JSON stands on one line

The compact text of a JSON value has no line feed (`Json.oneLine_compact`). A line feed can only
come from a string, and there it is escaped; numbers are made of digits, signs, points and the
letter of the exponent.
-/

set_option autoImplicit false

namespace AbilityGraph

/-- A text has no line feed. -/
def OneLine (text : String) : Prop := '\n' ∉ text.toList

instance (text : String) : Decidable (OneLine text) :=
  inferInstanceAs (Decidable ('\n' ∉ text.toList))

/-- Two texts without a line feed make up one without. -/
theorem OneLine.append {text other : String} (h : OneLine text) (hother : OneLine other) :
    OneLine (text ++ other) := by
  rw [OneLine, String.toList_append, List.mem_append, not_or]
  exact ⟨h, hother⟩

/-- Texts without a line feed, put together with a separator without one, have none. -/
theorem oneLine_intercalate {separator : String} {parts : List String}
    (hseparator : OneLine separator) (hparts : ∀ part ∈ parts, OneLine part) :
    OneLine (separator.intercalate parts) := by
  induction parts with
  | nil => simp [OneLine]
  | cons first rest ih =>
    have hfirst := hparts first List.mem_cons_self
    have hrest := ih fun part hpart => hparts part (List.mem_cons_of_mem _ hpart)
    cases rest with
    | nil =>
      rw [String.intercalate_singleton]
      exact hfirst
    | cons second more =>
      rw [String.intercalate_cons_cons]
      exact (hfirst.append hseparator).append hrest

/-! ## Numbers -/

/-- No digit is a line feed. -/
theorem lineFeed_not_mem_toDigits (n : Nat) : '\n' ∉ Nat.toDigits 10 n := by
  intro hmem
  have hdigit := Nat.isDigit_of_mem_toDigits (by decide) (by decide) hmem
  cases hdigit

namespace DecimalLayout

/-- Digits with a point between them or zeros around them have no line feed. -/
theorem lineFeed_not_mem_positional (layout : DecimalLayout) {digits : List Char} (point : Int)
    (hdigits : '\n' ∉ digits) : '\n' ∉ layout.positional digits point := by
  have hreplicate : ∀ count, '\n' ∉ List.replicate count '0' := by
    intro count hmem
    cases List.eq_of_mem_replicate hmem
  unfold positional
  split
  · simp [hdigits, hreplicate]
  · split
    · split <;> simp [hdigits, hreplicate]
    · have htake : '\n' ∉ digits.take point.toNat := fun h => hdigits (List.mem_of_mem_take h)
      have hdrop : '\n' ∉ digits.drop point.toNat := fun h => hdigits (List.mem_of_mem_drop h)
      simp [htake, hdrop]

/-- Digits with an exponent have no line feed. -/
theorem lineFeed_not_mem_scientific {digits : List Char} (point : Int) (hdigits : '\n' ∉ digits) :
    '\n' ∉ scientific digits point := by
  have hsign : '\n' ≠ if point - 1 < 0 then '-' else '+' := by
    split <;> decide
  have hexponent : '\n' ∉ Double.decimalDigits (point - 1).natAbs := lineFeed_not_mem_toDigits _
  simp only [scientific, List.mem_append, List.mem_cons, not_or]
  refine ⟨?_, by decide, hsign, hexponent⟩
  split
  · simpa using hdigits
  · exact hdigits

/-- The text of a double has no line feed, in any layout. -/
theorem oneLine_write (layout : DecimalLayout) (x : Double) : OneLine (layout.write x) := by
  have hsign : '\n' ∉ (if x.negative then ['-'] else []) := by
    split <;> decide
  have hdigits := lineFeed_not_mem_toDigits (x.shortest layout.tiesGoUp).digits
  simp only [OneLine, write, String.toList_ofList, List.mem_append, not_or]
  refine ⟨hsign, ?_⟩
  split
  · split <;> decide
  · split
    · exact lineFeed_not_mem_scientific _ hdigits
    · exact layout.lineFeed_not_mem_positional _ hdigits

end DecimalLayout

/-- The text of a number has no line feed. -/
theorem Number.oneLine_text (number : Number) : OneLine number.text := by
  cases number with
  | integer n =>
    have hdigits : ∀ m : Nat, OneLine m.repr := by
      intro m
      rw [OneLine, Nat.toList_repr]
      exact lineFeed_not_mem_toDigits m
    cases n with
    | ofNat m => exact hdigits m
    | negSucc m =>
      have hsign : OneLine "-" := by
        decide
      exact hsign.append (hdigits _)
  | double x => exact DecimalLayout.oneLine_write _ x

/-! ## Strings and whole values -/

namespace Json

/-- The text of a character inside a string has no line feed: a line feed is escaped. -/
theorem lineFeed_not_mem_escapeChar (c : Char) : '\n' ∉ escapeChar c := by
  by_cases hfeed : c = '\n'
  · rw [hfeed]
    decide
  · have hhex : ∀ n < 16, '\n' ≠ hexDigit n := by
      decide
    unfold escapeChar
    rw [if_neg hfeed]
    iterate 6
      split
      · decide
    split
    next hcontrol =>
      have hhigh := hhex (c.toNat / 16) (by omega)
      have hlow := hhex (c.toNat % 16) (by omega)
      simp [hhigh, hlow]
    next => simpa using Ne.symm hfeed

/-- A quoted string has no line feed, whatever is in it. -/
theorem oneLine_quoted (s : String) : OneLine (quoted s) := by
  have hescaped : '\n' ∉ s.toList.flatMap escapeChar := by
    rw [List.mem_flatMap]
    rintro ⟨c, -, hc⟩
    exact lineFeed_not_mem_escapeChar c hc
  simp [OneLine, quoted, hescaped]

mutual

/-- The compact text of a value has no line feed. -/
theorem oneLine_compact : ∀ value : Json, OneLine value.compact
  | null => by decide
  | bool true => by decide
  | bool false => by decide
  | number value => value.oneLine_text
  | string value => oneLine_quoted value
  | array items => by
    have hcomma : OneLine "," := by
      decide
    have hopening : OneLine "[" := by
      decide
    have hitems := oneLine_intercalate hcomma (oneLine_compactItems items)
    rw [compact]
    exact (hopening.append hitems).append (by decide)
  | object members => by
    have hcomma : OneLine "," := by
      decide
    have hopening : OneLine "\x7b" := by
      decide
    have hmembers := oneLine_intercalate hcomma (oneLine_compactMembers members)
    rw [compact]
    exact (hopening.append hmembers).append (by decide)

/-- Nor have the compact texts of the items of an array. -/
theorem oneLine_compactItems : ∀ items : List Json, ∀ text ∈ compactItems items, OneLine text
  | [] => by simp [compactItems]
  | item :: rest => by
    intro text htext
    rw [compactItems, List.mem_cons] at htext
    rcases htext with rfl | htext
    · exact oneLine_compact item
    · exact oneLine_compactItems rest text htext

/-- Nor have the compact texts of the members of an object. -/
theorem oneLine_compactMembers : ∀ members : List (String × Json),
    ∀ text ∈ compactMembers members, OneLine text
  | [] => by simp [compactMembers]
  | (name, value) :: rest => by
    intro text htext
    rw [compactMembers, List.mem_cons] at htext
    rcases htext with rfl | htext
    · have hname : OneLine (quoted name ++ ":") := (oneLine_quoted name).append (by decide)
      exact hname.append (oneLine_compact value)
    · exact oneLine_compactMembers rest text htext

end

end Json

/-- The text of a config value has no line feed. -/
theorem Value.oneLine_text (value : Value) : OneLine value.text := value.tree.oneLine_compact

end AbilityGraph
