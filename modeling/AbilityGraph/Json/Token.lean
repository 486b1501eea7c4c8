import AbilityGraph.Json
import AbilityGraph.Number.Numeral

/-!
# Tokens of JSON text

JSON text is a sequence of tokens with blanks between them. A number or string token that is well
formed always becomes a token; whether it has a value is a separate question, answered in the
token: a number may be beyond all doubles, and a string may hold half of a surrogate pair.
-/

set_option autoImplicit false

namespace AbilityGraph

/-- A token of JSON text. Numbers and strings carry their value, if they have one. -/
inductive Token where
  | openArray
  | closeArray
  | openObject
  | closeObject
  | comma
  | colon
  | null
  | bool (value : Bool)
  | number (value : Option Number)
  | string (value : Option String)

namespace Token

/-! ## Strings -/

/-- A piece of a string token: a character, or a 16-bit code unit given by number. -/
inductive Piece where
  | char (c : Char)
  | unit (code : Nat)

/-- The value of a hexadecimal digit. -/
def hexDigit? (c : Char) : Option Nat :=
  if '0' ≤ c ∧ c ≤ '9' then some (c.toNat - '0'.toNat)
  else if 'a' ≤ c ∧ c ≤ 'f' then some (c.toNat - 'a'.toNat + 10)
  else if 'A' ≤ c ∧ c ≤ 'F' then some (c.toNat - 'A'.toNat + 10)
  else none

/-- The character that a letter after a backslash stands for. -/
def escaped? (c : Char) : Option Char :=
  if c = '"' ∨ c = '\\' ∨ c = '/' then some c
  else if c = 'b' then some '\x08'
  else if c = 'f' then some '\x0c'
  else if c = 'n' then some '\n'
  else if c = 'r' then some '\r'
  else if c = 't' then some '\t'
  else none

/-- The pieces of a string up to its closing quote, and the text after that; nothing if the string
does not end, holds a control character or has an escape that is none. -/
def scanString : List Char → Option (List Piece × List Char)
  | [] => none
  | '"' :: rest => some ([], rest)
  | '\\' :: 'u' :: a :: b :: c :: d :: rest => do
    let code := (← hexDigit? a) * 4096 + (← hexDigit? b) * 256 + (← hexDigit? c) * 16
      + (← hexDigit? d)
    let (pieces, after) ← scanString rest
    some (.unit code :: pieces, after)
  | '\\' :: c :: rest => do
    let char ← escaped? c
    let (pieces, after) ← scanString rest
    some (.char char :: pieces, after)
  | c :: rest =>
    if c.toNat < 0x20 ∨ c = '\\' then none else do
      let (pieces, after) ← scanString rest
      some (.char c :: pieces, after)

/-- What follows a string is shorter than the text from the string on. -/
theorem length_scanString {text : List Char} {result : List Piece × List Char}
    (h : scanString text = some result) : result.2.length < text.length := by
  fun_induction scanString text generalizing result with
  | case1 => cases h
  | case2 rest => cases h; simp
  | case3 a b c d rest ih =>
    simp only [Option.bind_eq_bind, Option.bind_eq_some_iff] at h
    obtain ⟨_, _, _, _, _, _, _, _, inner, hinner, h⟩ := h
    cases h
    have := ih hinner
    simp only [List.length_cons] at this ⊢
    omega
  | case4 c rest _ ih =>
    simp only [Option.bind_eq_bind, Option.bind_eq_some_iff] at h
    obtain ⟨_, _, inner, hinner, h⟩ := h
    cases h
    have := ih hinner
    simp only [List.length_cons] at this ⊢
    omega
  | case5 => cases h
  | case6 c rest _ _ _ _ ih =>
    simp only [Option.bind_eq_bind, Option.bind_eq_some_iff] at h
    obtain ⟨inner, hinner, h⟩ := h
    cases h
    have := ih hinner
    simp only [List.length_cons] at this ⊢
    omega

/-- The first half of a surrogate pair. -/
def isHighSurrogate (code : Nat) : Bool := 0xD800 ≤ code && code ≤ 0xDBFF

/-- The second half of a surrogate pair. -/
def isLowSurrogate (code : Nat) : Bool := 0xDC00 ≤ code && code ≤ 0xDFFF

/-- The text of the pieces of a string; nothing if half of a surrogate pair stands alone. -/
def joinPieces : List Piece → Option (List Char)
  | [] => some []
  | .char c :: rest => (joinPieces rest).map (c :: ·)
  | .unit high :: .unit low :: rest =>
    if isHighSurrogate high && isLowSurrogate low then
      let code := 0x10000 + (high - 0xD800) * 0x400 + (low - 0xDC00)
      (joinPieces rest).map (Char.ofNat code :: ·)
    else if isHighSurrogate high || isLowSurrogate high then none
    else (joinPieces (.unit low :: rest)).map (Char.ofNat high :: ·)
  | .unit code :: rest =>
    if isHighSurrogate code || isLowSurrogate code then none
    else (joinPieces rest).map (Char.ofNat code :: ·)

/-! ## Numbers -/

/-- The characters that numbers consist of. -/
def isNumberChar (c : Char) : Bool :=
  c.isDigit || c == '-' || c == '+' || c == '.' || c == 'e' || c == 'E'

/-- Whether a text is a JSON number: no plus sign in front, no superfluous zero, and digits on both
sides of a point. -/
def isJsonNumber (text : List Char) : Bool :=
  let unsigned := match text with
    | '-' :: rest => rest
    | rest => rest
  match Numeral.splitDigits unsigned with
  | ([], _) => false
  | (0 :: _ :: _, _) => false
  | (_, '.' :: rest) => (Numeral.splitDigits rest).1 ≠ []
  | (_, _) => true

/-- The number of a JSON numeral. Without point and exponent it is an integer if 64 bits hold it,
with or without a sign; all else, and negative zero, is a double. -/
def numberOf? (text : List Char) (n : Numeral) : Option Number :=
  let size := Numeral.ofDigits n.whole
  let isWhole := text.all fun c => c.isDigit || c == '-'
  let limit := if n.negative then Numeral.wordSize / 2 else Numeral.wordSize - 1
  if isWhole ∧ size ≤ limit ∧ ¬(n.negative ∧ size = 0) then
    some (.integer (if n.negative then -(size : Int) else size))
  else n.scaled?.map .double

/-! ## The sequence of tokens -/

/-- The token that a single character is. -/
def ofChar? (c : Char) : Option Token :=
  if c = '[' then some openArray
  else if c = ']' then some closeArray
  else if c = '\x7b' then some openObject
  else if c = '\x7d' then some closeObject
  else if c = ',' then some comma
  else if c = ':' then some colon
  else none

/-- The token that a word is. -/
def ofWord? (word : List Char) : Option Token :=
  if word = "null".toList then some null
  else if word = "true".toList then some (bool true)
  else if word = "false".toList then some (bool false)
  else none

/-- The blanks of JSON text. -/
def isJsonBlank (c : Char) : Bool := c == ' ' || c == '\t' || c == '\n' || c == '\r'

/-- What is left after a character and some of those that follow it is shorter. The scanner ends
because each token takes a character off. -/
theorem length_dropWhile_lt (p : Char → Bool) (c : Char) (rest : List Char) :
    (rest.dropWhile p).length < (c :: rest).length :=
  Nat.lt_succ_of_le (List.dropWhile_sublist p).length_le

/-- The tokens of a text, after the given ones, which are in reverse order; nothing if some part of
the text is no token. -/
def scan (tokens : List Token) : List Char → Option (List Token)
  | [] => some tokens.reverse
  | c :: rest =>
    if isJsonBlank c then scan tokens rest
    else if c = '"' then
      match _h : scanString rest with
      | none => none
      | some (pieces, after) =>
        scan (string ((joinPieces pieces).map String.ofList) :: tokens) after
    else if c.isAlpha then
      match ofWord? (c :: rest.takeWhile Char.isAlpha) with
      | none => none
      | some token => scan (token :: tokens) (rest.dropWhile Char.isAlpha)
    else if isNumberChar c then
      let text := c :: rest.takeWhile isNumberChar
      match if isJsonNumber text then Numeral.ofText? text else none with
      | none => none
      | some numeral =>
        scan (number (numberOf? text numeral) :: tokens) (rest.dropWhile isNumberChar)
    else
      match ofChar? c with
      | none => none
      | some token => scan (token :: tokens) rest
termination_by text => text.length
decreasing_by
  · exact Nat.lt_succ_self _
  · exact Nat.lt_succ_of_lt (length_scanString _h)
  · exact length_dropWhile_lt Char.isAlpha c rest
  · exact length_dropWhile_lt isNumberChar c rest
  · exact Nat.lt_succ_self _

/-- The tokens of a text, if all of it is tokens and blanks. -/
def ofText? (text : String) : Option (List Token) := scan [] text.toList

end Token

end AbilityGraph
