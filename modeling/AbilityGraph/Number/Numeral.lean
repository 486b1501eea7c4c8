import AbilityGraph.Number.Double

/-!
# Numerals

A numeral is the text of a number: a sign, digits before and after a point, and a power of ten.
`Numeral` holds its parts, and two ways to give it a value as a double.

`Numeral.nearest?` is the double nearest to the numeral. `Numeral.scaled?` is what JSON text stands
for: as many digits as fit into 64 bits make a whole number, and that is rounded to a double before
it is multiplied or divided by a power of ten, so that a long numeral may end one double beside the
nearest one.
-/

set_option autoImplicit false

namespace AbilityGraph

open Power

/-- The parts of the text of a number; digits are kept as their values. -/
structure Numeral where
  negative : Bool
  whole : List Nat
  fraction : List Nat
  exponent : Int
  deriving DecidableEq, Inhabited

namespace Numeral

/-- The value of a decimal digit. -/
def digit? (c : Char) : Option Nat :=
  if '0' ≤ c ∧ c ≤ '9' then some (c.toNat - '0'.toNat) else none

/-- The digits at the start of a text, and the rest of the text. -/
def splitDigits : List Char → List Nat × List Char
  | [] => ([], [])
  | c :: rest =>
    match digit? c with
    | some d => ((d :: (splitDigits rest).1), (splitDigits rest).2)
    | none => ([], c :: rest)

/-- The whole number that digits stand for. -/
def ofDigits (digits : List Nat) : Nat := digits.foldl (10 * · + ·) 0

/-- A sign at the start of a text, and the rest of the text. -/
def splitSign : List Char → Option Bool × List Char
  | '-' :: rest => (some true, rest)
  | '+' :: rest => (some false, rest)
  | rest => (none, rest)

/-- The power of ten at the end of a numeral: `e`, an optional sign and digits, and nothing else. -/
def exponent? : List Char → Option Int
  | [] => some 0
  | c :: rest =>
    if c = 'e' ∨ c = 'E' then
      let (sign, rest) := splitSign rest
      match splitDigits rest with
      | ([], _) => none
      | (digits, []) =>
        some (if sign = some true then -(ofDigits digits : Int) else ofDigits digits)
      | (_, _ :: _) => none
    else none

/-- The numeral that a text is: an optional sign, digits with an optional point among or around
them, at least one digit, and an optional power of ten. -/
def ofText? (text : List Char) : Option Numeral :=
  let (sign, unsigned) := splitSign text
  let (whole, rest) := splitDigits unsigned
  let (fraction, rest) := match rest with
    | '.' :: rest => splitDigits rest
    | rest => ([], rest)
  if whole = [] ∧ fraction = [] then none else
    (exponent? rest).map fun exponent => ⟨sign = some true, whole, fraction, exponent⟩

/-- The double nearest to a numeral, or nothing if it is beyond the greatest double. Numerals that
their powers of ten put far outside the range of doubles are told by their sizes alone. -/
def nearest? (n : Numeral) : Option Double :=
  let digits := ofDigits (n.whole ++ n.fraction)
  let exponent := n.exponent - n.fraction.length
  let top := (Nat.toDigits 10 digits).length + exponent
  if digits = 0 ∨ top < -400 then some (.zero n.negative)
  else if 400 < top then none
  else Double.ofQuotient? n.negative (digits * 10 ^ exponent.toNat) (10 ^ (-exponent).toNat)

/-- The number of values of a word of 64 bits. -/
def wordSize : Nat := 18446744073709551616

/-- Extends a whole number by digits as far as it fits into a word; gives the result and the
number of digits taken. -/
def absorb (significand : Nat) : List Nat → Nat × Nat
  | [] => (significand, 0)
  | d :: rest =>
    if 10 * significand + d < wordSize then
      let (result, taken) := absorb (10 * significand + d) rest
      (result, taken + 1)
    else (significand, 0)

/-- The exponent of the greatest power of ten that is not beyond the greatest double. -/
def greatestPowerOfTen : Nat := 308

/-- Divides by a power of ten, by steps of the greatest one while the power is greater than that. -/
def divideByPowerOfTen? (x : Double) (power : Nat) : Option Double :=
  if x.mantissa = 0 then some x
  else if power ≤ greatestPowerOfTen then Double.ofQuotient? false (10 ^ power) 1 >>= x.div?
  else do
    let smaller ← Double.ofQuotient? false (10 ^ greatestPowerOfTen) 1 >>= x.div?
    divideByPowerOfTen? smaller (power - greatestPowerOfTen)
termination_by power
decreasing_by
  unfold greatestPowerOfTen at *
  omega

/-- A whole number, rounded to a double, times a power of ten. -/
def scaleByPowerOfTen? (negative : Bool) (significand : Nat) (power : Int) : Option Double := do
  let x ← Double.ofQuotient? negative significand 1
  if power < 0 then divideByPowerOfTen? x power.natAbs
  else if x.mantissa = 0 then some x
  else if power ≤ greatestPowerOfTen then Double.ofQuotient? false (10 ^ power.toNat) 1 >>= x.mul?
  else none

/-- The double that a numeral in JSON text stands for, or nothing if it is too great. A power of
ten that does not fit into 32 bits decides alone, unless all digits are zero. -/
def scaled? (n : Numeral) : Option Double :=
  let (wholeTaken, takenBefore) := absorb 0 n.whole
  let (significand, takenAfter) := absorb wholeTaken n.fraction
  let dropped := n.whole.length - takenBefore
  if 2147483648 ≤ n.exponent.natAbs then
    if significand ≠ 0 ∧ 0 < n.exponent then none else some (.zero n.negative)
  else
    scaleByPowerOfTen? n.negative significand (n.exponent + dropped - takenAfter)

end Numeral

end AbilityGraph
