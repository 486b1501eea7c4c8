import AbilityGraph.Number.Double

/-!
# The shortest decimal text of a double

A double is written with the fewest decimal digits that read back as the same double, and of those
with the ones nearest to it. `Double.shortest` finds the digits: the reals that round to a double
form an interval around it, and on the grid of decimals with one, two, ... digits the first grid
with a point in the interval is taken. Only the two grid points beside the double need a look.

`DecimalLayout` says how digits become text: which magnitudes are written out positionally,
whether a whole number keeps a point, and which way two equally near candidates go.
-/

set_option autoImplicit false

namespace AbilityGraph

open Power

/-- A decimal numeral, worth `digits * 10 ^ exponent`. -/
structure Decimal where
  digits : Nat
  exponent : Int
  deriving DecidableEq, Inhabited

namespace Decimal

/-- The same numeral without zeros at the end of its digits. -/
def trim (d : Decimal) : Decimal :=
  if h : d.digits ≠ 0 ∧ d.digits % 10 = 0 then trim ⟨d.digits / 10, d.exponent + 1⟩ else d
termination_by d.digits
decreasing_by exact Nat.div_lt_self (Nat.pos_of_ne_zero h.1) (by decide)

end Decimal

/-- How a decimal numeral is laid out as text. -/
structure DecimalLayout where
  /-- The least power of ten that is still written positionally, if there is one. -/
  positionalFrom : Option Int
  /-- The power of ten from which numbers are no longer written positionally, if there is one. -/
  positionalBelow : Option Int
  /-- Whether a whole number written positionally ends in a point and a zero. -/
  keepsPoint : Bool
  /-- Whether, of two equally near candidates, the greater is taken, or else the even one. -/
  tiesGoUp : Bool

namespace Double

/-- The digits of a whole number in base ten. -/
def decimalDigits (n : Nat) : List Char := Nat.toDigits 10 n

/-- The scale at which magnitudes are turned to decimals: every positive double is at least one
after multiplication by this power of ten. -/
def decimalScale : Nat := 400

/-- The power of ten just above a positive double: `10 ^ (p - 1) ≤ x < 10 ^ p`. -/
def decimalMagnitude (x : Double) : Int :=
  (decimalDigits (x.magnitude * 10 ^ decimalScale / unitsPerOne)).length - (decimalScale : Int)

/-- The reals that round to a double, counted in quarters of a unit: the double and the two ends of
the interval. The ends belong to the interval when the mantissa is even. -/
structure RoundingInterval where
  lower : Nat
  centre : Nat
  upper : Nat
  closed : Bool

/-- The interval of the reals that round to the magnitude of a double. Below a power of two the
neighbouring double is only half as far away as above it. -/
def roundingInterval (x : Double) : RoundingInterval :=
  let gap := 2 ^ x.exponent
  let narrow := x.mantissa = 2 ^ (mantissaDigits - 1) ∧ x.exponent ≠ 0
  { lower := 4 * x.magnitude - (if narrow then gap else 2 * gap)
    centre := 4 * x.magnitude
    upper := 4 * x.magnitude + 2 * gap
    closed := x.mantissa % 2 = 0 }

/-- The digits of the grid point nearest to the double among the decimals with the given exponent
that lie in its interval, if there is one. -/
def nearestOnGrid? (tiesGoUp : Bool) (interval : RoundingInterval) (exponent : Int) : Option Nat :=
  let scale := 10 ^ (-exponent).toNat
  let step := 4 * unitsPerOne * 10 ^ exponent.toNat
  let centre := interval.centre * scale
  let admits (candidate : Nat) : Bool :=
    if interval.closed then
      interval.lower * scale ≤ candidate * step ∧ candidate * step ≤ interval.upper * scale
    else interval.lower * scale < candidate * step ∧ candidate * step < interval.upper * scale
  let below := centre / step
  let above := below + 1
  let rest := centre % step
  let aboveIsNearer : Bool :=
    step < 2 * rest ∨ (step = 2 * rest ∧ (tiesGoUp ∨ below % 2 = 1))
  match admits below, admits above with
  | true, true => some (if aboveIsNearer then above else below)
  | true, false => some below
  | false, true => some above
  | false, false => none

/-- The shortest decimal that rounds to the magnitude of a double. Seventeen digits always do. -/
def shortest (tiesGoUp : Bool) (x : Double) : Decimal :=
  if x.mantissa = 0 then ⟨0, 0⟩ else
    let top := x.decimalMagnitude
    let interval := x.roundingInterval
    let found := (List.range 17).findSome? fun (extra : Nat) =>
      let exponent := top - 1 - (extra : Int)
      (nearestOnGrid? tiesGoUp interval exponent).map (Decimal.mk · exponent)
    (found.getD ⟨0, 0⟩).trim

end Double

namespace DecimalLayout

/-- Digits without an exponent: a point among them or zeros around them. -/
def positional (layout : DecimalLayout) (digits : List Char) (point : Int) : List Char :=
  if point ≤ 0 then
    '0' :: '.' :: (List.replicate (-point).toNat '0' ++ digits)
  else if digits.length ≤ point.toNat then
    digits ++ List.replicate (point.toNat - digits.length) '0'
      ++ (if layout.keepsPoint then ['.', '0'] else [])
  else digits.take point.toNat ++ '.' :: digits.drop point.toNat

/-- Digits with an exponent: one digit before the point, and the exponent always signed. -/
def scientific (digits : List Char) (point : Int) : List Char :=
  let exponent := point - 1
  let mantissa := match digits with
    | first :: second :: rest => first :: '.' :: second :: rest
    | short => short
  mantissa ++ 'e' :: (if exponent < 0 then '-' else '+') :: Double.decimalDigits exponent.natAbs

/-- The text of a double in a layout. -/
def write (layout : DecimalLayout) (x : Double) : String :=
  let sign := if x.negative then ['-'] else []
  let body :=
    if x.mantissa = 0 then '0' :: (if layout.keepsPoint then ['.', '0'] else []) else
      let decimal := x.shortest layout.tiesGoUp
      let digits := Double.decimalDigits decimal.digits
      let point := digits.length + decimal.exponent
      let small := layout.positionalFrom.any (point - 1 < ·)
      let large := layout.positionalBelow.any (· ≤ point - 1)
      if small || large then scientific digits point else layout.positional digits point
  String.ofList (sign ++ body)

/-- The layout of doubles in JSON text: positional from `10 ^ -5` to below `10 ^ 16`, and always
recognisable as a double. -/
def json : DecimalLayout := ⟨some (-5), some 16, true, false⟩

/-- The layout of bounds in messages: always positional, whole numbers without a point. -/
def plain : DecimalLayout := ⟨none, none, false, true⟩

end DecimalLayout

end AbilityGraph
