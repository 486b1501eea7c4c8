import AbilityGraph.Number.Power

/-!
# Exact doubles

A JSON number that is not an integer is an IEEE double, and such a number is always finite. `Double`
holds one exactly: a sign and a magnitude `mantissa * 2 ^ exponent`, counted in units of the least
positive double, `2 ^ -1074`. Every finite double has one such form, so zero of either sign and
each other value is represented once.

Order, rounding to whole numbers and arithmetic are stated in exact integers. A result that is no
double is rounded to the nearest one, a half going to the even mantissa; a magnitude beyond the
greatest double is no value at all.
-/

set_option autoImplicit false

namespace AbilityGraph

open Power

/-- The number of binary digits of a full mantissa. -/
abbrev mantissaDigits : Nat := 53

/-- The exponent of the greatest doubles. -/
abbrev greatestExponent : Nat := 2045

/-- A finite double, worth `± mantissa * 2 ^ exponent` units of `2 ^ -1074`. -/
structure Double where
  negative : Bool
  mantissa : Nat
  exponent : Nat
  mantissa_lt : mantissa < 2 ^ mantissaDigits
  exponent_le : exponent ≤ greatestExponent
  normal : exponent = 0 ∨ 2 ^ (mantissaDigits - 1) ≤ mantissa
  deriving DecidableEq

namespace Double

/-- The exponent of one with the mantissa one. -/
def unitExponent : Nat := 1074

/-- How many units of the least positive double make up one. -/
def unitsPerOne : Nat := 2 ^ unitExponent

/-- The magnitude, in units of the least positive double. -/
def magnitude (x : Double) : Nat := x.mantissa * 2 ^ x.exponent

/-- The value, in units of the least positive double. Both zeros have the value zero. -/
def units (x : Double) : Int := if x.negative then -(x.magnitude : Int) else x.magnitude

/-- Doubles are equal when their values are: zero equals negative zero. -/
instance : BEq Double := ⟨fun x y => x.units == y.units⟩

instance : LE Double := ⟨fun x y => x.units ≤ y.units⟩

instance : LT Double := ⟨fun x y => x.units < y.units⟩

instance (x y : Double) : Decidable (x ≤ y) := inferInstanceAs (Decidable (x.units ≤ y.units))

instance (x y : Double) : Decidable (x < y) := inferInstanceAs (Decidable (x.units < y.units))

/-- Zero, with a sign. -/
def zero (negative : Bool) : Double := ⟨negative, 0, 0, by decide, by decide, .inl rfl⟩

instance : Inhabited Double := ⟨zero false⟩

/-- The greatest whole number that is not above the double. -/
def floor (x : Double) : Int := x.units / (unitsPerOne : Int)

/-- The least whole number that is not below the double. -/
def ceil (x : Double) : Int := -(-x.units / (unitsPerOne : Int))

/-- The whole number of ones in the magnitude of the double. -/
def wholePart (x : Double) : Nat := x.magnitude / unitsPerOne

/-! ## Rounding to the nearest double -/

/-- The whole number nearest to a quotient, a half going to the even neighbour. -/
def roundQuotient (num den : Nat) : Nat :=
  let below := num / den
  let rest := num % den
  if 2 * rest < den then below
  else if den < 2 * rest then below + 1
  else if below % 2 = 0 then below else below + 1

/-- A rounded quotient is not below the quotient's whole part. -/
theorem div_le_roundQuotient (num den : Nat) : num / den ≤ roundQuotient num den := by
  simp only [roundQuotient]
  split
  · exact Nat.le_refl _
  · split
    · exact Nat.le_succ _
    · split
      · exact Nat.le_refl _
      · exact Nat.le_succ _

/-- How many binary digits of a whole number do not fit into a mantissa. -/
def excessBits (n : Nat) : Nat := n.log2 + 1 - mantissaDigits

/-- A magnitude with excess binary digits keeps a mantissa of full length. -/
theorem le_div_two_pow_excessBits {n : Nat} (h : excessBits n ≠ 0) :
    2 ^ (mantissaDigits - 1) ≤ n / 2 ^ excessBits n := by
  have hn : n ≠ 0 := by
    rintro rfl
    exact h (by decide)
  have hlog : n.log2 = excessBits n + (mantissaDigits - 1) := by
    unfold excessBits mantissaDigits at h ⊢
    omega
  refine (Nat.le_div_iff_mul_le (Nat.two_pow_pos _)).2 ?_
  calc 2 ^ (mantissaDigits - 1) * 2 ^ excessBits n = 2 ^ n.log2 := by
        rw [hlog, Nat.add_comm, Nat.pow_add]
    _ ≤ n := Nat.log2_self_le hn

/-- The double nearest to `num / den` units, or nothing if that is beyond the greatest double. -/
def ofUnits? (negative : Bool) (num den : Nat) : Option Double :=
  let shift := excessBits (num / den)
  let rounded := roundQuotient num (den * 2 ^ shift)
  if hfits : rounded < 2 ^ mantissaDigits then
    if hsmall : shift ≤ greatestExponent then
      some ⟨negative, rounded, shift, hfits, hsmall, by
        refine Decidable.or_iff_not_imp_left.2 fun hshift => ?_
        calc 2 ^ (mantissaDigits - 1) ≤ num / den / 2 ^ shift := le_div_two_pow_excessBits hshift
          _ = num / (den * 2 ^ shift) := Nat.div_div_eq_div_mul ..
          _ ≤ rounded := div_le_roundQuotient ..⟩
    else none
  else if hsmall : shift + 1 ≤ greatestExponent then
    some ⟨negative, 2 ^ (mantissaDigits - 1), shift + 1, by decide, hsmall, .inr (Nat.le_refl _)⟩
  else none

/-- The double nearest to `num / den`, or nothing if that is beyond the greatest double. -/
def ofQuotient? (negative : Bool) (num den : Nat) : Option Double :=
  ofUnits? negative (num * unitsPerOne) den

/-- The greatest finite double, with a sign. -/
def greatest (negative : Bool) : Double :=
  ⟨negative, 2 ^ mantissaDigits - 1, greatestExponent, by decide, by decide, .inr (by decide)⟩

/-- The double nearest to a whole number; one beyond the greatest double goes to that. -/
def ofInt (n : Int) : Double :=
  (ofQuotient? (n < 0) n.natAbs 1).getD (greatest (n < 0))

/-- The nearest double to a product. -/
def mul? (x y : Double) : Option Double :=
  ofUnits? (x.negative != y.negative) (x.magnitude * y.magnitude) unitsPerOne

/-- The nearest double to a quotient by a double that is not zero. -/
def div? (x y : Double) : Option Double :=
  ofUnits? (x.negative != y.negative) (x.magnitude * unitsPerOne) y.magnitude

end Double

end AbilityGraph
