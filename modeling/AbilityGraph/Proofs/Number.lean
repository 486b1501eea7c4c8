import AbilityGraph.Json

/-!
# Numbers and whole numbers

A JSON number has an exact value, counted in units of the least positive double, and numbers are
ordered by it. A whole number that fits into a mantissa is a double itself (`Double.units_ofInt`). A
greater one is rounded, but not below any that fits. So up to a limit that fits, it makes no
difference whether the whole part of a number or that of its nearest double is taken
(`Number.min_floor_toDouble`).
-/

set_option autoImplicit false

namespace AbilityGraph

open Power

namespace Double

/-! ## Whole parts -/

/-- There are units in one. -/
theorem unitsPerOne_pos : 0 < (unitsPerOne : Int) := Int.natCast_pos.2 (Nat.two_pow_pos _)

/-- The whole part of a whole number is that number. -/
theorem mul_unitsPerOne_ediv (n : Int) : n * unitsPerOne / unitsPerOne = n :=
  Int.mul_ediv_cancel n (Int.ne_of_gt unitsPerOne_pos)

/-- A whole number is at most the floor of a double just if it is at most the double. -/
theorem le_floor_iff {n : Int} {x : Double} : n ≤ x.floor ↔ n * unitsPerOne ≤ x.units :=
  Int.le_ediv_iff_mul_le unitsPerOne_pos

/-- A whole number is at least the ceiling of a double just if it is at least the double. -/
theorem ceil_le_iff {n : Int} {x : Double} : x.ceil ≤ n ↔ x.units ≤ n * unitsPerOne := by
  have hneg : -n ≤ -x.units / unitsPerOne ↔ -n * unitsPerOne ≤ -x.units :=
    Int.le_ediv_iff_mul_le unitsPerOne_pos
  rw [Int.neg_mul, Int.neg_le_neg_iff] at hneg
  rw [← hneg, ceil]
  omega

/-- A greater double has a floor that is no smaller. -/
theorem floor_mono {x y : Double} (h : x ≤ y) : x.floor ≤ y.floor :=
  Int.ediv_le_ediv unitsPerOne_pos h

/-- The whole part of a double that is not negative is its floor. -/
theorem toNat_floor (x : Double) : x.floor.toNat = if x.negative then 0 else x.wholePart := by
  rw [floor, units]
  split
  · refine Int.toNat_of_nonpos (Int.ediv_nonpos_of_nonpos_of_neg ?_ unitsPerOne_pos)
    omega
  · rw [wholePart, ← Int.natCast_ediv, Int.toNat_natCast]

/-! ## Whole numbers as doubles -/

/-- A quotient that is a whole number is not rounded. -/
theorem roundQuotient_mul_right (n : Nat) {den : Nat} (hden : 0 < den) :
    roundQuotient (n * den) den = n := by
  have hbelow : n * den / den = n := Nat.mul_div_cancel _ hden
  have hrest : n * den % den = 0 := Nat.mul_mod_left _ _
  simp only [roundQuotient, hbelow, hrest]
  rw [if_pos (by omega)]

/-- Without its excess binary digits a magnitude fits into a mantissa. -/
theorem div_two_pow_excessBits_lt (n : Nat) : n / 2 ^ excessBits n < 2 ^ mantissaDigits := by
  rw [Nat.div_lt_iff_lt_mul (Nat.two_pow_pos _), ← Nat.pow_add]
  calc n < 2 ^ (n.log2 + 1) := Nat.lt_log2_self
    _ ≤ 2 ^ (mantissaDigits + excessBits n) := by
        apply Nat.pow_le_pow_right (by decide)
        unfold excessBits
        omega

/-- If a mantissa is shifted, then no more digits are in excess than it was shifted by. -/
theorem excessBits_mul_two_pow_le {m : Nat} (hm : m < 2 ^ mantissaDigits) (k : Nat) :
    excessBits (m * 2 ^ k) ≤ k := by
  unfold excessBits
  by_cases hzero : m * 2 ^ k = 0
  · rw [hzero, Nat.log2_zero]
    exact Nat.zero_le k
  · have hlog : (m * 2 ^ k).log2 < mantissaDigits + k := by
      rw [Nat.log2_lt hzero, Nat.pow_add]
      exact Nat.mul_lt_mul_of_pos_right hm (Nat.two_pow_pos k)
    omega

/-- A magnitude that is a mantissa times a power of two is that of a double. -/
theorem exists_ofUnits? (negative : Bool) {m k : Nat} (hm : m < 2 ^ mantissaDigits)
    (hk : k ≤ greatestExponent) : ∃ x, ofUnits? negative (m * 2 ^ k) 1 = some x ∧
      x.negative = negative ∧ x.magnitude = m * 2 ^ k := by
  have hshift := excessBits_mul_two_pow_le hm k
  have hlt := div_two_pow_excessBits_lt (m * 2 ^ k)
  generalize hs : excessBits (m * 2 ^ k) = shift at hshift hlt
  obtain ⟨rest, rfl⟩ := Nat.exists_eq_add_of_le hshift
  have hsplit : m * 2 ^ (shift + rest) = m * 2 ^ rest * 2 ^ shift := by
    rw [Nat.add_comm, Nat.pow_add, Nat.mul_assoc]
  have hfits : m * 2 ^ rest < 2 ^ mantissaDigits := by
    rwa [hsplit, Nat.mul_div_cancel _ (Nat.two_pow_pos shift)] at hlt
  have hrounded : roundQuotient (m * 2 ^ (shift + rest)) (1 * 2 ^ shift) = m * 2 ^ rest := by
    rw [Nat.one_mul, hsplit, roundQuotient_mul_right _ (Nat.two_pow_pos shift)]
  have hsmall : shift ≤ greatestExponent := Nat.le_trans hshift hk
  simp only [ofUnits?, Nat.div_one, hs, hrounded, dif_pos hfits, dif_pos hsmall]
  exact ⟨_, rfl, rfl, hsplit.symm⟩

/-- A magnitude with excess binary digits is not rounded below the least such magnitude with as many
digits. -/
theorem le_magnitude_of_ofUnits? {negative : Bool} {n : Nat} {x : Double}
    (h : ofUnits? negative n 1 = some x) (hexcess : excessBits n ≠ 0) :
    x.negative = negative ∧ 2 ^ (mantissaDigits - 1) * 2 ^ excessBits n ≤ x.magnitude := by
  have hfull := le_div_two_pow_excessBits hexcess
  have hbelow := div_le_roundQuotient n (1 * 2 ^ excessBits n)
  rw [Nat.one_mul] at hbelow
  simp only [ofUnits?, Nat.div_one, Nat.one_mul] at h
  split at h
  · split at h
    · cases h
      exact ⟨rfl, Nat.mul_le_mul_right _ (Nat.le_trans hfull hbelow)⟩
    · cases h
  · split at h
    · cases h
      refine ⟨rfl, Nat.mul_le_mul_left _ ?_⟩
      exact Nat.pow_le_pow_right (by decide) (Nat.le_succ _)
    · cases h

/-- A whole number that fits into a mantissa is a double. -/
theorem units_ofInt {n : Int} (h : n.natAbs < 2 ^ mantissaDigits) :
    (ofInt n).units = n * unitsPerOne := by
  obtain ⟨x, hx, hnegative, hmagnitude⟩ :=
    exists_ofUnits? (decide (n < 0)) (k := unitExponent) h (by decide)
  have hofInt : ofInt n = x := by
    rw [ofInt, ofQuotient?, unitsPerOne, hx, Option.getD_some]
  rw [hofInt, units, hnegative, hmagnitude]
  change (if decide (n < 0) = true then -((n.natAbs * unitsPerOne : Nat) : Int)
    else ((n.natAbs * unitsPerOne : Nat) : Int)) = n * unitsPerOne
  rw [Int.natCast_mul]
  by_cases hneg : n < 0
  · rw [if_pos (decide_eq_true hneg), ← Int.neg_mul]
    congr 1
    omega
  · rw [if_neg (by simpa using hneg)]
    congr 1
    omega

/-- A whole number that does not fit into a mantissa is rounded to a double that is no smaller than
those that do. -/
theorem le_magnitude_ofInt {n : Int} (h : 2 ^ mantissaDigits ≤ n.natAbs) :
    (ofInt n).negative = decide (n < 0) ∧
      2 ^ mantissaDigits * unitsPerOne ≤ (ofInt n).magnitude := by
  rw [ofInt, ofQuotient?]
  cases hx : ofUnits? (decide (n < 0)) (n.natAbs * unitsPerOne) 1 with
  | none =>
    -- A number beyond all doubles becomes the greatest of them.
    refine ⟨rfl, ?_⟩
    show 2 ^ mantissaDigits * unitsPerOne ≤ (2 ^ mantissaDigits - 1) * 2 ^ greatestExponent
    decide +kernel
  | some x =>
    have hunits : 2 ^ (mantissaDigits + unitExponent) ≤ n.natAbs * unitsPerOne := by
      rw [Nat.pow_add]
      exact Nat.mul_le_mul_right _ h
    have hpos : n.natAbs * unitsPerOne ≠ 0 :=
      Nat.ne_of_gt (Nat.lt_of_lt_of_le (Nat.two_pow_pos _) hunits)
    have hlog : mantissaDigits + unitExponent ≤ (n.natAbs * unitsPerOne).log2 :=
      (Nat.le_log2 hpos).2 hunits
    have hexcess : unitExponent + 1 ≤ excessBits (n.natAbs * unitsPerOne) := by
      unfold excessBits
      omega
    have hne : excessBits (n.natAbs * unitsPerOne) ≠ 0 := Nat.ne_of_gt (Nat.zero_lt_of_lt hexcess)
    obtain ⟨hnegative, hmagnitude⟩ := le_magnitude_of_ofUnits? hx hne
    generalize excessBits (n.natAbs * unitsPerOne) = shift at hexcess hmagnitude
    refine ⟨hnegative, Nat.le_trans ?_ hmagnitude⟩
    rw [unitsPerOne, ← Nat.pow_add, ← Nat.pow_add]
    apply Nat.pow_le_pow_right (by decide)
    unfold mantissaDigits
    omega

end Double

namespace Number

/-- The exact value, in units of the least positive double. -/
def units : Number → Int
  | integer n => n * Double.unitsPerOne
  | double x => x.units

/-- Numbers are ordered by their exact values, whether integers or doubles. -/
instance : LE Number := ⟨fun a b => a.units ≤ b.units⟩

instance (a b : Number) : Decidable (a ≤ b) := inferInstanceAs (Decidable (a.units ≤ b.units))

/-- The greatest whole number that is not above the number. -/
def floor : Number → Int
  | integer n => n
  | double x => x.floor

/-- The floor of a number is the whole part of its exact value. -/
theorem floor_eq (number : Number) : number.floor = number.units / Double.unitsPerOne := by
  cases number with
  | integer n => exact (Double.mul_unitsPerOne_ediv n).symm
  | double x => rfl

/-- A greater number has a floor that is no smaller, whether integer or double. -/
theorem floor_mono {a b : Number} (h : a ≤ b) : a.floor ≤ b.floor := by
  rw [floor_eq, floor_eq]
  exact Int.ediv_le_ediv Double.unitsPerOne_pos h

/-- A number whose value is a whole number that fits into a mantissa is its own nearest double. -/
theorem units_toDouble {number : Number} {n : Int} (hunits : number.units = n * Double.unitsPerOne)
    (hn : n.natAbs < 2 ^ mantissaDigits) : number.toDouble.units = n * Double.unitsPerOne := by
  cases number with
  | double x => exact hunits
  | integer m =>
    obtain rfl : m = n := Int.eq_of_mul_eq_mul_right (Int.ne_of_gt Double.unitsPerOne_pos) hunits
    exact Double.units_ofInt hn

/-- Up to a limit that fits into a mantissa, the whole part of a number is that of its nearest
double. -/
theorem min_floor_toDouble (number : Number) {limit : Nat} (hlimit : limit ≤ 2 ^ mantissaDigits) :
    min number.toDouble.floor.toNat limit = min number.floor.toNat limit := by
  cases number with
  | double x => rfl
  | integer n =>
    show min (Double.ofInt n).floor.toNat limit = min n.toNat limit
    by_cases hfits : n.natAbs < 2 ^ mantissaDigits
    · have hfloor : (Double.ofInt n).floor = n := by
        rw [Double.floor, Double.units_ofInt hfits, Double.mul_unitsPerOne_ediv]
      rw [hfloor]
    · -- Rounding moves a number that does not fit, but not below what fits, so both are cut to the
      -- limit, or to zero if they are negative.
      obtain ⟨hnegative, hmagnitude⟩ := Double.le_magnitude_ofInt (Nat.not_lt.1 hfits)
      by_cases hneg : n < 0
      · have hunits : (Double.ofInt n).units ≤ 0 := by
          rw [Double.units, hnegative, if_pos (decide_eq_true hneg)]
          omega
        have hfloor : (Double.ofInt n).floor ≤ 0 :=
          Int.ediv_nonpos_of_nonpos_of_neg hunits Double.unitsPerOne_pos
        rw [Int.toNat_of_nonpos hfloor, Int.toNat_of_nonpos (Int.le_of_lt hneg)]
      · have hfloor : ((2 ^ mantissaDigits : Nat) : Int) ≤ (Double.ofInt n).floor := by
          rw [Double.le_floor_iff, Double.units, hnegative, if_neg (by simpa using hneg),
            ← Int.natCast_mul]
          exact Int.ofNat_le.2 hmagnitude
        have hrounded : limit ≤ (Double.ofInt n).floor.toNat :=
          Nat.le_trans hlimit ((Int.le_toNat (Int.le_trans (Int.natCast_nonneg _) hfloor)).2 hfloor)
        have hexact : limit ≤ n.toNat := by
          have hnat : n.natAbs = n.toNat := by omega
          exact hnat ▸ Nat.le_trans hlimit (Nat.not_lt.1 hfits)
        rw [Nat.min_eq_right hrounded, Nat.min_eq_right hexact]

end Number

end AbilityGraph
