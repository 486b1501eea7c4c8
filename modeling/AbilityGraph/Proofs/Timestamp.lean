import AbilityGraph.Timestamp
import Mathlib.Tactic.SplitIfs

/-!
# Timestamps are read back

What is written for a timestamp is read as the same timestamp, in any year that a timestamp may have
and with any fraction of a second (`Timestamp.ofText?_text`). A number is written with a fixed width
wherever a fixed number of digits is read, and is followed by something else than a digit wherever
any number of them is read, so each part is read up to its end.
-/

set_option autoImplicit false

namespace AbilityGraph

open Power

/-- A digit is no blank. -/
theorem isBlank_of_isDigit {c : Char} (h : c.isDigit = true) : isBlank c = false := by
  have hbounds := Char.isDigit_iff_toNat.1 h
  simp only [Char.reduceToNat] at hbounds
  simp only [isBlank, Bool.or_eq_false_iff, Bool.and_eq_false_iff, decide_eq_false_iff_not,
    beq_eq_false_iff_ne]
  omega

namespace Timestamp

/-! ## Numbers -/

/-- A padded number is its digits after as many zeros as are missing. -/
theorem toList_padded (width n : Nat) : (padded width n).toList =
    List.replicate (width - (Nat.toDigits 10 n).length) '0' ++ Nat.toDigits 10 n := by
  have hpushn : ∀ count, ("".pushn '0' count).toList = List.replicate count '0' := by
    intro count
    rw [String.pushn_eq_repeat_push]
    induction count with
    | zero => rfl
    | succ count ih => rw [Nat.repeat, String.toList_push, ih, List.replicate_succ']
  rw [padded, String.toList_append, hpushn, ← String.length_toList, Nat.toList_repr]

/-- A padded number has digits only. -/
theorem isDigit_of_mem_padded {width n : Nat} {c : Char} (h : c ∈ (padded width n).toList) :
    c.isDigit = true := by
  rw [toList_padded, List.mem_append] at h
  obtain h | h := h
  · rw [List.eq_of_mem_replicate h]
    rfl
  · exact Nat.isDigit_of_mem_toDigits (by decide) (by decide) h

/-- A padded number denotes the number. -/
theorem ofDigitChars_padded (width n : Nat) :
    Nat.ofDigitChars 10 (padded width n).toList 0 = n := by
  rw [toList_padded, Nat.ofDigitChars_append, Nat.ofDigitChars_replicate_zero, Nat.mul_zero,
    Nat.ofDigitChars_ten_toDigits]

/-- A number that fits into a width is padded to just this width. -/
theorem length_padded {width n : Nat} (hwidth : 0 < width) (h : n < 10 ^ width) :
    (padded width n).toList.length = width := by
  have hle := (Nat.length_toDigits_le_iff (by decide) hwidth).2 h
  rw [toList_padded, List.length_append, List.length_replicate]
  omega

/-- A padded number begins with a digit. -/
theorem exists_padded (width n : Nat) :
    ∃ c rest, (padded width n).toList = c :: rest ∧ c.isDigit = true := by
  cases hdigits : (padded width n).toList with
  | nil =>
    have hpos : 0 < (Nat.toDigits 10 n).length := Nat.length_toDigits_pos
    have hlength := congrArg List.length hdigits
    rw [toList_padded, List.length_append, List.length_nil] at hlength
    omega
  | cons c rest => exact ⟨c, rest, rfl, isDigit_of_mem_padded (hdigits ▸ List.mem_cons_self)⟩

/-- Digits are taken up to the limit, or up to a character that is no digit. -/
theorem takeDigits_append {digits rest : List Char} {limit : Nat}
    (hdigits : ∀ c ∈ digits, c.isDigit = true) (hlimit : digits.length ≤ limit)
    (hstop : digits.length = limit ∨ ∀ c ∈ rest.head?, c.isDigit = false) :
    takeDigits limit (digits ++ rest) = (Nat.ofDigitChars 10 digits 0, digits.length, rest) := by
  induction digits generalizing limit with
  | nil =>
    cases limit with
    | zero => rfl
    | succ limit =>
      cases rest with
      | nil => rfl
      | cons c rest =>
        have hc : c.isDigit = false := by simpa using hstop
        show takeDigits (limit + 1) (c :: rest) = _
        rw [takeDigits, hc]
        rfl
  | cons c digits ih =>
    cases limit with
    | zero => cases hlimit
    | succ limit =>
      rw [List.forall_mem_cons] at hdigits
      rw [List.length_cons] at hlimit hstop
      have hrest := ih hdigits.2 (by omega) (hstop.imp_left Nat.succ.inj)
      -- The first digit counts for as many places as there are digits after it.
      have hvalue : Nat.ofDigitChars 10 (c :: digits) 0 =
          (c.toNat - '0'.toNat) * 10 ^ digits.length + Nat.ofDigitChars 10 digits 0 := by
        rw [Nat.ofDigitChars_cons, Nat.ofDigitChars_eq_ofDigitChars_zero, Nat.mul_zero,
          Nat.zero_add, Nat.mul_comm]
      rw [List.cons_append, takeDigits, if_pos hdigits.1, hrest, hvalue]
      rfl

/-- Taking digits gives a padded number back if they end with it, by the limit or by what
follows. -/
theorem takeDigits_padded {width n limit : Nat} {rest : List Char}
    (hlimit : (padded width n).toList.length ≤ limit)
    (hstop : (padded width n).toList.length = limit ∨ ∀ c ∈ rest.head?, c.isDigit = false) :
    takeDigits limit ((padded width n).toList ++ rest) =
      (n, (padded width n).toList.length, rest) := by
  rw [takeDigits_append (fun c hc => isDigit_of_mem_padded hc) hlimit hstop, ofDigitChars_padded]

/-- There are no blanks before a padded number. -/
theorem dropBlanks_padded (width n : Nat) (rest : List Char) :
    dropBlanks ((padded width n).toList ++ rest) = (padded width n).toList ++ rest := by
  obtain ⟨c, others, heq, hc⟩ := exists_padded width n
  rw [heq, dropBlanks, List.cons_append, List.dropWhile_cons_of_neg]
  simp [isBlank_of_isDigit hc]

/-- A number that is written with as many digits as are read is read back. -/
theorem number?_padded {limit n : Nat} (hlimit : 0 < limit) (h : n < 10 ^ limit)
    (rest : List Char) : number? limit ((padded limit n).toList ++ rest) = some (n, rest) := by
  have hlength := length_padded hlimit h
  rw [number?, dropBlanks_padded, takeDigits_padded (Nat.le_of_eq hlength) (.inl hlength), hlength]
  obtain ⟨count, rfl⟩ := Nat.exists_eq_add_one.2 hlimit
  rfl

/-! ## Parts -/

/-- A symbol other than a blank is found where it stands. -/
theorem symbol?_cons {c : Char} (h : isBlank c = false) (rest : List Char) :
    symbol? c (c :: rest) = some rest := by
  rw [symbol?, dropBlanks, List.dropWhile_cons_of_neg (by simp [h])]
  exact if_pos rfl

/-- After a sign, digits are taken up to the hyphen, however many there are. -/
theorem takeDigits_signed (n : Nat) (rest : List Char) :
    ∃ count, takeDigits ((padded 4 n).toList ++ '-' :: rest).length
      ((padded 4 n).toList ++ '-' :: rest) = (n, count + 1, '-' :: rest) := by
  have hlimit : (padded 4 n).toList.length ≤ ((padded 4 n).toList ++ '-' :: rest).length := by
    rw [List.length_append]
    omega
  obtain ⟨c, others, heq, -⟩ := exists_padded 4 n
  refine ⟨others.length, ?_⟩
  rw [takeDigits_padded hlimit (.inr (by simp)), heq, List.length_cons]

/-- A year with a minus is the negative of its digits, however many there are. -/
theorem year?_minus {rest after : List Char} {value count : Nat}
    (h : takeDigits rest.length rest = (value, count + 1, after)) :
    year? ('-' :: rest) = some (-(value : Int), after) := by
  have hdrop : dropBlanks ('-' :: rest) = '-' :: rest := rfl
  simp [year?, hdrop, h]

/-- A year with a plus is given by its digits, however many there are. -/
theorem year?_plus {rest after : List Char} {value count : Nat}
    (h : takeDigits rest.length rest = (value, count + 1, after)) :
    year? ('+' :: rest) = some ((value : Int), after) := by
  have hdrop : dropBlanks ('+' :: rest) = '+' :: rest := rfl
  simp [year?, hdrop, h]

/-- A year without a sign has four digits at most. -/
theorem year?_digits {c : Char} (hc : c.isDigit = true) (rest : List Char) :
    year? (c :: rest) =
      (number? 4 (c :: rest)).map fun (value, after) => ((value : Int), after) := by
  have hdrop : dropBlanks (c :: rest) = c :: rest :=
    List.dropWhile_cons_of_neg (by simp [isBlank_of_isDigit hc])
  rw [year?, hdrop]
  split
  next heq =>
    cases heq
    cases hc
  next heq =>
    cases heq
    cases hc
  next => rfl

/-- A year is read back from its text. -/
theorem year?_yearText (year : Int) (rest : List Char) :
    year? ((yearText year).toList ++ '-' :: rest) = some (year, '-' :: rest) := by
  unfold yearText
  split
  next hfour =>
    have hnumber : number? 4 ((padded 4 year.toNat).toList ++ '-' :: rest) =
        some (year.toNat, '-' :: rest) := number?_padded (by decide) (by omega) _
    obtain ⟨c, others, heq, hc⟩ := exists_padded 4 year.toNat
    rw [heq, List.cons_append] at hnumber ⊢
    have hyear : (year.toNat : Int) = year := Int.toNat_of_nonneg hfour.1
    rw [year?_digits hc, hnumber]
    show some ((year.toNat : Int), '-' :: rest) = _
    rw [hyear]
  next hmore =>
    obtain ⟨count, hdigits⟩ := takeDigits_signed year.natAbs rest
    rw [String.toList_append]
    split
    next hnegative =>
      have hyear : -(year.natAbs : Int) = year := by omega
      exact (year?_minus hdigits).trans (by rw [hyear])
    next hpositive =>
      have hyear : (year.natAbs : Int) = year := by omega
      exact (year?_plus hdigits).trans (by rw [hyear])

/-- Digits after a point are as many thousandths, millionths or billionths as there are digits. -/
theorem fraction?_padded {width n : Nat} (hwidth : 0 < width) (hle : width ≤ 9)
    (h : n < 10 ^ width) :
    fraction? ('.' :: ((padded width n).toList ++ ['Z'])) = some (n * 10 ^ (9 - width), ['Z']) := by
  have hlength := length_padded hwidth h
  have hlimit : (padded width n).toList.length ≤ 9 := by
    rw [hlength]
    exact hle
  have hstop : ∀ c ∈ ['Z'].head?, c.isDigit = false := by simp
  have hdigits := takeDigits_padded hlimit (.inr hstop)
  obtain ⟨count, rfl⟩ := Nat.exists_eq_add_one.2 hwidth
  rw [hlength] at hdigits
  simp [fraction?, hdigits]

/-- A fraction of a second is read back from its text. -/
theorem fraction?_fractionText {n : Nat} (h : n < 1000000000) :
    fraction? ((fractionText n).toList ++ ['Z']) = some (n, ['Z']) := by
  have hpoint : ∀ text : String, ("." ++ text).toList ++ ['Z'] = '.' :: (text.toList ++ ['Z']) := by
    intro text
    rw [String.toList_append]
    rfl
  unfold fractionText
  split
  next hzero =>
    rw [hzero]
    rfl
  next =>
    split
    next hmillis =>
      rw [hpoint, fraction?_padded (by decide) (by decide) (by omega)]
      congr 2
      omega
    next =>
      split
      next hmicros =>
        rw [hpoint, fraction?_padded (by decide) (by decide) (by omega)]
        congr 2
        omega
      next =>
        rw [hpoint, fraction?_padded (by decide) (by decide) h, Nat.sub_self, Nat.pow_zero,
          Nat.mul_one]

/-! ## Timestamps -/

/-- A date that exists, with a time on that day. -/
structure IsValid (t : Timestamp) : Prop where
  date : t.date.isValid = true
  hour : t.time.hour < 24
  minute : t.time.minute < 60
  second : t.time.second ≤ 60
  nanosecond : t.time.nanosecond < 1000000000

/-- A time of day in UTC stays on its day. -/
theorem atOffset_zero {t : Timestamp} (h : t.IsValid) : atOffset t.date t.time 0 = t := by
  obtain ⟨-, hhour, hminute, -, -⟩ := h
  obtain ⟨date, hour, minute, second, nanosecond⟩ := t
  dsimp only at hhour hminute
  have hstart : ¬(hour * 60 + minute - 0 : Int) < 0 := by omega
  have hend : (hour * 60 + minute - 0 : Int) < 1440 := by omega
  have hday : ((hour * 60 + minute - 0 : Int) % 1440).toNat = hour * 60 + minute := by omega
  have hhours : (hour * 60 + minute) / 60 = hour := by omega
  have hminutes : (hour * 60 + minute) % 60 = minute := by omega
  simp only [atOffset, if_neg hstart, if_pos hend, hday, hhours, hminutes]

/-- The text of a time is that of its year, month, day, hour, minute, second and fraction, with the
marks between them. -/
theorem toList_text (t : Timestamp) : t.text.toList =
    (yearText t.date.year).toList ++ '-' :: ((padded 2 t.date.month).toList ++ '-' ::
      ((padded 2 t.date.day).toList ++ 'T' :: ((padded 2 t.time.hour).toList ++ ':' ::
        ((padded 2 t.time.minute).toList ++ ':' :: ((padded 2 t.time.second).toList ++
          ((fractionText t.time.nanosecond).toList ++ ['Z'])))))) := by
  simp [text, String.toList_append]

/-- No month has more than 31 days. -/
theorem daysInMonth_le (year : Int) (month : Nat) : Date.daysInMonth year month ≤ 31 := by
  unfold Date.daysInMonth
  split_ifs <;> decide

/-- A timestamp is read back from its text. -/
theorem ofText?_text {t : Timestamp} (h : t.IsValid) : ofText? t.text = some t := by
  -- the month, the day and the parts of the time have two digits each
  have hdate := h.date
  simp only [Date.isValid, decide_eq_true_eq] at hdate
  obtain ⟨-, -, -, hmonth, -, hday⟩ := hdate
  have hdays := daysInMonth_le t.date.year t.date.month
  have hhour := h.hour
  have hminute := h.minute
  have hsecond := h.second
  have hdash : ∀ rest, symbol? '-' ('-' :: rest) = some rest := symbol?_cons rfl
  have hcolon : ∀ rest, symbol? ':' (':' :: rest) = some rest := symbol?_cons rfl
  have htwo : ∀ n rest, n < 100 → number? 2 ((padded 2 n).toList ++ rest) = some (n, rest) :=
    fun n rest hn => number?_padded (by decide) hn rest
  have hoffset : offset? (dropBlanks ['Z']) = some (0, []) := rfl
  have hutc : atOffset ⟨t.date.year, t.date.month, t.date.day⟩
      ⟨t.time.hour, t.time.minute, t.time.second, t.time.nanosecond⟩ 0 = t := atOffset_zero h
  have hend : dropBlanks [] = [] := rfl
  simp only [ofText?, toList_text, year?_yearText, Option.bind_eq_bind, Option.bind_some, hdash,
    hcolon, htwo t.date.month _ (by omega), htwo t.date.day _ (by omega),
    htwo t.time.hour _ (by omega), htwo t.time.minute _ (by omega),
    htwo t.time.second _ (by omega), fraction?_fractionText h.nanosecond, hoffset, hutc, hend]
  exact if_pos ⟨trivial, h.date, hhour, hminute, hsecond, h.date⟩

end Timestamp

end AbilityGraph
