import AbilityGraph.Number.Power
import AbilityGraph.Text.Blank

/-!
# Timestamps

The time at which an edge was made, to the nanosecond, as a date and a time of day in UTC. A second
may be a leap second, and then it is written as second 60.

Timestamps are written in the form of RFC 3339, with as many fractional digits (none, three, six or
nine) as are needed. They are read in a wider form: blanks may stand before and between the parts,
years may have a sign and then any number of digits, the date and the time are parted by `T` or a
blank, further digits of a fraction are dropped, and the offset is `Z`, `UTC` or hours and minutes.
-/

set_option autoImplicit false

namespace AbilityGraph

open Power

/-- A date of the Gregorian calendar. -/
structure Date where
  year : Int
  month : Nat
  day : Nat
  deriving DecidableEq, Inhabited

namespace Date

/-- Whether a year has a leap day. -/
def isLeapYear (year : Int) : Bool := year % 4 = 0 ∧ (year % 100 ≠ 0 ∨ year % 400 = 0)

/-- The number of days of a month. -/
def daysInMonth (year : Int) (month : Nat) : Nat :=
  if month = 2 then if isLeapYear year then 29 else 28
  else if month = 4 ∨ month = 6 ∨ month = 9 ∨ month = 11 then 30
  else 31

/-- Whether a date exists and lies within the years that timestamps may have. -/
def isValid (date : Date) : Bool :=
  -262143 ≤ date.year ∧ date.year ≤ 262142 ∧ 1 ≤ date.month ∧ date.month ≤ 12
    ∧ 1 ≤ date.day ∧ date.day ≤ daysInMonth date.year date.month

/-- The day after. -/
def next (date : Date) : Date :=
  if date.day < daysInMonth date.year date.month then { date with day := date.day + 1 }
  else if date.month < 12 then ⟨date.year, date.month + 1, 1⟩
  else ⟨date.year + 1, 1, 1⟩

/-- The day before. -/
def previous (date : Date) : Date :=
  if 1 < date.day then { date with day := date.day - 1 }
  else if 1 < date.month then
    ⟨date.year, date.month - 1, daysInMonth date.year (date.month - 1)⟩
  else ⟨date.year - 1, 12, 31⟩

end Date

/-- A time of day; the second may be 60. -/
structure TimeOfDay where
  hour : Nat
  minute : Nat
  second : Nat
  nanosecond : Nat
  deriving DecidableEq, Inhabited

/-- A date and a time of day in UTC. -/
structure Timestamp where
  date : Date
  time : TimeOfDay
  deriving DecidableEq, Inhabited

namespace Timestamp

/-! ## Writing -/

/-- A number with zeros in front up to a width. -/
def padded (width n : Nat) : String :=
  let digits := Nat.repr n
  "".pushn '0' (width - digits.length) ++ digits

/-- A year: four digits, and outside of four digits a sign in front. -/
def yearText (year : Int) : String :=
  if 0 ≤ year ∧ year ≤ 9999 then padded 4 year.toNat
  else (if year < 0 then "-" else "+") ++ padded 4 year.natAbs

/-- The fraction of a second: none, or a point and three, six or nine digits. -/
def fractionText (nanosecond : Nat) : String :=
  if nanosecond = 0 then ""
  else if nanosecond % 1000000 = 0 then "." ++ padded 3 (nanosecond / 1000000)
  else if nanosecond % 1000 = 0 then "." ++ padded 6 (nanosecond / 1000)
  else "." ++ padded 9 nanosecond

def text (t : Timestamp) : String :=
  yearText t.date.year ++ "-" ++ padded 2 t.date.month ++ "-" ++ padded 2 t.date.day ++ "T"
    ++ padded 2 t.time.hour ++ ":" ++ padded 2 t.time.minute ++ ":" ++ padded 2 t.time.second
    ++ fractionText t.time.nanosecond ++ "Z"

/-! ## Reading -/

/-- The value of up to a number of digits at the start of a text, how many digits there were, and
the rest of the text. -/
def takeDigits : Nat → List Char → Nat × Nat × List Char
  | 0, text => (0, 0, text)
  | limit + 1, c :: rest =>
    if c.isDigit then
      let (value, count, after) := takeDigits limit rest
      ((c.toNat - '0'.toNat) * 10 ^ count + value, count + 1, after)
    else (0, 0, c :: rest)
  | _ + 1, [] => (0, 0, [])

/-- A number of at least one and at most `limit` digits, after blanks. -/
def number? (limit : Nat) (text : List Char) : Option (Nat × List Char) :=
  match takeDigits limit (dropBlanks text) with
  | (_, 0, _) => none
  | (value, _, rest) => some (value, rest)

/-- A year: up to four digits, or a sign and any number of digits. -/
def year? (text : List Char) : Option (Int × List Char) :=
  match dropBlanks text with
  | '-' :: rest =>
    match takeDigits rest.length rest with
    | (_, 0, _) => none
    | (value, _, after) => some (-(value : Int), after)
  | '+' :: rest =>
    match takeDigits rest.length rest with
    | (_, 0, _) => none
    | (value, _, after) => some ((value : Int), after)
  | rest => (number? 4 rest).map fun (value, after) => ((value : Int), after)

/-- The rest of a text after a character, which blanks may precede. -/
def symbol? (c : Char) (text : List Char) : Option (List Char) :=
  match dropBlanks text with
  | first :: rest => if first = c then some rest else none
  | [] => none

/-- A fraction of a second in nanoseconds, if there is one; digits after the ninth are dropped. -/
def fraction? : List Char → Option (Nat × List Char)
  | '.' :: rest =>
    match takeDigits 9 rest with
    | (_, 0, _) => none
    | (value, count, after) => some (value * 10 ^ (9 - count), after.dropWhile Char.isDigit)
  | rest => some (0, rest)

/-- The value of two digits. -/
def twoDigits? : List Char → Option (Nat × List Char)
  | a :: b :: rest =>
    if a.isDigit ∧ b.isDigit then
      some ((a.toNat - '0'.toNat) * 10 + (b.toNat - '0'.toNat), rest)
    else none
  | _ => none

/-- The sign of an offset; a minus may be the hyphen or the minus sign. -/
def offsetSign? : List Char → Option (Int × List Char)
  | '+' :: rest => some (1, rest)
  | '-' :: rest => some (-1, rest)
  | '\u2212' :: rest => some (-1, rest)
  | _ => none

/-- An offset from UTC in minutes. -/
def offset? (text : List Char) : Option (Int × List Char) :=
  match text with
  | 'Z' :: rest => some (0, rest)
  | 'z' :: rest => some (0, rest)
  | _ =>
    if (text.take 3).map Char.toUpper = ['U', 'T', 'C'] then some (0, text.drop 3) else do
      let (sign, rest) ← offsetSign? text
      let (hours, rest) ← twoDigits? rest
      let (minutes, rest) ← twoDigits? (rest.dropWhile fun c => c == ':' || isBlank c)
      if minutes < 60 ∧ hours < 24 then some (sign * (hours * 60 + minutes : Nat), rest) else none

/-- A date and a time of day at an offset from UTC, brought to UTC. -/
def atOffset (date : Date) (time : TimeOfDay) (offset : Int) : Timestamp :=
  let minutes : Int := time.hour * 60 + time.minute - offset
  let date := if minutes < 0 then date.previous else if minutes < 1440 then date else date.next
  let inDay := (minutes % 1440).toNat
  ⟨date, { time with hour := inDay / 60, minute := inDay % 60 }⟩

/-- Reads a timestamp. -/
def ofText? (text : String) : Option Timestamp := do
  let (year, rest) ← year? text.toList
  let (month, rest) ← symbol? '-' rest >>= number? 2
  let (day, rest) ← symbol? '-' rest >>= number? 2
  let rest ← match rest with
    | 'T' :: rest => some rest
    | 't' :: rest => some rest
    | ' ' :: rest => some rest
    | _ => none
  let (hour, rest) ← number? 2 rest
  let (minute, rest) ← symbol? ':' rest >>= number? 2
  let (second, rest) ← symbol? ':' rest >>= number? 2
  let (nanosecond, rest) ← fraction? rest
  let (offset, rest) ← offset? (dropBlanks rest)
  let date : Date := ⟨year, month, day⟩
  let result := atOffset date ⟨hour, minute, second, nanosecond⟩ offset
  if dropBlanks rest = [] ∧ date.isValid ∧ hour < 24 ∧ minute < 60 ∧ second ≤ 60
      ∧ result.date.isValid then
    some result
  else none

end Timestamp

end AbilityGraph
