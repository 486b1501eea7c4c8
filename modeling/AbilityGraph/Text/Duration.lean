/-!
# The text of a span of time

A span of time is shown in the largest of the units s, ms, µs and ns of which it holds at least one,
with the rest as a decimal fraction that has no zeros at its end.
-/

set_option autoImplicit false

namespace AbilityGraph

/-- A fraction of so many digits, without zeros at its end; nothing if it is zero. -/
def trimmedFraction (digits n : Nat) : String :=
  let shown := Nat.repr n
  let padded := "".pushn '0' (digits - shown.length) ++ shown
  let kept := (padded.toList.reverse.dropWhile (· == '0')).reverse
  if kept.isEmpty then "" else "." ++ String.ofList kept

/-- The text of a span of time, which is given in nanoseconds. -/
def durationText (nanoseconds : Nat) : String :=
  let shown (size digits : Nat) (unit : String) : String :=
    Nat.repr (nanoseconds / size) ++ trimmedFraction digits (nanoseconds % size) ++ unit
  if 1000000000 ≤ nanoseconds then shown 1000000000 9 "s"
  else if 1000000 ≤ nanoseconds then shown 1000000 6 "ms"
  else if 1000 ≤ nanoseconds then shown 1000 3 "µs"
  else shown 1 0 "ns"

end AbilityGraph
