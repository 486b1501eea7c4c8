/-!
# Repeated entries

The entries of a list that occur more than once, each once, in the order in which they are first
repeated.
-/

set_option autoImplicit false

namespace AbilityGraph

/-- The entries that are repeated within a list or after entries seen before it, each at its second
occurrence. -/
def repeatsAfter {α : Type} [BEq α] (seen : List α) : List α → List α
  | [] => []
  | x :: rest =>
    if seen.count x == 1 then x :: repeatsAfter (x :: seen) rest
    else repeatsAfter (x :: seen) rest

/-- The entries that occur more than once, in the order of their second occurrences. -/
def repeats {α : Type} [BEq α] (entries : List α) : List α := repeatsAfter [] entries

end AbilityGraph
