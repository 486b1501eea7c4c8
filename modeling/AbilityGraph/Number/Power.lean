/-!
# Powers of natural numbers

Exact numbers are stated by powers of two and of ten. `open Power` makes `m ^ n` of natural numbers
the power that core defines, wherever other powers are known as well.
-/

set_option autoImplicit false

namespace AbilityGraph

namespace Power

/-- Powers of natural numbers as core defines them, found before any others. -/
scoped instance (priority := high) natural : Pow Nat Nat := instPowNat

end Power

end AbilityGraph
