/-!
# Random ids

An id made of sixteen random bytes: 32 hexadecimal digits in groups of 8, 4, 4, 4 and 12. Of the
bits, four say that the id is of version 4, the random one, and two say which layout it has.
-/

set_option autoImplicit false

namespace AbilityGraph

/-- The two hexadecimal digits of a byte. -/
def hexByte (byte : UInt8) : List Char :=
  [Nat.digitChar (byte.toNat / 16), Nat.digitChar (byte.toNat % 16)]

/-- A byte of a random id, by its place: the seventh holds the version and the ninth the layout. -/
def markByte (place : Nat) (byte : UInt8) : UInt8 :=
  if place = 6 then byte % 16 + 0x40
  else if place = 8 then byte % 64 + 0x80
  else byte

/-- The id of sixteen random bytes. -/
def randomId (bytes : List UInt8) : String :=
  String.ofList (bytes.zipIdx.flatMap fun (byte, place) =>
    let digits := hexByte (markByte place byte)
    if place = 4 ∨ place = 6 ∨ place = 8 ∨ place = 10 then '-' :: digits else digits)

end AbilityGraph
