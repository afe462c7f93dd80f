/-!
# Words and bytes

A word is a 32-bit integer; it is stored as four bytes, the lowest first.
-/

set_option autoImplicit false

namespace MiniC.Word

/-- The number of bytes of a word. -/
def size : Nat := 4

/-- Byte `k` of a word, counted from the lowest. -/
def byte (v : Int32) (k : Nat) : UInt8 :=
  (v.toUInt32 >>> (8 * k).toUInt32).toUInt8

/-- The word with four given bytes, the lowest first. -/
def ofBytes (b₀ b₁ b₂ b₃ : UInt8) : Int32 :=
  (b₀.toUInt32 ||| b₁.toUInt32 <<< 8 ||| b₂.toUInt32 <<< 16 ||| b₃.toUInt32 <<< 24).toInt32

/-- A number that is not negative, as a natural number. -/
def toNat? (v : Int32) : Option Nat :=
  if 0 ≤ v.toInt then some v.toInt.toNat else none

end MiniC.Word
