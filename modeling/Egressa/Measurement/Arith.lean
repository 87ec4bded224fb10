import Mathlib

/-!
# The arithmetic of measurements

The code is modelled over any type with the operations it uses, so that what is proved without laws of arithmetic
holds however results are rounded.  The binary64 numbers are one such type.
-/

namespace Egressa.Measurement

/-- The operations on numbers the code uses; the comparisons answer `false` when one side is not a
number. -/
class Arith (F : Type) extends Zero F, One F, Add F, Sub F, Mul F, Div F, Neg F where
  /-- `math.Inf(1)`. -/
  inf : F
  sqrt : F → F
  log : F → F
  ofUInt64 : UInt64 → F
  lt : F → F → Bool
  le : F → F → Bool
  eq : F → F → Bool

/-- The logarithm of a binary64 number.  `Float.log` cannot be unfolded, so its value at 1, all that a path without
losses needs, is written out. -/
def logFloat (x : Float) : Float := if x == 1 then 0 else Float.log x

instance : Arith Float where
  zero := 0
  one := 1
  inf := 1 / 0
  sqrt := Float.sqrt
  log := logFloat
  ofUInt64 := UInt64.toFloat
  lt x y := decide (x < y)
  le x y := decide (x ≤ y)
  eq x y := x == y

variable {F : Type} [Arith F]

def isPosInf (x : F) : Bool := Arith.eq x Arith.inf

def isNegInf (x : F) : Bool := Arith.eq x (-Arith.inf)

end Egressa.Measurement
