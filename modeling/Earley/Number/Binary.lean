/-!
# Number/Binary — floating-point numbers as whole multiples of powers of two

A finite number is a sign, a significand below 2⁵³ and a power of two.  What has to be exact, such
as the decimal text of a number or the remainder of a division, is worked out on these whole
numbers.
-/

namespace Earley.Number

/-- A number taken apart. -/
inductive Parts where
  | nan
  | infinite (negative : Bool)
  /-- The number `significand * 2 ^ exponent`, or its negative. -/
  | finite (negative : Bool) (significand : Nat) (exponent : Int)
  deriving DecidableEq

/-- The parts of a number: one bit for the sign, eleven for the exponent and 52 for the
significand, which has a leading one unless the number is very small. -/
def Parts.ofFloat (x : Float) : Parts :=
  let bits := x.toBits.toNat
  let negative := bits / Nat.pow 2 63 == 1
  let exponent : Nat := bits / Nat.pow 2 52 % Nat.pow 2 11
  let fraction := bits % Nat.pow 2 52
  if exponent = 2047 then (if fraction = 0 then infinite negative else nan)
  else if exponent = 0 then finite negative fraction (-1074)
  else finite negative (Nat.pow 2 52 + fraction) (Int.ofNat exponent - 1075)

/-- The numerator and the denominator of `value * 2 ^ exponent`. -/
def fraction (value : Nat) (exponent : Int) : Nat × Nat :=
  if 0 ≤ exponent then (value * Nat.pow 2 exponent.toNat, 1)
  else (value, Nat.pow 2 (-exponent).toNat)

end Earley.Number
