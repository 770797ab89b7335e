import Earley.Number.Binary

/-!
# Number/Remainder — the remainder of a division that is cut off toward zero

The remainder of `x` by `y` is what is left of `x` when the largest whole multiple of `y` that is
not further from zero is taken away.  It has the sign of `x` and is itself a floating-point number,
so that nothing is rounded.
-/

namespace Earley.Number

/-- **The remainder** of `x` by `y`; it is not a number where the division by `y` makes no sense. -/
def remainder (x y : Float) : Float :=
  match Parts.ofFloat x, Parts.ofFloat y with
  | .finite negative m p, .finite _ n q =>
    if n = 0 then 0.0 / 0.0
    else
      let low := min p q
      let rest := (m * Nat.pow 2 (p - low).toNat) % (n * Nat.pow 2 (q - low).toNat)
      let size := (Float.ofNat rest).scaleB low
      if negative then -size else size
  | .finite _ _ _, .infinite _ => x
  | _, _ => 0.0 / 0.0

end Earley.Number
