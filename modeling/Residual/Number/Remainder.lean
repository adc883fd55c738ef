/-
The remainder of two doubles: what is left of the dividend after the divisor has been taken off a
whole number of times. It has the dividend's sign and is exact, since the remainder of two finite
doubles is always a double.
-/
import Residual.Number.Binary

namespace Residual.Number

/-- The remainder of `m · 2 ^ p` by `n · 2 ^ q`, as a multiple of the smaller power. -/
def remainderParts (m : Nat) (p : Int) (n : Nat) (q : Int) : Nat × Int :=
  let e := min p q
  (shift m (p - e) % shift n (q - e), e)

/-- The remainder with the sign of the dividend. There is none by zero, nor of an infinity; an
infinite divisor leaves the dividend as it is. -/
def remainder (a b : Float) : Float :=
  match parts a, parts b with
  | .nan, _ | _, .nan | .infinite _, _ => nan
  | .finite .., .infinite _ => a
  | .finite negative m p, .finite _ n q =>
    if n = 0 then nan
    else
      let (r, e) := remainderParts m p n q
      ofParts negative r e

end Residual.Number
