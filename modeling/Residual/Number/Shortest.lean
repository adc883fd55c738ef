/-
Decimal text of doubles. The digits are the fewest that read back as the same double, and of those
the nearest to it. A decimal reads back as `m · 2 ^ q` when it lies in the interval of reals that
round to it; the interval reaches half way to both neighbours, and contains its ends when `m` is
even. For each power of ten, from the value's own magnitude downwards, the two multiples of the
power around the value are tried; all comparisons are between natural numbers.
-/
import Residual.Number.Binary

namespace Residual.Number

/-! ## The rounding interval -/

/-- Powers of ten. -/
def tenPow (k : Nat) : Nat := Nat.pow 10 k

/-- Compares `c · 10 ^ p` with `b · 2 ^ e`. -/
def compareDecimal (c : Nat) (p : Int) (b : Nat) (e : Int) : Ordering :=
  compare (c * tenPow p.toNat * twoPow (-e).toNat) (b * twoPow e.toNat * tenPow (-p).toNat)

/-- Below a power of two the doubles lie closer, so the interval is narrower on that side. -/
def narrowBelow (m : Nat) (q : Int) : Bool := m == hiddenBit && decide (minExponent < q)

/-- Whether `c · 10 ^ p` reads back as `m · 2 ^ q`. -/
def readsBack (m : Nat) (q : Int) (c : Nat) (p : Int) : Bool :=
  let low := 4 * m - (if narrowBelow m q then 1 else 2)
  let high := 4 * m + 2
  let closed := m % 2 == 0
  let above := match compareDecimal c p low (q - 2) with
    | .gt => true
    | .eq => closed
    | .lt => false
  let below := match compareDecimal c p high (q - 2) with
    | .lt => true
    | .eq => closed
    | .gt => false
  above && below

/-! ## The search -/

/-- The greatest multiple of `10 ^ p` that is at most `m · 2 ^ q`, in units of `10 ^ p`. -/
def floorMultiple (m : Nat) (q p : Int) : Nat :=
  m * twoPow q.toNat * tenPow (-p).toNat / (twoPow (-q).toNat * tenPow p.toNat)

/-- The multiple of `10 ^ p` next to `m · 2 ^ q` that reads back as it: of two the nearer, and the
greater if they are equally near. -/
def pick (m : Nat) (q p : Int) : Option Nat :=
  let floor := floorMultiple m q p
  match readsBack m q floor p, readsBack m q (floor + 1) p with
  | true, true =>
    -- the point half way between the two decides
    some (if compareDecimal (2 * floor + 1) p (2 * m) q = .gt then floor else floor + 1)
  | true, false => some floor
  | false, true => some (floor + 1)
  | false, false => none

/-- Tries `fuel` powers of ten, from `10 ^ p` downwards. -/
def search (m : Nat) (q : Int) : Nat → Int → Option (Nat × Int)
  | 0, _ => none
  | fuel + 1, p =>
    match pick m q p with
    | some c => some (c, p)
    | none => search m q fuel (p - 1)

/-- A power of ten above `m · 2 ^ q`, by at most two. -/
def magnitude (m : Nat) (q : Int) : Int := (m.log2 + q + 1) * 30103 / 100000 + 1

/-- Digits and decimal exponent of the shortest decimal that reads back as `m · 2 ^ q`. Seventeen
digits always read back, so twenty powers are enough. -/
def shortest (m : Nat) (q : Int) : Nat × Int :=
  (search m q 20 (magnitude m q)).getD (floorMultiple m q 0, 0)

/-! ## Text -/

/-- `c · 10 ^ p` in positional notation. -/
def positional (c : Nat) (p : Int) : String :=
  let digits := Nat.toDigits 10 c
  if 0 ≤ p then String.ofList (digits ++ List.replicate p.toNat '0')
  else
    let places := (-p).toNat
    let padded := List.replicate (places + 1 - digits.length) '0' ++ digits
    let whole := padded.length - places
    String.ofList (padded.take whole ++ '.' :: padded.drop whole)

/-- A double as text: never with an exponent, with a point only before a fraction, and with a sign
only before negative values, negative zero among them. -/
def text (x : Float) : String :=
  let sign (negative : Bool) : String := if negative then "-" else ""
  match parts x with
  | .nan => "NaN"
  | .infinite negative => sign negative ++ "inf"
  | .finite negative 0 _ => sign negative ++ "0"
  | .finite negative m q =>
    let (c, p) := shortest m q
    sign negative ++ positional c p

end Residual.Number
