/-
The parts of a double: sign, mantissa and binary exponent, read from its bits and put together
again. A finite double is its mantissa times a power of two; arithmetic on the parts is exact.
-/
namespace Residual.Number

/-- What the bits of a double stand for; a finite one is `mantissa · 2 ^ exponent`. -/
inductive Parts where
  | nan
  | infinite (negative : Bool)
  | finite (negative : Bool) (mantissa : Nat) (exponent : Int)
  deriving Repr, DecidableEq

/-- Powers of two. -/
def twoPow (k : Nat) : Nat := Nat.pow 2 k

/-- The least exponent of a finite double. -/
def minExponent : Int := -1074

/-- The mantissa of a power of two in the normal range. -/
def hiddenBit : Nat := twoPow 52

/-- Reads sign, exponent field and fraction field. -/
def partsOfBits (bits : Nat) : Parts :=
  let negative := bits / twoPow 63 % 2 == 1
  let field : Nat := bits / hiddenBit % 2048
  let fraction := bits % hiddenBit
  if field = 2047 then
    if fraction = 0 then .infinite negative else .nan
  else if field = 0 then .finite negative fraction minExponent
  else .finite negative (fraction + hiddenBit) ((field : Int) + minExponent - 1)

def parts (x : Float) : Parts := partsOfBits x.toBits.toNat

/-- `n · 2 ^ k`, rounded down when `k` is negative. -/
def shift (n : Nat) (k : Int) : Nat :=
  if 0 ≤ k then n * twoPow k.toNat else n / twoPow (-k).toNat

/-- The bits of `mantissa · 2 ^ exponent`, for a value that a double can hold exactly. -/
def bitsOfParts (negative : Bool) (mantissa : Nat) (exponent : Int) : Nat :=
  let sign := if negative then twoPow 63 else 0
  if mantissa = 0 then sign
  else
    let top := (mantissa.log2 : Int) + exponent
    if top < minExponent + 52 then sign + shift mantissa (exponent - minExponent)
    else
      let fraction := shift mantissa (52 - mantissa.log2) - hiddenBit
      sign + (top - minExponent - 51).toNat * hiddenBit + fraction

/-- The double `± mantissa · 2 ^ exponent`, for a value that a double can hold exactly. -/
def ofParts (negative : Bool) (mantissa : Nat) (exponent : Int) : Float :=
  Float.ofBits (UInt64.ofNat (bitsOfParts negative mantissa exponent))

/-- The double that is no number. -/
def nan : Float := Float.ofBits 0x7ff8000000000000

end Residual.Number
