/-
Unquoted values of the configuration format: booleans, integers, and numbers and dates that are
recognised but carry no value of interest.
-/
import Residual.Number.Shortest

namespace Residual.Toml

/-- A value. No setting is a float, a string, a date or an array, so their contents are dropped. -/
inductive Value where
  | boolean (b : Bool)
  | integer (n : Int)
  | other
  deriving Repr, DecidableEq, Inhabited

/-! ## Integers -/

/-- The value of a digit in bases up to sixteen. -/
def digitValue? (c : Char) : Option Nat :=
  if c.isDigit then some (c.toNat - 48)
  else if 97 ≤ c.toNat && c.toNat ≤ 102 then some (c.toNat - 87)
  else if 65 ≤ c.toNat && c.toNat ≤ 70 then some (c.toNat - 55)
  else none

/-- The digits of a number in a base; single underscores may stand between digits. -/
def digits? (base : Nat) (cs : List Char) : Option (List Nat) := do
  let groups := (String.ofList cs).splitOn "_"
  guard (groups.all (· ≠ ""))
  let digits ← (cs.filter (· ≠ '_')).mapM digitValue?
  guard (digits.all (· < base))
  return digits

def valueOfDigits (base : Nat) (digits : List Nat) : Nat :=
  digits.foldl (fun n d => n * base + d) 0

/-- A number in base ten, without leading zeros. -/
def decimal? (cs : List Char) : Option Nat := do
  let digits ← digits? 10 cs
  guard (digits.length = 1 || digits.head? ≠ some 0)
  return valueOfDigits 10 digits

/-- An integer: with an optional sign in base ten, without one in base sixteen, eight or two. -/
def integer? : List Char → Option Int
  | '0' :: 'x' :: cs => (digits? 16 cs).map (valueOfDigits 16 ·)
  | '0' :: 'o' :: cs => (digits? 8 cs).map (valueOfDigits 8 ·)
  | '0' :: 'b' :: cs => (digits? 2 cs).map (valueOfDigits 2 ·)
  | '+' :: cs => (decimal? cs).map (·)
  | '-' :: cs => (decimal? cs).map fun n => -(n : Int)
  | cs => (decimal? cs).map (·)

/-- Integers beyond 128 bits, with a sign or without one, are refused wherever they stand. -/
def isStorable (n : Int) : Bool :=
  -170141183460469231731687303715884105728 ≤ n && n ≤ 340282366920938463463374607431768211455

/-! ## Floats -/

def withoutSign : List Char → List Char
  | '+' :: cs => cs
  | '-' :: cs => cs
  | cs => cs

/-- The parts of a decimal number: the digits as one number, and a power of ten. -/
structure Decimal where
  digits : Nat
  exponent : Int

/-- Whether a decimal number is too large for a binary one of 64 bits. Numbers of clearly more or
fewer than 308 digits need no comparison. -/
def Decimal.overflows (d : Decimal) : Bool :=
  let length : Int := (Nat.toDigits 10 d.digits).length
  if d.digits = 0 || length + d.exponent < 300 then false
  else if 400 < length + d.exponent then true
  else
    -- The least number that is rounded to an infinite one.
    let limit := Number.twoPow 1024 - Number.twoPow 970
    limit * Number.tenPow (-d.exponent).toNat ≤ d.digits * Number.tenPow d.exponent.toNat

/-- The digits of an exponent with its sign, or of none. -/
def exponent? : List Char → Option Int
  | [] => some 0
  | _ :: '-' :: cs => (digits? 10 cs).map fun ds => -(valueOfDigits 10 ds : Int)
  | _ :: cs => (digits? 10 (withoutSign cs)).map (valueOfDigits 10 ·)

/-- A float in digits has a fraction, an exponent or both. -/
def float? (cs : List Char) : Option Decimal := do
  let (mantissa, exponent) := (withoutSign cs).span fun c => c ≠ 'e' && c ≠ 'E'
  let (whole, fraction) := mantissa.span (· ≠ '.')
  guard !(fraction.isEmpty && exponent.isEmpty)
  let _ ← decimal? whole
  let wholeDigits ← digits? 10 whole
  let fractionDigits ← if fraction.isEmpty then some [] else digits? 10 fraction.tail
  let power ← exponent? exponent
  return ⟨valueOfDigits 10 (wholeDigits ++ fractionDigits), power - fractionDigits.length⟩

/-- Whether a text is a float: in digits and not too large, `inf`, or `nan`. -/
def isFloat (cs : List Char) : Bool :=
  let body := withoutSign cs
  body == ['i', 'n', 'f'] || body == ['n', 'a', 'n'] || (float? cs).any (!·.overflows)

/-! ## Dates and times -/

/-- A two-digit field in a range. -/
def isField (lo hi : Nat) (a b : Char) : Bool :=
  a.isDigit && b.isDigit && (let n := (a.toNat - 48) * 10 + (b.toNat - 48); lo ≤ n && n ≤ hi)

/-- The rest after a fraction of a second, if there is one. -/
def afterFraction? : List Char → Option (List Char)
  | '.' :: cs => if cs.head?.any Char.isDigit then some (cs.dropWhile Char.isDigit) else none
  | cs => some cs

/-- The rest after `hh:mm`, or `hh:mm:ss` with an optional fraction. -/
def afterTime? : List Char → Option (List Char)
  | h1 :: h2 :: ':' :: m1 :: m2 :: rest => do
    guard (isField 0 23 h1 h2 && isField 0 59 m1 m2)
    match rest with
    | ':' :: s1 :: s2 :: rest =>
      guard (isField 0 60 s1 s2)
      afterFraction? rest
    | rest => return rest
  | _ => none

/-- The number of days of a month. -/
def monthLength (year month : Nat) : Nat :=
  match month with
  | 2 => if year % 4 == 0 && (year % 100 != 0 || year % 400 == 0) then 29 else 28
  | 4 | 6 | 9 | 11 => 30
  | _ => 31

/-- The number that consists of the given digits, which may start with zeros. -/
def padded? (cs : List Char) : Option Nat := do
  guard (cs.all Char.isDigit)
  return valueOfDigits 10 (cs.filterMap digitValue?)

/-- The rest after `yyyy-mm-dd`. -/
def afterDate? : List Char → Option (List Char)
  | y1 :: y2 :: y3 :: y4 :: '-' :: m1 :: m2 :: '-' :: d1 :: d2 :: rest => do
    let year ← padded? [y1, y2, y3, y4]
    let month ← padded? [m1, m2]
    guard (1 ≤ month && month ≤ 12 && isField 1 (monthLength year month) d1 d2)
    return rest
  | _ => none

def isOffset : List Char → Bool
  | [] | ['Z'] | ['z'] => true
  | [s, h1, h2, ':', m1, m2] => (s == '+' || s == '-') && isField 0 23 h1 h2 && isField 0 59 m1 m2
  | _ => false

/-- A date, a time, or both with an optional offset. -/
def isDateTime (cs : List Char) : Bool :=
  match afterDate? cs with
  | some [] => true
  | some (sep :: time) => (sep == 'T' || sep == 't' || sep == ' ') && (afterTime? time).any isOffset
  | none => afterTime? cs == some []

/-! ## Scalars -/

/-- The characters of unquoted values. -/
def isScalarChar (c : Char) : Bool :=
  c.isAlphanum || c == '_' || c == '+' || c == '-' || c == '.' || c == ':'

/-- An unquoted value and the rest. A blank may stand between a date and a time. -/
def scalarText (cs : List Char) : List Char × List Char :=
  let (token, rest) := cs.span isScalarChar
  match afterDate? token, rest with
  | some [], ' ' :: d :: more =>
    if d.isDigit then
      let (time, rest) := (d :: more).span isScalarChar
      (token ++ ' ' :: time, rest)
    else (token, rest)
  | _, _ => (token, rest)

def scalar? (token : List Char) : Option Value :=
  if token = "true".toList then some (.boolean true)
  else if token = "false".toList then some (.boolean false)
  else
    match integer? token with
    | some n => if isStorable n then some (.integer n) else none
    | none => if isFloat token || isDateTime token then some .other else none

end Residual.Toml
