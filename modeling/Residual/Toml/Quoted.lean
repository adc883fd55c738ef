/-
Quoted text of the configuration format. Text in double quotes has escapes, text in single quotes
has none; three quotes in a row open text that runs over several lines.
-/
import Residual.Toml.Scalar

namespace Residual.Toml

/-- Characters that may stand in text and comments: no controls but the tab. -/
def isPlain (c : Char) : Bool := c == '\t' || (32 ≤ c.toNat && c.toNat ≠ 127)

/-- The character with the given hexadecimal digits. -/
def codePoint? (cs : List Char) : Option Char := do
  let digits ← cs.mapM digitValue?
  let n := valueOfDigits 16 digits
  guard n.isValidChar
  return Char.ofNat n

/-- The character behind a backslash, for escapes of one character. -/
def escaped? : Char → Option Char
  | 'b' => some '\x08'
  | 't' => some '\t'
  | 'n' => some '\n'
  | 'f' => some '\x0c'
  | 'r' => some '\r'
  | 'e' => some '\x1b'
  | '"' => some '"'
  | '\\' => some '\\'
  | _ => none

/-- Text up to the closing double quote, and what comes behind it. -/
def basic? : List Char → Option (List Char × List Char)
  | [] => none
  | '"' :: rest => some ([], rest)
  | '\\' :: 'x' :: a :: b :: rest => do
    let ch ← codePoint? [a, b]
    let (text, rest) ← basic? rest
    return (ch :: text, rest)
  | '\\' :: 'u' :: a :: b :: c :: d :: rest => do
    let ch ← codePoint? [a, b, c, d]
    let (text, rest) ← basic? rest
    return (ch :: text, rest)
  | '\\' :: 'U' :: a :: b :: c :: d :: e :: f :: g :: h :: rest => do
    let ch ← codePoint? [a, b, c, d, e, f, g, h]
    let (text, rest) ← basic? rest
    return (ch :: text, rest)
  | '\\' :: c :: rest => do
    let ch ← escaped? c
    let (text, rest) ← basic? rest
    return (ch :: text, rest)
  | c :: rest => do
    guard (isPlain c && c ≠ '\\')
    let (text, rest) ← basic? rest
    return (c :: text, rest)

/-- Text up to the closing single quote, and what comes behind it. -/
def literal? (cs : List Char) : Option (List Char × List Char) := do
  let (text, rest) := cs.span (· ≠ '\x27')
  guard (text.all isPlain && !rest.isEmpty)
  return (text, rest.tail)

/-- At most two more quotes belong to the text that three quotes close. -/
def dropTwo (quote : Char) : List Char → List Char
  | a :: b :: rest => if a = quote then (if b = quote then rest else b :: rest) else a :: b :: rest
  | [a] => if a = quote then [] else [a]
  | [] => []

/-- Whether nothing but blanks comes before the next line break. -/
def endsLine (cs : List Char) : Bool :=
  match cs.dropWhile fun c => c == ' ' || c == '\t' with
  | '\n' :: _ | '\r' :: '\n' :: _ => true
  | _ => false

/-- What comes behind text in three double quotes. A backslash at the end of a line joins it with
the next one. -/
def multilineBasic? : List Char → Option (List Char)
  | [] => none
  | '\\' :: 'x' :: a :: b :: rest =>
    if (codePoint? [a, b]).isSome then multilineBasic? rest else none
  | '\\' :: 'u' :: a :: b :: c :: d :: rest =>
    if (codePoint? [a, b, c, d]).isSome then multilineBasic? rest else none
  | '\\' :: 'U' :: a :: b :: c :: d :: e :: f :: g :: h :: rest =>
    if (codePoint? [a, b, c, d, e, f, g, h]).isSome then multilineBasic? rest else none
  | '\\' :: c :: rest =>
    if (escaped? c).isSome || endsLine (c :: rest) then multilineBasic? rest else none
  | '\r' :: '\n' :: rest => multilineBasic? rest
  | c :: rest =>
    if c = '"' && rest.take 2 == ['"', '"'] then some (dropTwo '"' (rest.drop 2))
    else if (isPlain c && c ≠ '\\') || c = '\n' then multilineBasic? rest
    else none

/-- What comes behind text in three single quotes. -/
def multilineLiteral? : List Char → Option (List Char)
  | [] => none
  | '\r' :: '\n' :: rest => multilineLiteral? rest
  | c :: rest =>
    if c = '\x27' && rest.take 2 == ['\x27', '\x27'] then some (dropTwo '\x27' (rest.drop 2))
    else if isPlain c || c = '\n' then multilineLiteral? rest
    else none

end Residual.Toml
