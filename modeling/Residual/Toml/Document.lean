/-
Documents of the configuration format: lines with a key and a value, headers of tables, comments.
-/
import Residual.Toml.Quoted
import Residual.Toml.Table

namespace Residual.Toml

/-- Reads from the front of a text, or refuses it. -/
abbrev Reader := StateT (List Char) Option

namespace Reader

def next? : Reader (Option Char) := return (← get).head?

def takeWhile (p : Char → Bool) : Reader (List Char) := modifyGet (·.span p)

/-- Reads `text` if it comes next. -/
def accept (text : String) : Reader Bool := modifyGet fun cs =>
  if text.toList.isPrefixOf cs then (true, cs.drop text.length) else (false, cs)

def expect (text : String) : Reader PUnit := do guard (← accept text)

def blanks : Reader PUnit := do
  let _ ← takeWhile fun c => c == ' ' || c == '\t'

/-- A comment, if one comes next. -/
def comment : Reader PUnit := do
  if ← accept "#" then
    let _ ← takeWhile isPlain

/-- A line break, if one comes next. -/
def lineBreak : Reader Bool := do
  if ← accept "\n" then return true else accept "\r\n"

/-- The end of a line, or of the document. -/
def endOfLine : Reader PUnit := do
  blanks
  comment
  if !(← lineBreak) then guard (← get).isEmpty

/-! ## Keys -/

/-- The bare, double-quoted or single-quoted part of a key. -/
def keyPart : Reader String := do
  if ← accept "\"" then
    let (text, rest) ← basic? (← get)
    set rest
    return String.ofList text
  else if ← accept "\x27" then
    let (text, rest) ← literal? (← get)
    set rest
    return String.ofList text
  else
    let cs ← takeWhile fun c => c.isAlphanum || c == '_' || c == '-'
    guard !cs.isEmpty
    return String.ofList cs

/-- Further parts of a key, each behind a dot. -/
def keyParts : (fuel : Nat) → Reader (List String)
  | 0 => failure
  | fuel + 1 => do
    blanks
    if ← accept "." then
      blanks
      let part ← keyPart
      return part :: (← keyParts fuel)
    else return []

/-- How many parts a key may have, and how deep values may be nested. -/
def maxDepth : Nat := 80

/-- A key: parts with dots between them. -/
def key : Reader (List String) := do
  let part ← keyPart
  let parts ← keyParts ((← get).length + 1)
  guard (parts.length < maxDepth)
  return part :: parts

/-! ## Values -/

/-- Blanks, comments and line breaks between the items of an array or of a table in braces. -/
def gaps : (fuel : Nat) → Reader PUnit
  | 0 => return ⟨⟩
  | fuel + 1 => do
    blanks
    comment
    if ← lineBreak then gaps fuel

mutual

/-- A value; `fuel` bounds the nesting and the number of items, and `room` says how many brackets
and braces may still be opened. -/
def value : (fuel room : Nat) → Reader Value
  | 0, _ => failure
  | fuel + 1, room => do
    if ← accept "\"\"\"" then
      set (← multilineBasic? (← get))
      return .other
    else if ← accept "\x27\x27\x27" then
      set (← multilineLiteral? (← get))
      return .other
    else if ← accept "\"" then
      let (_, rest) ← basic? (← get)
      set rest
      return .other
    else if ← accept "\x27" then
      let (_, rest) ← literal? (← get)
      set rest
      return .other
    else if ← accept "[" then
      guard (0 < room)
      items fuel (room - 1)
      return .other
    else if ← accept "\x7b" then
      guard (0 < room)
      pairs fuel (room - 1) []
      return .other
    else
      let token ← modifyGet scalarText
      scalar? token

/-- The items of an array up to its end; a comma may follow the last one. -/
def items : (fuel room : Nat) → Reader PUnit
  | 0, _ => failure
  | fuel + 1, room => do
    gaps ((← get).length + 1)
    if ← accept "]" then return ⟨⟩
    else
      let _ ← value fuel room
      gaps ((← get).length + 1)
      if ← accept "," then items fuel room
      else expect "]"

/-- The pairs of a table in braces up to its end; a comma may follow the last one. -/
def pairs : (fuel room : Nat) → Table → Reader PUnit
  | 0, _, _ => failure
  | fuel + 1, room, table => do
    gaps ((← get).length + 1)
    if ← accept "\x7d" then return ⟨⟩
    else
      let path ← key
      gaps ((← get).length + 1)
      expect "="
      gaps ((← get).length + 1)
      let v ← value fuel room
      let table ← table.insert? path v
      gaps ((← get).length + 1)
      if ← accept "," then pairs fuel room table
      else expect "\x7d"

end

/-! ## Lines -/

/-- What has been read: the document so far, and the header under which keys belong now. -/
structure Progress where
  document : Table
  header : List String

/-- The last key of a path, and the ones before it. -/
def splitLast? (path : List String) : Option (List String × String) :=
  path.getLast?.map fun last => (path.dropLast, last)

/-- A header, a key with its value, or nothing, up to the end of the line. -/
def line (p : Progress) : Reader Progress := do
  blanks
  match ← next? with
  | none | some '#' | some '\n' | some '\r' =>
    endOfLine
    return p
  | some '[' =>
    let array ← accept "[["
    if !array then expect "["
    blanks
    let path ← key
    blanks
    expect (if array then "]]" else "]")
    endOfLine
    let (parents, last) ← splitLast? path
    let step := if array then Table.openNext? last else Table.openTable? last
    return ⟨← Table.under? step parents p.document, path⟩
  | some _ =>
    let path ← key
    blanks
    expect "="
    blanks
    let v ← value ((← get).length + 1) maxDepth
    endOfLine
    return { p with document := ← Table.under? (Table.insert? path v) p.header p.document }

/-- Lines up to the end of the document. -/
def lines : (fuel : Nat) → Progress → Reader Table
  | 0, _ => failure
  | fuel + 1, p => do
    let p ← line p
    if (← get).isEmpty then return p.document else lines fuel p

end Reader

/-- Reads a document; a mark of the byte order may precede it. -/
def read? (text : String) : Option Table :=
  let cs := match text.toList with
    | '\ufeff' :: cs => cs
    | cs => cs
  ((Reader.lines (cs.length + 1) ⟨[], []⟩).run cs).map (·.1)

end Residual.Toml
