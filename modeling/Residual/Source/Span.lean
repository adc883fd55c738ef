/-
Locations in a source text. A span is a pair of byte offsets; once the text is known the line and
column of both ends and the path of the text are attached to it, and the first attachment stays.
The span at offset zero with nothing attached stands for what no text contains, the built-ins.
-/
namespace Residual

/-! ## Positions -/

/-- Offsets, lines and columns are machine words: a sum that reaches this bound starts again from
zero. -/
def wordBound : Nat := UInt64.size

/-- A line and a column, both counted from one; columns count bytes. -/
structure Position where
  line : Nat
  column : Nat
  deriving Repr, DecidableEq, Inhabited

def Position.text (p : Position) : String := toString p.line ++ ":" ++ toString p.column

/-! ## Paths -/

/-- The path of a source text, as it was given. -/
structure SourcePath where
  text : String
  deriving Repr, DecidableEq, Inhabited

namespace SourcePath

/-- The steps of a path: whether it starts at the root, and the names in order. Repeated and
trailing separators make no step, and neither does `.` except as the first step of a path that
does not start at the root. -/
def steps (p : SourcePath) : Bool × List String :=
  let parts := (p.text.splitOn "/").filter (· ≠ "")
  let rooted := p.text.startsWith "/"
  match parts with
  | "." :: rest => (rooted, if rooted then rest.filter (· ≠ ".") else "." :: rest.filter (· ≠ "."))
  | parts => (rooted, parts.filter (· ≠ "."))

/-- Two paths are the same when their steps are. -/
instance : BEq SourcePath := ⟨fun p q => p.steps == q.steps⟩

end SourcePath

/-! ## Source texts -/

/-- The offsets after each line break of a text whose first byte has offset `offset`. -/
def lineStartsFrom : List Char → Nat → List Nat
  | [], _ => []
  | c :: cs, offset =>
    let next := offset + c.utf8Size
    if c = '\n' then next :: lineStartsFrom cs next else lineStartsFrom cs next

/-- What is known of a source text: the offsets at which its lines start, and its path. -/
structure SourceFile where
  starts : List Nat
  path : Option SourcePath
  deriving Repr, Inhabited

namespace SourceFile

def ofText (text : String) (path : Option SourcePath) : SourceFile :=
  ⟨0 :: lineStartsFrom text.toList 0, path⟩

/-- The position of a byte offset. The line is the last one that starts at or before the offset;
an offset behind the end of the text lies on the last line. -/
def position (file : SourceFile) (offset : Nat) : Position :=
  let before := file.starts.takeWhile (· ≤ offset)
  ⟨before.length, (offset - before.getLastD 0 + 1) % wordBound⟩

end SourceFile

/-! ## Spans -/

/-- What a source text tells about a span. -/
structure Attachment where
  start : Position
  stop : Position
  path : Option SourcePath
  deriving Repr, BEq, Inhabited

/-- A range of byte offsets, with what its source text told about it. -/
structure Span where
  lo : Nat
  hi : Nat
  attached : Option Attachment
  deriving Repr, BEq, Inhabited

namespace Span

/-- A range with nothing attached. -/
def bare (lo hi : Nat) : Span := ⟨lo, hi, none⟩

/-- The location of what no source text contains. -/
def builtin : Span := bare 0 0

def isBuiltin (s : Span) : Bool := s.lo == 0 && s.hi == 0 && s.attached.isNone

/-- Attaches what `file` tells about the span; an earlier attachment stays. -/
def attach (s : Span) (file : SourceFile) : Span :=
  match s.attached with
  | some _ => s
  | none => { s with attached := some ⟨file.position s.lo, file.position s.hi, file.path⟩ }

def path? (s : Span) : Option SourcePath := s.attached.bind (·.path)

/-- The path, if there is one, and both ends: as positions once attached, as offsets before. -/
def text (s : Span) : String :=
  let path := match s.path? with
    | some p => p.text ++ ":"
    | none => ""
  let ends := match s.attached with
    | some a => a.start.text ++ "-" ++ a.stop.text
    | none => toString s.lo ++ "-" ++ toString s.hi
  path ++ ends

/-- The span as diagnostics name it. -/
def place (s : Span) : String := if s.isBuiltin then "<internal>" else s.text

end Span

/-! ## Located values -/

/-- A value with its location. Located values are compared without their locations. -/
structure Located (α : Type) where
  value : α
  span : Span
  deriving Repr, Inhabited

namespace Located

instance {α : Type} [BEq α] : BEq (Located α) := ⟨fun a b => a.value == b.value⟩

def text {α : Type} [ToString α] (l : Located α) : String :=
  toString l.value ++ " (" ++ l.span.place ++ ")"

end Located

end Residual
