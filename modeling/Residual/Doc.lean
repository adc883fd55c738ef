/-
Documents and their layout in a width. A document is text with places at which a line may end.
A group is laid out on one line if it fits there, and with a line break at each of its places
otherwise; nesting moves the lines that start inside it. Laying out yields pieces, of which the
text pieces are the same for every width.

A document is laid out in front of a continuation, which is asked for three things: the indent of
the part that comes next, whether the rest of the line fits, and the pieces to come.
-/
import Residual.Text.Width

namespace Residual

/-! ## Documents -/

inductive Doc where
  | nil
  | text (s : String)
  | line
  | append (a b : Doc)
  | nest (k : Int) (d : Doc)
  | group (d : Doc)
  deriving Repr, Inhabited

namespace Doc

/-- Text; the empty text is no document at all. -/
def word (s : String) : Doc := if s = "" then nil else text s

/-- One document after another. No document leaves no trace, so that a line break in front of it
takes the indent of what really follows. -/
protected def cat : Doc → Doc → Doc
  | nil, d => d
  | d, nil => d
  | a, b => append a b

instance : Append Doc := ⟨Doc.cat⟩

/-- Moves the lines that start inside `d`. -/
def indented (k : Int) : Doc → Doc
  | nil => nil
  | d => nest k d

/-- Lays `d` out on one line if possible. -/
def grouped : Doc → Doc
  | nil => nil
  | d => group d

def concat (ds : List Doc) : Doc := ds.foldl (· ++ ·) nil

/-- The documents with `sep` between them. -/
def separated (sep : Doc) : List Doc → Doc
  | [] => nil
  | d :: ds => ds.foldl (fun acc next => acc ++ sep ++ next) d

end Doc

/-! ## Layout -/

/-- A piece of laid out text. -/
inductive Piece where
  | text (s : String)
  | space
  | newline (indent : Nat)
  deriving Repr, DecidableEq, Inhabited

def Piece.toString : Piece → String
  | .text s => s
  | .space => " "
  | .newline indent => String.ofList ('\n' :: List.replicate indent ' ')

/-- What comes after a document. -/
structure Rest where
  /-- The indent of the part that comes next, if there is one. -/
  indent : Option Nat
  /-- Whether what is left of the line fits from a column on. -/
  fits : Nat → Bool
  /-- The pieces, laid out from a column on. -/
  pieces : Nat → List Piece

namespace Rest

/-- The end of the document. -/
def done : Rest := ⟨none, fun _ => true, fun _ => []⟩

end Rest

namespace Doc

/-- Whether a document fits on the current line from `column` on, with `rest` to judge what comes
after it. If it is not `flat` the line ends at its first place. -/
def fits (width : Nat) (flat : Bool) : Doc → (rest : Nat → Bool) → (column : Nat) → Bool
  | nil, rest, column => rest column
  | text s, rest, column =>
    let next := column + Text.width s
    next ≤ width && rest next
  | line, rest, column => !flat || (column + 1 ≤ width && rest (column + 1))
  | append a b, rest, column => a.fits width flat (fun c => b.fits width flat rest c) column
  | nest _ d, rest, column => d.fits width flat rest column
  | group d, rest, column => d.fits width flat rest column

/-- Lays a document out in front of `rest`. A broken line takes the indent of what follows it. -/
def before (width : Nat) : Doc → (flat : Bool) → (indent : Nat) → Rest → Rest
  | nil, _, indent, rest => { rest with indent := some indent }
  | text s, _, indent, rest =>
    { indent := some indent
      fits := fun column => (text s).fits width false rest.fits column
      pieces := fun column => .text s :: rest.pieces (column + Text.width s) }
  | line, flat, indent, rest =>
    { indent := some indent
      fits := fun column => line.fits width false rest.fits column
      pieces := fun column =>
        if flat then .space :: rest.pieces (column + 1)
        else
          let next := rest.indent.getD indent
          .newline next :: rest.pieces next }
  | append a b, flat, indent, rest => a.before width flat indent (b.before width flat indent rest)
  | nest k d, flat, indent, rest =>
    { d.before width flat (indent + k).toNat rest with indent := some indent }
  | group d, flat, indent, rest =>
    { indent := some indent
      fits := fun column => d.fits width false rest.fits column
      pieces := fun column =>
        (d.before width (flat || d.fits width true rest.fits column) indent rest).pieces column }

/-- The pieces of a document in a width. -/
def pieces (d : Doc) (width : Nat) : List Piece := (d.before width false 0 .done).pieces 0

/-- The text of a document in a width. -/
def render (d : Doc) (width : Nat) : String := String.join ((d.pieces width).map Piece.toString)

end Doc

end Residual
