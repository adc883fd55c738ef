/-
Diagnostics: a message and labelled locations, kept in the order in which they were attached, and
their text for people, plain or with terminal colours.
-/
import Residual.Source.Span

namespace Residual

/-! ## Terminal styles -/

/-- A terminal style, given by the code that switches it on. -/
structure Style where
  code : String

namespace Style

/-- The code that switches every style off. -/
def reset : String := "\x1b[0m"

def boldRed : Style := ⟨"\x1b[1;31m"⟩
def bold : Style := ⟨"\x1b[1m"⟩
def blue : Style := ⟨"\x1b[34m"⟩

/-- Text in a style. Where the text itself switches styles off, the style is switched on again. -/
def paint (style : Style) (text : String) : String :=
  style.code ++ text.replace reset (reset ++ style.code) ++ reset

/-- Text in a style if colours are wanted. -/
def paintIf (style : Style) (colour : Bool) (text : String) : String :=
  if colour then style.paint text else text

end Style

/-! ## Diagnostics -/

/-- A location and what to say about it. -/
structure Label where
  span : Span
  text : String
  deriving Repr, Inhabited

/-- A message for the user, with labelled locations. -/
structure Diagnostic where
  message : String
  labels : List Label
  deriving Repr, Inhabited

namespace Diagnostic

/-- A message without labels. -/
def plain (message : String) : Diagnostic := ⟨message, []⟩

/-- Adds a label behind the others. -/
def label (d : Diagnostic) (span : Span) (text : String) : Diagnostic :=
  { d with labels := d.labels ++ [⟨span, text⟩] }

/-- Adds text at the end of the message. -/
def extend (d : Diagnostic) (text : String) : Diagnostic :=
  { d with message := d.message ++ text }

/-- One line for the message and one for each label. -/
def render (d : Diagnostic) (colour : Bool) : String :=
  let head := Style.boldRed.paintIf colour "error" ++ ": " ++ Style.bold.paintIf colour d.message
  let line (l : Label) : String :=
    "\n  " ++ Style.blue.paintIf colour "-->" ++ " " ++ l.span.place ++ ": " ++ l.text
  head ++ String.join (d.labels.map line)

end Diagnostic

end Residual
