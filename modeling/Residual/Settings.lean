/-
Settings of a program, and how they are read from a configuration text. Settings that the text does
not give keep their usual values; keys that are no settings are ignored.
-/
import Residual.Toml.Document
import Residual.Node.Printer

namespace Residual

structure Settings where
  /-- Whether top-level values are reduced as far as possible. -/
  resolve : Bool
  width : Nat
  indent : Int
  deriving Repr, DecidableEq, Inhabited

/-- Why settings cannot be read from a file. -/
inductive SettingsError where
  | notFound
  | invalid
  deriving Repr, DecidableEq

namespace Settings

/-- The usual settings. -/
def usual : Settings := { resolve := true, width := 80, indent := 2 }

def layout (s : Settings) : Layout := ⟨s.indent, s.width⟩

/-! ## Reading -/

/-- The value of a key, if it is given, in the form that a setting has. -/
def field? {α : Type} (t : Toml.Table) (key : String) (usual : α) (form : Toml.Value → Option α) :
    Option α :=
  match t.find? key with
  | none => some usual
  | some (.value v) => form v
  | some _ => none

def asBool? : Toml.Value → Option Bool
  | .boolean b => some b
  | _ => none

/-- A number of columns, which fits into 64 bits. -/
def asWidth? : Toml.Value → Option Nat
  | .integer n => if 0 ≤ n && n ≤ 18446744073709551615 then some n.toNat else none
  | _ => none

/-- An indent, which fits into 64 bits with a sign. -/
def asIndent? : Toml.Value → Option Int
  | .integer n =>
    if -9223372036854775808 ≤ n && n ≤ 9223372036854775807 then some n else none
  | _ => none

/-- The settings that a configuration text gives. -/
def read? (text : String) : Option Settings := do
  let t ← Toml.read? text
  return {
    resolve := ← field? t "resolve" usual.resolve asBool?
    width := ← field? t "width" usual.width asWidth?
    indent := ← field? t "indent" usual.indent asIndent? }

/-- The settings in a file, of which `content` is the text if it exists. -/
def ofFile (content : Option String) : Except SettingsError Settings :=
  match content with
  | none => .error .notFound
  | some text =>
    match read? text with
    | some s => .ok s
    | none => .error .invalid

/-- The settings in a file, or the usual ones if that fails. -/
def ofFileOrUsual (content : Option String) : Settings :=
  match ofFile content with
  | .ok s => s
  | .error _ => usual

end Settings

end Residual
