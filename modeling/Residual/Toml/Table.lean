/-
Tables of the configuration format. A key has one value; a table is opened by its header once, may
be opened silently by the header of a table inside it, and has no header any more if it was written
in one piece or grew from dotted keys.
-/
import Residual.Toml.Scalar

namespace Residual.Toml

/-- How a table came about. -/
inductive Origin where
  /-- By its own header. -/
  | header
  /-- By the header of a table inside it. -/
  | implied
  /-- By dotted keys. -/
  | dotted
  deriving Repr, DecidableEq

/-- What a key stands for. An array of tables keeps only its last table, the one that grows. -/
inductive Entry where
  | value (v : Value)
  | table (origin : Origin) (entries : List (String × Entry))
  | tables (last : List (String × Entry))

/-- Keys with what they stand for. -/
abbrev Table := List (String × Entry)

namespace Table

def find? (t : Table) (key : String) : Option Entry := List.lookup key t

/-- Sets what a key stands for, in place if the key is there. -/
def set (t : Table) (key : String) (e : Entry) : Table :=
  if (t.find? key).isSome then t.map fun (k, old) => (k, if k == key then e else old)
  else t ++ [(key, e)]

/-- Adds a value under a key that is not there yet. -/
def put? (t : Table) (key : String) (v : Value) : Option Table :=
  if (t.find? key).isSome then none else some (t.set key (.value v))

/-- Adds a value under the rest of a dotted key. No table on the way may have a header of its own,
and of an array of tables the last one is meant. Only a table that grew from dotted keys takes the
value; `isDotted` tells whether the table at hand did. -/
def grow? : List String → Value → (isDotted : Bool) → Table → Option Table
  | [], _, _, _ => none
  | [key], v, isDotted, t => if isDotted then t.put? key v else none
  | key :: keys, v, _, t =>
    match t.find? key with
    | none => return t.set key (.table .dotted (← grow? keys v true []))
    | some (.table .dotted inner) => return t.set key (.table .dotted (← grow? keys v true inner))
    | some (.table .implied inner) =>
      return t.set key (.table .implied (← grow? keys v false inner))
    | some (.tables last) => return t.set key (.tables (← grow? keys v false last))
    | some _ => none

/-- Adds a value under a key. A dotted key reaches into tables; a plain one adds to the table. -/
def insert? : List String → Value → Table → Option Table
  | [key], v, t => t.put? key v
  | keys, v, t => grow? keys v false t

/-- Changes the table that a header names; the tables on the way are made where they are missing,
and of an array of tables the last one is meant. -/
def under? (f : Table → Option Table) : List String → Table → Option Table
  | [], t => f t
  | key :: keys, t =>
    match t.find? key with
    | none => return t.set key (.table .implied (← under? f keys []))
    | some (.table origin inner) => return t.set key (.table origin (← under? f keys inner))
    | some (.tables last) => return t.set key (.tables (← under? f keys last))
    | some (.value _) => none

/-- Opens the table `key` by its header. -/
def openTable? (key : String) (t : Table) : Option Table :=
  match t.find? key with
  | none => some (t.set key (.table .header []))
  | some (.table .implied inner) => some (t.set key (.table .header inner))
  | some _ => none

/-- Opens the next table of the array `key` by its header. -/
def openNext? (key : String) (t : Table) : Option Table :=
  match t.find? key with
  | none | some (.tables _) => some (t.set key (.tables []))
  | some _ => none

end Table

end Residual.Toml
