/-
# TOML documents

A document is a list of statements: headers, which say where the following assignments go, and
assignments.  This file builds the table of a document.  No key may be given a value twice, and a
table that was named by a header, by dotted keys or in curly brackets cannot be extended in another
of these ways.
-/
import AsyncPeer.Toml.Value

namespace AsyncPeer.Toml

/-- A statement of a document. -/
inductive Statement where
  /-- `[path]`: the following assignments belong to this table. -/
  | header (path : List Text)
  /-- `[[path]]`: the following assignments belong to a new table of this list. -/
  | listHeader (path : List Text)
  /-- `path = value`. -/
  | assign (path : List Text) (value : Value)
deriving Repr

/-- A change of a table, which may depend on how the table came to be and may be impossible. -/
abbrev Change := Origin → Entries → Option Entries

/-- A change of the table at the end of a path.  Tables that are missing on the way are made.  The way
of a dotted key does not lead through tables that a header named. -/
def Change.along (dotted : Bool) (change : Change) : List Text → Change
  | [] => change
  | key :: path => fun _ entries =>
    let below := Change.along dotted change path
    entries.alter key fun
      | none =>
        let origin := if dotted then Origin.dotted else Origin.implicit
        (below origin []).map (.table origin)
      | some (.table origin es) =>
        if origin = .inline ∨ (dotted ∧ origin = .header) then none
        else (below origin es).map (.table origin)
      | some (.tables earlier last) => (below .header last).map (.tables earlier)
      | some _ => none

/-- The change that gives a new key a value.  Tables of dotted keys take only dotted keys. -/
def Change.put (isDotted : Bool) (key : Text) (v : Value) : Change := fun origin entries =>
  if (origin == .dotted) != isDotted then none
  else entries.alter key fun
    | none => some v
    | some _ => none

/-- The path of a key without its last part, and that part. -/
def splitLast? : List Text → Option (List Text × Text)
  | [] => none
  | key :: path =>
    match splitLast? path with
    | some (front, last) => some (key :: front, last)
    | none => some ([], key)

/-- The change that an assignment makes in its table. -/
def Change.assign (path : List Text) (v : Value) : Change := fun origin entries =>
  match splitLast? path with
  | some (front, key) => Change.along true (.put (!front.isEmpty) key v) front origin entries
  | none => none

/-- The change that opens the table of a header. -/
def Change.openTable (key : Text) : Change := fun _ entries =>
  entries.alter key fun
    | none => some (.table .header [])
    | some (.table .implicit es) => some (.table .header es)
    | some _ => none

/-- The change that opens a new table of a list. -/
def Change.openNext (key : Text) : Change := fun _ entries =>
  entries.alter key fun
    | none => some (.tables [] [])
    | some (.tables earlier last) => some (.tables (earlier ++ [last]) [])
    | some _ => none

/-- A document under construction. -/
structure Document where
  /-- The table of the whole document. -/
  entries : Entries := []
  /-- The path of the table that assignments go to. -/
  path : List Text := []

namespace Document

/-- The document with one more statement. -/
def add (d : Document) : Statement → Option Document
  | .assign path v =>
    (Change.along false (.assign path v) d.path .header d.entries).map fun es =>
      { d with entries := es }
  | .header path =>
    (splitLast? path).bind fun (front, key) =>
      (Change.along false (.openTable key) front .header d.entries).map fun es => ⟨es, path⟩
  | .listHeader path =>
    (splitLast? path).bind fun (front, key) =>
      (Change.along false (.openNext key) front .header d.entries).map fun es => ⟨es, path⟩

/-- The table that a list of statements gives. -/
def ofStatements? (statements : List Statement) : Option Entries :=
  (statements.foldlM Document.add {}).map (·.entries)

end Document

end AsyncPeer.Toml
