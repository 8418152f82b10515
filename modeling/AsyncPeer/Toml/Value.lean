/-
# TOML values

The values of a TOML document.  A table remembers how it came to be, because that decides whether it
may still be extended.
-/
import AsyncPeer.Number

namespace AsyncPeer.Toml

/-- How a table came to be. -/
inductive Origin where
  /-- Written in curly brackets, and complete. -/
  | inline
  /-- Named by a header. -/
  | header
  /-- On the way to a table that a header names. -/
  | implicit
  /-- On the way to a key of a dotted name. -/
  | dotted
deriving DecidableEq, Repr

/-- A value of a document. -/
inductive Value where
  | string (text : Text)
  | integer (n : Int)
  /-- A floating point number: a sign does not matter here, and neither infinity nor a value that is
  no number has digits. -/
  | float (significand : Nat) (exponent : Int)
  | bool (b : Bool)
  /-- A date, a time, or both. -/
  | moment
  | array (items : List Value)
  | table (origin : Origin) (entries : List (Text × Value))
  /-- The tables of a repeated header, of which the last one may still grow. -/
  | tables (earlier : List (List (Text × Value))) (last : List (Text × Value))
deriving Repr

/-- The keys of a table with their values. -/
abbrev Entries := List (Text × Value)

namespace Entries

/-- The value of a key. -/
def get? (es : Entries) (key : Text) : Option Value :=
  (es.find? fun e => e.1 == key).map (·.2)

/-- The table with the value of a key changed, or with a new key at the end.  The change may be
impossible. -/
def alter (key : Text) (f : Option Value → Option Value) : Entries → Option Entries
  | [] => (f none).map fun v => [(key, v)]
  | (k, v) :: es =>
    if k = key then (f (some v)).map fun v => (k, v) :: es
    else (alter key f es).map ((k, v) :: ·)

end Entries

end AsyncPeer.Toml
