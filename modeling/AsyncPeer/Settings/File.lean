/-
# The settings file

Settings are written in TOML.  A section is a table, or an array of the values of its keys in order.
Keys without a meaning are passed over, but what they hold has to be a proper value: an integer that
fits in 128 bits, a floating point number that is not out of range.

Settings that are not named are looked for upwards from a directory, in a limited number of
directories.  A file that cannot be read or is not accepted is passed over, and the search goes on
above it; if none is left, the defaults apply.
-/
import AsyncPeer.Files.Store
import AsyncPeer.Settings
import AsyncPeer.Toml.Parser

namespace AsyncPeer

namespace Settings

open Toml (Value Entries)

/-- The name of the settings file. -/
def fileName : Text :=
  ".asyncify.toml".toList

/-! ### Values without a meaning -/

/-- The integer fits in 128 bits, with or without a sign. -/
def isProperInteger (n : Int) : Bool :=
  decide (-Int.ofNat (Nat.pow 2 127) ≤ n) && decide (n < Int.ofNat (Nat.pow 2 128))

mutual

/-- All numbers in the value are in range. -/
def isProper : Value → Bool
  | .integer n => isProperInteger n
  | .float significand exponent => !Number.exceedsDouble significand exponent
  | .array items => areProper items
  | .table _ entries => haveProper entries
  | .tables earlier last => listHasProper earlier && haveProper last
  | .string _ | .bool _ | .moment => true

/-- All numbers in the values are in range. -/
def areProper : List Value → Bool
  | [] => true
  | v :: vs => isProper v && areProper vs

/-- All numbers in the values of a table are in range. -/
def haveProper : List (Text × Value) → Bool
  | [] => true
  | (_, v) :: es => isProper v && haveProper es

/-- All numbers in the values of some tables are in range. -/
def listHasProper : List (List (Text × Value)) → Bool
  | [] => true
  | es :: rest => haveProper es && listHasProper rest

end

/-! ### Sections -/

/-- The values of a section: by key, or in order.  A date has no keys that mean something. -/
inductive Section where
  | keyed (entries : Entries)
  | listed (items : List Value)

namespace Section

/-- The values of the section that a value is. -/
def ofValue? : Value → Option Section
  | .table _ entries => some (.keyed entries)
  | .array items => some (.listed items)
  | .tables earlier last => some (.listed ((earlier ++ [last]).map (.table .header)))
  | .moment => some (.keyed [])
  | _ => none

/-- The value of the next key, with a default if it is left out, and the section behind it. -/
def next? (key : String) (read : Value → Option α) (fallback : α) :
    Section → Option (α × Section)
  | .keyed entries =>
    match entries.get? key.toList with
    | some v => (read v).map (·, .keyed (entries.filter fun e => e.1 != key.toList))
    | none => some (fallback, .keyed entries)
  | .listed [] => some (fallback, .listed [])
  | .listed (v :: vs) => (read v).map (·, .listed vs)

/-- What is left after all keys with a meaning may stand there. -/
def isDone : Section → Bool
  | .keyed entries => haveProper entries
  | .listed _ => true

end Section

/-- A number of spaces: a natural number that fits in 64 bits. -/
def readCount? : Value → Option Nat
  | .integer n => if 0 ≤ n ∧ n < Int.ofNat (Nat.pow 2 64) then some n.toNat else none
  | _ => none

/-- A truth value. -/
def readBool? : Value → Option Bool
  | .bool b => some b
  | _ => none

/-- A text. -/
def readText? : Value → Option Text
  | .string t => some t
  | _ => none

/-- The style with a given name. -/
def wildcardNamed? (name : Text) : Option WildcardStyle :=
  if name == "positional".toList then some .positional
  else if name == "named".toList then some .named
  else none

/-- A style: its name, or a table whose only key is its name and holds nothing. -/
def readWildcard? : Value → Option WildcardStyle
  | .string t => wildcardNamed? t
  | .table _ [(name, .table _ [])] => wildcardNamed? name
  | .table _ [(name, .array [])] => wildcardNamed? name
  | _ => none

/-- The section about the output. -/
def readOutput? (v : Value) : Option OutputSection := do
  let d : OutputSection := {}
  let (indent, s) ← (← Section.ofValue? v).next? "indent" readCount? d.indent
  let (keepAttributes, s) ← s.next? "keep_attributes" readBool? d.keepAttributes
  if s.isDone then return { indent, keepAttributes } else none

/-- The section about names. -/
def readNaming? (v : Value) : Option NamingSection := do
  let d : NamingSection := {}
  let (continuation, s) ← (← Section.ofValue? v).next? "continuation" readText? d.continuation
  let (value, s) ← s.next? "value" readText? d.value
  let (result, s) ← s.next? "result" readText? d.result
  if s.isDone then return { continuation, value, result } else none

/-- The section about arguments. -/
def readArguments? (v : Value) : Option ArgumentsSection := do
  let d : ArgumentsSection := {}
  let (wildcard, s) ← (← Section.ofValue? v).next? "wildcard" readWildcard? d.wildcard
  if s.isDone then return { wildcard } else none

/-- The section about modifiers. -/
def readModifiers? (v : Value) : Option ModifiersSection := do
  let d : ModifiersSection := {}
  let (preserve, s) ← (← Section.ofValue? v).next? "preserve" readBool? d.preserve
  if s.isDone then return { preserve } else none

/-! ### The file -/

/-- The settings that a table gives. -/
def ofEntries? (entries : Entries) : Option Settings := do
  let s := Section.keyed entries
  let (output, s) ← s.next? "output" (fun v => (readOutput? v).map some) none
  let (naming, s) ← s.next? "naming" (fun v => (readNaming? v).map some) none
  let (arguments, s) ← s.next? "arguments" (fun v => (readArguments? v).map some) none
  let (modifiers, s) ← s.next? "modifiers" (fun v => (readModifiers? v).map some) none
  if s.isDone then return { output, naming, arguments, modifiers } else none

/-- Why a settings file is turned down. -/
inductive FileError where
  /-- The text is not TOML, or its values do not fit. -/
  | malformed
  /-- The settings are not accepted. -/
  | invalid (reason : BadSettings)
deriving DecidableEq, Repr

/-- The message for the user. -/
def FileError.message : FileError → Text
  | malformed => "Failed to parse ".toList ++ fileName
  | invalid reason => "Invalid ".toList ++ fileName ++ ": ".toList ++ reason.message

/-- The settings that the text of a file gives, if they are accepted. -/
def parse (t : Text) : Except FileError Settings :=
  match (Toml.parse? t).bind ofEntries? with
  | none => .error .malformed
  | some s =>
    match s.validate with
    | .error reason => .error (.invalid reason)
    | .ok () => .ok s

/-- The lines of the file that a new project starts with: all sections with their defaults. -/
def templateLines : List Text :=
  ["# Asyncify Configuration",
    "",
    "[output]",
    "# Spaces per indentation level in generated peers",
    "indent = 4",
    "# Leave @Asyncify* attributes in expanded source",
    "keep_attributes = false",
    "",
    "[naming]",
    "# Identifiers used inside generated bodies",
    "continuation = \"continuation\"",
    "value = \"object\"",
    "result = \"result\"",
    "",
    "[arguments]",
    "# How `_`-labelled parameters are forwarded: \"positional\" or \"named\"",
    "wildcard = \"positional\"",
    "",
    "[modifiers]",
    "# Carry access level and `nonisolated` over to the async peer",
    "preserve = true"].map String.toList

/-- The file that a new project starts with. -/
def template : Text :=
  templateLines.flatMap (· ++ ['\n'])

/-! ### Finding the settings -/

section Finding

open Files (Host)

/-- The number of directories that are searched. -/
def searchLimit : Nat :=
  10

/-- The paths at which settings are looked for from a directory on. -/
def candidates (directory : Text) : List Text :=
  (Files.ancestors searchLimit directory).map (Files.join · fileName)

/-- The settings in the file at a path, if it can be read and is accepted. -/
def load? [Monad m] (host : Host m) (path : Text) : m (Option Settings) := do
  match ← host.read path with
  | .ok t => return (parse t).toOption
  | .error _ => return none

/-- The settings that apply in a directory. -/
def near [Monad m] (host : Host m) (directory : Text) : m Settings := do
  return (← (candidates directory).findSomeM? (load? host)).getD {}

/-- The settings that apply in the working directory: the defaults if it cannot be had. -/
def here [Monad m] (host : Host m) : m Settings := do
  match ← host.workingDirectory with
  | some directory => near host directory
  | none => return {}

/-- The settings that apply to a file: those found from its directory on, or from the working
directory on if its path names no directory. -/
def nearFile [Monad m] (host : Host m) (path : Text) : m Settings :=
  match Files.parent? path with
  | some (c :: cs) => near host (c :: cs)
  | _ => here host

end Finding

end Settings

end AsyncPeer
