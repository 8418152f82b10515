/-
# Settings

The choices that a project can make in its settings file, in four sections that may each be left out.
A section that is there has a value for each of its keys, the default where none is given.
-/
import AsyncPeer.Generator
import AsyncPeer.Number

namespace AsyncPeer

/-- The section about the layout of the output. -/
structure OutputSection where
  /-- The number of spaces of one level of indentation. -/
  indent : Nat := 4
  /-- Attributes stay in an expanded source. -/
  keepAttributes : Bool := false
deriving DecidableEq, Repr

/-- The section about the names in generated bodies. -/
structure NamingSection where
  /-- The name of the continuation. -/
  continuation : Text := "continuation".toList
  /-- The name of a delivered value. -/
  value : Text := "object".toList
  /-- The name of a delivered result. -/
  result : Text := "result".toList
deriving DecidableEq, Repr

/-- The section about the arguments that are handed on. -/
structure ArgumentsSection where
  /-- How arguments without a label are handed on. -/
  wildcard : WildcardStyle := .positional
deriving DecidableEq, Repr

/-- The section about modifiers. -/
structure ModifiersSection where
  /-- The peer keeps the modifiers that only say who may use it. -/
  preserve : Bool := true
deriving DecidableEq, Repr

/-- The settings of a project. -/
structure Settings where
  output : Option OutputSection := none
  naming : Option NamingSection := none
  arguments : Option ArgumentsSection := none
  modifiers : Option ModifiersSection := none
deriving DecidableEq, Repr

namespace Settings

/-- The section about the output, with the defaults if it is left out. -/
def outputOrDefault (s : Settings) : OutputSection :=
  s.output.getD {}

/-- The section about names, with the defaults if it is left out. -/
def namingOrDefault (s : Settings) : NamingSection :=
  s.naming.getD {}

/-- The style of peers that the settings ask for. -/
def style (s : Settings) : Style :=
  let naming := s.namingOrDefault
  { indent := s.outputOrDefault.indent
    continuation := naming.continuation
    value := naming.value
    result := naming.result
    wildcard := (s.arguments.getD {}).wildcard
    keepsModifiers := (s.modifiers.getD {}).preserve }

end Settings

/-- The text is a name: a letter or an underscore, and then letters, numerals and underscores. -/
def isIdentifier : Text → Bool
  | [] => false
  | c :: cs => (Text.isLetter c || c == '_') && cs.all Text.isWordChar

/-- Why settings would give peers that do not compile. -/
inductive BadSettings where
  /-- A name is no identifier. -/
  | notAnIdentifier (key name : Text)
  /-- A name is also that of the continuation. -/
  | clash
  /-- The indentation is too small or too large. -/
  | badIndent (indent : Nat)
deriving DecidableEq, Repr

/-- The message for the user. -/
def BadSettings.message : BadSettings → Text
  | notAnIdentifier key name =>
    key.quoted ++ " must be a Swift identifier, got ".toList ++ name.quoted
  | clash => "closure argument names must differ from `naming.continuation`".toList
  | badIndent indent =>
    "`output.indent` must be between 1 and 16, got ".toList ++ Number.digits indent

namespace Settings

/-- The names that the settings choose, each with its key. -/
def names (s : Settings) : List (Text × Text) :=
  [("naming.continuation".toList, s.namingOrDefault.continuation),
    ("naming.value".toList, s.namingOrDefault.value),
    ("naming.result".toList, s.namingOrDefault.result)]

/-- Settings are accepted if all names are identifiers, no other name is that of the continuation, and
a level of indentation has 1 to 16 spaces. -/
def validate (s : Settings) : Except BadSettings Unit :=
  let naming := s.namingOrDefault
  match s.names.find? fun n => !isIdentifier n.2 with
  | some (key, name) => .error (.notAnIdentifier key name)
  | none =>
    if naming.value = naming.continuation ∨ naming.result = naming.continuation then .error .clash
    else if s.outputOrDefault.indent = 0 ∨ 16 < s.outputOrDefault.indent then
      .error (.badIndent s.outputOrDefault.indent)
    else .ok ()

end Settings

end AsyncPeer
