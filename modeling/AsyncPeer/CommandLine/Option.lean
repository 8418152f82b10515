/-
# Options on a command line

The conventions by which a list of arguments is taken apart into options and operands: long options
with two dashes, clusters of one-letter options with one dash, values behind an equals sign, attached
to a letter or in the next argument, and two dashes alone in front of the operands.

A value is judged only when the next option or operand is reached, or the end; an argument that is
not known at all is reported before the value in front of it.
-/
import AsyncPeer.Text.Basic

namespace AsyncPeer.CommandLine

/-- What is wrong with a command line, or what it asks for instead of a command. -/
inductive UsageError where
  /-- There are no arguments. -/
  | nothingGiven
  /-- An argument that has to be there is not. -/
  | missingRequired
  /-- An option or an operand is not known. -/
  | unknownArgument
  /-- A value is missing, empty or none of those allowed. -/
  | invalidValue
  /-- An option is given twice. -/
  | repeated
  /-- An option that takes no value has one. -/
  | unwantedValue
  /-- A command is not known. -/
  | unknownCommand
  /-- Help is asked for. -/
  | help
  /-- The version is asked for. -/
  | version
deriving DecidableEq, Repr

/-- What an option takes. -/
inductive Arity where
  /-- Nothing; it may be given once. -/
  | flag
  /-- Nothing; it may be given often. -/
  | counter
  /-- A value of the given form. -/
  | value (accepts : Text → Bool)
  /-- Nothing; it ends the run with the given outcome. -/
  | exit (outcome : UsageError)

/-- An option. -/
structure Spec where
  /-- The name behind two dashes. -/
  long : Text
  /-- The letter behind one dash. -/
  short : Option Char
  /-- What it takes. -/
  arity : Arity

/-- The arguments that a command takes. -/
structure Grammar where
  /-- The options. -/
  options : List Spec
  /-- The name and the form of the operand, if the command takes one. -/
  operand : Option (Text × (Text → Bool))

namespace Grammar

/-- The option with a long name. -/
def long? (g : Grammar) (name : Text) : Option Spec :=
  g.options.find? fun o => o.long == name

/-- The option with a letter. -/
def short? (g : Grammar) (c : Char) : Option Spec :=
  g.options.find? fun o => o.short == some c

end Grammar

/-- A value that is not judged yet. -/
structure Pending where
  /-- The name of its option or operand. -/
  name : Text
  /-- The form it should have. -/
  accepts : Text → Bool
  /-- The value, once it is reached. -/
  value : Option Text

/-- The arguments read so far. -/
structure Progress where
  /-- The options and operands with their values, the last one first. -/
  given : List (Text × Text) := []
  /-- The value that is not judged yet. -/
  pending : Option Pending := none
  /-- Only operands follow. -/
  operandsOnly : Bool := false
  /-- The operand was given. -/
  hasOperand : Bool := false

namespace Progress

/-- The option or operand was given. -/
def has (p : Progress) (name : Text) : Bool :=
  p.given.any fun g => g.1 == name

/-- The number of times that an option was given. -/
def count (p : Progress) (name : Text) : Nat :=
  (p.given.filter fun g => g.1 == name).length

/-- The value of an option or operand. -/
def value? (p : Progress) (name : Text) : Option Text :=
  (p.given.find? fun g => g.1 == name).map (·.2)

/-- The pending value is judged: it has to be there, its option must not have been given before, and
it has to have the right form. -/
def settle (p : Progress) : Except UsageError Progress :=
  match p.pending with
  | none => .ok p
  | some q =>
    match q.value with
    | none => .error .invalidValue
    | some v =>
      if p.has q.name then .error .repeated
      else if q.accepts v then .ok { p with given := (q.name, v) :: p.given, pending := none }
      else .error .invalidValue

/-- An option that takes no value. -/
def mark (p : Progress) (o : Spec) : Except UsageError Progress := do
  let p ← p.settle
  match o.arity with
  | .exit outcome => .error outcome
  | .counter => return { p with given := (o.long, []) :: p.given }
  | _ => if p.has o.long then .error .repeated else return { p with given := (o.long, []) :: p.given }

/-- An option that takes a value, with the value if it is attached. -/
def await (p : Progress) (o : Spec) (accepts : Text → Bool) (attached : Option Text) :
    Except UsageError Progress := do
  let p ← p.settle
  let p := { p with pending := some ⟨o.long, accepts, attached⟩ }
  if attached.isSome then p.settle else return p

/-- A long option, read from behind its dashes. -/
def readLong (g : Grammar) (p : Progress) (t : Text) : Except UsageError Progress :=
  let name := t.takeWhile (· != '=')
  let attached := match t.dropWhile (· != '=') with
    | _ :: v => some v
    | [] => none
  match g.long? name with
  | none => .error .unknownArgument
  | some o =>
    match o.arity with
    | .value accepts => p.await o accepts attached
    | _ => if attached.isSome then .error .unwantedValue else p.mark o

/-- A cluster of letters, read from behind its dash.  What follows the letter of an option that takes
a value is the value, with or without an equals sign. -/
def readCluster (g : Grammar) (p : Progress) : Text → Except UsageError Progress
  | [] => .ok p
  | c :: cs =>
    match g.short? c with
    | none => .error .unknownArgument
    | some o =>
      match o.arity with
      | .value accepts =>
        let attached := match cs with
          | [] => none
          | '=' :: v => some v
          | v => some v
        p.await o accepts attached
      | _ =>
        match p.mark o with
        | .ok p => readCluster g p cs
        | .error e => .error e

/-- An operand. -/
def readOperand (g : Grammar) (p : Progress) (t : Text) : Except UsageError Progress := do
  match g.operand with
  | some (name, accepts) =>
    if p.hasOperand then .error .unknownArgument
    else
      let p ← p.settle
      return { p with pending := some ⟨name, accepts, some t⟩, hasOperand := true }
  | none => .error .unknownArgument

/-- The next argument. -/
def read (g : Grammar) (p : Progress) (t : Text) : Except UsageError Progress :=
  if p.operandsOnly then p.readOperand g t
  else
    match t with
    | ['-', '-'] => .ok { p with operandsOnly := true }
    | '-' :: '-' :: cs => p.readLong g cs
    | '-' :: c :: cs => p.readCluster g (c :: cs)
    | _ =>
      match p.pending with
      | some ⟨name, accepts, none⟩ => .ok { p with pending := some ⟨name, accepts, some t⟩ }
      | _ => p.readOperand g t

end Progress

namespace Grammar

/-- The options and operands that a list of arguments gives. -/
def read (g : Grammar) (arguments : List Text) : Except UsageError Progress := do
  let p ← arguments.foldlM (Progress.read g) {}
  p.settle

end Grammar

end AsyncPeer.CommandLine
