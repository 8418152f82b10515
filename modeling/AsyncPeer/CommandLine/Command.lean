/-
# The commands

The three commands of the program, and how a command line spells them.
-/
import AsyncPeer.CommandLine.Option
import AsyncPeer.Diagnostic
import AsyncPeer.Exchange.Peer

namespace AsyncPeer.CommandLine

/-- What `expand` is asked to do. -/
structure ExpandRequest where
  /-- The source file. -/
  path : Text
  /-- The file for the expanded source; without one it is printed. -/
  output : Option Text := none
  /-- The settings file; without one the nearest is looked for. -/
  config : Option Text := none
  /-- Only diagnostics are wanted. -/
  check : Bool := false
  /-- Attributes stay in the source. -/
  keepAttributes : Bool := false
  /-- When diagnostics are coloured. -/
  color : ColorMode := .auto
deriving DecidableEq, Repr

/-- What `generate` is asked to do. -/
structure GenerateRequest where
  /-- The file with the declaration. -/
  signature : Text
  /-- The generator to use. -/
  generator : Generator := .default
  /-- The format of the peer. -/
  format : Exchange.Format := .text
  /-- The settings file; without one the nearest is looked for. -/
  config : Option Text := none
deriving DecidableEq, Repr

/-- A command with what it is asked to do. -/
inductive Command where
  /-- Expand a source. -/
  | expand (request : ExpandRequest)
  /-- Write the peer of one declaration. -/
  | generate (request : GenerateRequest)
  /-- Write a settings file. -/
  | init (force : Bool)
deriving DecidableEq, Repr

/-- A command line: the command, and how much it shall report. -/
structure Invocation where
  /-- The command. -/
  command : Command
  /-- How often more reports were asked for. -/
  verbosity : Nat := 0
deriving DecidableEq, Repr

/-! ### Values -/

/-- A path: any text but the empty one. -/
def isPath (t : Text) : Bool :=
  !t.isEmpty

/-- The colour mode with a given name. -/
def colorMode? (t : Text) : Option ColorMode :=
  if t == "auto".toList then some .auto
  else if t == "always".toList then some .always
  else if t == "never".toList then some .never
  else none

/-- The format with a given name. -/
def format? (t : Text) : Option Exchange.Format :=
  if t == "text".toList then some .text
  else if t == "json".toList then some .json
  else none

/-- The count of reports goes no higher. -/
def verbosityLimit : Nat :=
  255

/-! ### Grammars -/

/-- The request for help, which every command knows. -/
def helpSpec : Spec :=
  ⟨"help".toList, some 'h', .exit .help⟩

/-- The request for more reports. -/
def verboseSpec : Spec :=
  ⟨"verbose".toList, some 'v', .counter⟩

/-- An option for a path. -/
def pathSpec (name : String) (letter : Char) : Spec :=
  ⟨name.toList, some letter, .value isPath⟩

/-- The arguments of `expand`. -/
def expandGrammar : Grammar :=
  { options :=
      [pathSpec "output" 'o', pathSpec "config" 'c',
        ⟨"check".toList, none, .flag⟩,
        ⟨"keep-attributes".toList, none, .flag⟩,
        ⟨"color".toList, none, .value fun t => (colorMode? t).isSome⟩,
        verboseSpec, helpSpec]
    operand := some ("path".toList, isPath) }

/-- The arguments of `generate`. -/
def generateGrammar : Grammar :=
  { options :=
      [pathSpec "signature" 's',
        ⟨"generator".toList, some 'g', .value fun t => (Generator.named? t).isSome⟩,
        ⟨"format".toList, some 'f', .value fun t => (format? t).isSome⟩,
        pathSpec "config" 'c', verboseSpec, helpSpec]
    operand := none }

/-- The arguments of `init`. -/
def initGrammar : Grammar :=
  { options := [⟨"force".toList, some 'f', .flag⟩, helpSpec]
    operand := none }

/-- The options in front of a command. -/
def topGrammar : Grammar :=
  { options := [helpSpec, ⟨"version".toList, some 'V', .exit .version⟩]
    operand := none }

/-! ### Reading -/

/-- The invocation that the arguments of `expand` spell. -/
def readExpand (arguments : List Text) : Except UsageError Invocation := do
  let p ← expandGrammar.read arguments
  match p.value? "path".toList with
  | none => .error .missingRequired
  | some path =>
    return {
      command := .expand {
        path
        output := p.value? "output".toList
        config := p.value? "config".toList
        check := p.has "check".toList
        keepAttributes := p.has "keep-attributes".toList
        color := ((p.value? "color".toList).bind colorMode?).getD .auto }
      verbosity := min (p.count "verbose".toList) verbosityLimit }

/-- The invocation that the arguments of `generate` spell. -/
def readGenerate (arguments : List Text) : Except UsageError Invocation := do
  let p ← generateGrammar.read arguments
  match p.value? "signature".toList with
  | none => .error .missingRequired
  | some signature =>
    return {
      command := .generate {
        signature
        generator := ((p.value? "generator".toList).bind Generator.named?).getD .default
        format := ((p.value? "format".toList).bind format?).getD .text
        config := p.value? "config".toList }
      verbosity := min (p.count "verbose".toList) verbosityLimit }

/-- The invocation that the arguments of `init` spell. -/
def readInit (arguments : List Text) : Except UsageError Invocation := do
  let p ← initGrammar.read arguments
  return { command := .init (p.has "force".toList) }

/-- The names of the commands. -/
def commandNames : List Text :=
  ["expand", "generate", "init", "help"].map String.toList

/-- The outcome of `help` with the given names behind it: only one command can be asked about. -/
def readHelp : List Text → UsageError
  | [] => .help
  | [name] => if commandNames.contains name then .help else .unknownCommand
  | _ => .unknownCommand

/-- What two dashes in front of a command come to. -/
def readAfterDashes : List Text → UsageError
  | [] => .nothingGiven
  | name :: _ => if commandNames.contains name then .unknownArgument else .unknownCommand

/-- The invocation that a command line spells. -/
def parse : List Text → Except UsageError Invocation
  | [] => .error .nothingGiven
  | name :: arguments =>
    if name == "expand".toList then readExpand arguments
    else if name == "generate".toList then readGenerate arguments
    else if name == "init".toList then readInit arguments
    else if name == "help".toList then .error (readHelp arguments)
    else
      match name with
      | ['-', '-'] => .error (readAfterDashes arguments)
      | '-' :: _ :: _ =>
        match Progress.read topGrammar {} name with
        | .error e => .error e
        | .ok _ => .error .nothingGiven
      | _ => .error .unknownCommand

/-! ### Reports -/

/-- The filter for reports of the program's work. -/
def reportFilter (verbosity : Nat) : Text :=
  "asyncify=".toList ++
    match verbosity with
    | 0 => "warn".toList
    | 1 => "info".toList
    | 2 => "debug".toList
    | _ => "trace".toList

end AsyncPeer.CommandLine
