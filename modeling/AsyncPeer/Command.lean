/-
# Running commands

What the three commands do.  A run prints to two channels and may end with an error; what was printed
before the error stays printed.
-/
import AsyncPeer.CommandLine.Command
import AsyncPeer.Settings.File

namespace AsyncPeer.Command

open CommandLine (ExpandRequest GenerateRequest Invocation)
open Files (Host FileError)

/-- Why a command ends with an error. -/
inductive Error where
  /-- A file cannot be read. -/
  | unreadable (path : Text) (cause : FileError)
  /-- A file cannot be written. -/
  | unwritable (path : Text) (cause : FileError)
  /-- The named settings are not accepted. -/
  | settings (cause : Settings.FileError)
  /-- There is no peer for the declaration. -/
  | noPeer (cause : Exchange.Failure)
  /-- There is no syntax tree of the source. -/
  | unparsed (path : Text)
  /-- The syntax tree does not belong to the source. -/
  | misfit (cause : Refusal)
  /-- Some sites could not be expanded. -/
  | failedSites (count : Nat)
  /-- There is a settings file already. -/
  | settingsExist
deriving DecidableEq, Repr

/-- The message for the user. -/
def Error.message : Error → Text
  | unreadable path cause => "Failed to read ".toList ++ path ++ ": ".toList ++ cause.message
  | unwritable path cause => "Failed to write ".toList ++ path ++ ": ".toList ++ cause.message
  | settings cause => cause.message
  | noPeer cause => cause.message
  | unparsed path => "Failed to parse ".toList ++ path
  | misfit cause => cause.message
  | failedSites count =>
    Number.digits count ++ " attribute site(s) could not be expanded".toList
  | settingsExist => "Configuration file already exists. Use --force to overwrite.".toList

/-- What a run printed, and the error that it ended with. -/
structure Outcome where
  /-- What was printed as the result. -/
  stdout : Text := []
  /-- What was printed as diagnostics. -/
  stderr : Text := []
  /-- The error. -/
  error : Option Error := none
deriving DecidableEq, Repr

/-! ### Settings and files -/

/-- The settings in the file at a path, or why they cannot be had. -/
def namedSettings [Monad m] (host : Host m) (path : Text) : m (Except Error Settings) := do
  match ← host.read path with
  | .error e => return .error (.unreadable path e)
  | .ok t =>
    match Settings.parse t with
    | .ok s => return .ok s
    | .error e => return .error (.settings e)

/-- The settings of a run: those in the named file, or else those that apply to the file the run is
about, or in the working directory. -/
def resolveSettings [Monad m] (host : Host m) (named : Option Text) (about : Option Text) :
    m (Except Error Settings) := do
  match named, about with
  | some path, _ => namedSettings host path
  | none, some path => return .ok (← Settings.nearFile host path)
  | none, none => return .ok (← Settings.here host)

/-! ### Expanding a source -/

/-- The diagnostics of a report, a line each. -/
def diagnostics (colored : Bool) (path : Text) (r : Source.Report) : Text :=
  (r.outcomes.filterMap (Diagnostic.line? colored path)).flatMap (· ++ ['\n'])

/-- The tally of a report, as a line. -/
def tally (colored : Bool) (r : Source.Report) : Text :=
  Diagnostic.summary colored r.expandedCount r.failures.length ++ ['\n']

/-- Where the expanded source goes: nowhere if only a check is asked for, else to the named file or to
the output. -/
def deliver [Monad m] (host : Host m) (request : ExpandRequest) (output : Text) :
    m (Except Error Text) := do
  if request.check then return .ok []
  else
    match request.output with
    | none => return .ok output
    | some path =>
      match ← host.write path output with
      | .ok () => return .ok []
      | .error e => return .error (.unwritable path e)

/-- Reporting an expansion and writing its result. -/
def finish [Monad m] (host : Host m) (request : ExpandRequest) (r : Source.Report) : m Outcome := do
  let e ← host.surroundings
  let colored := (request.color.resolve e).isColored e
  let shown := diagnostics colored request.path r
  match ← deliver host request r.output with
  | .error e => return { stderr := shown, error := some e }
  | .ok stdout =>
    let failed := r.failures.length
    return {
      stdout
      stderr := shown ++ tally colored r
      error := if failed = 0 then none else some (.failedSites failed) }

/-- The command `expand`. -/
def expand [Monad m] (host : Host m) (request : ExpandRequest) : m Outcome := do
  match ← resolveSettings host request.config (some request.path) with
  | .error e => return { error := some e }
  | .ok settings =>
    match ← host.read request.path with
    | .error e => return { error := some (.unreadable request.path e) }
    | .ok source =>
      match ← host.tree request.path source with
      | none => return { error := some (.unparsed request.path) }
      | some tree =>
        let keep := request.keepAttributes || settings.outputOrDefault.keepAttributes
        match Source.expand source tree settings.style keep with
        | .error e => return { error := some (.misfit e) }
        | .ok report => finish host request report

/-! ### Writing one peer -/

/-- The command `generate`. -/
def generate [Monad m] (host : Host m) (request : GenerateRequest) : m Outcome := do
  match ← resolveSettings host request.config none with
  | .error e => return { error := some e }
  | .ok settings =>
    match ← host.read request.signature with
    | .error e => return { error := some (.unreadable request.signature e) }
    | .ok json =>
      match Exchange.renderPeer json request.generator request.format settings.style with
      | .error e => return { error := some (.noPeer e) }
      | .ok t => return { stdout := t ++ ['\n'] }

/-! ### Writing a settings file -/

/-- Writing the settings file of a directory; the path of the file. -/
def initIn [Monad m] (host : Host m) (directory : Text) (force : Bool) : m (Except Error Text) := do
  let path := Files.join directory Settings.fileName
  if (← host.contains path) && !force then return .error .settingsExist
  else
    match ← host.write path Settings.template with
    | .ok () => return .ok path
    | .error e => return .error (.unwritable path e)

/-- The command `init`. -/
def init [Monad m] (host : Host m) (force : Bool) : m Outcome := do
  match ← initIn host ['.'] force with
  | .error e => return { error := some e }
  | .ok _ =>
    return {
      stdout := "Created ".toList ++ Settings.fileName ++ " configuration file\n".toList }

/-- Running an invocation. -/
def run [Monad m] (host : Host m) (i : Invocation) : m Outcome :=
  match i.command with
  | .expand request => expand host request
  | .generate request => generate host request
  | .init force => init host force

end AsyncPeer.Command
