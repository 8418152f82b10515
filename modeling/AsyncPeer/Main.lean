/-
# The program

The commands on a real file system.  The syntax tree of a source is read from the file of the same
name with `.tree.json` behind it, where a parser has to put it first.
-/
import AsyncPeer.Command
import AsyncPeer.Exchange.Tree

namespace AsyncPeer

open Files (FileError Host)

/-- What a failure of the system means for a file. -/
def Files.FileError.ofFailure : IO.Error → FileError
  | .noFileOrDirectory .. => .notFound
  | .inappropriateType _ _ details =>
    if details == "not a directory" then .notADirectory else .isADirectory
  | e => .other (toString e).toList

/-- An action on a file, with its failure as a value. -/
def attempt (action : IO α) : IO (Except FileError α) := do
  try return .ok (← action)
  catch e => return .error (.ofFailure e)

/-- The text of the file at a path. -/
def readText (path : Text) : IO (Except FileError Text) := do
  match ← attempt (IO.FS.readBinFile (String.ofList path)) with
  | .error e => return .error e
  | .ok bytes =>
    match String.fromUTF8? bytes with
    | some s => return .ok s.toList
    | none => return .error .notText

/-- A variable of the surroundings. -/
def lookup (name : String) : IO (Option Text) := do
  return (← IO.getEnv name).map String.toList

/-- The host that the program runs on. -/
def host : Host IO where
  read := readText
  write path content := attempt (IO.FS.writeFile (String.ofList path) (String.ofList content))
  contains path := do
    match ← attempt (IO.FS.readBinFile (String.ofList path)) with
    | .error e => return e != .notFound && e != .notADirectory
    | .ok _ => return true
  workingDirectory := do
    return (← attempt IO.currentDir).toOption.map fun path => path.toString.toList
  tree path _ := do
    match ← readText (path ++ ".tree.json".toList) with
    | .ok t => return Exchange.parseTree? t
    | .error _ => return none
  surroundings := do
    return {
      noColor := ← lookup "NO_COLOR"
      cliColor := ← lookup "CLICOLOR"
      cliColorForce := ← lookup "CLICOLOR_FORCE"
      term := ← lookup "TERM"
      isTerminal := ← (← IO.getStderr).isTty }

end AsyncPeer

open AsyncPeer in
/-- Runs the command that the arguments spell; 0 if it succeeds, 1 if it ends with an error, 2 if there
is no command in the arguments. -/
def main (arguments : List String) : IO UInt32 := do
  match CommandLine.parse (arguments.map String.toList) with
  | .error .help | .error .version =>
    IO.println "commands: expand, generate, init"
    return 0
  | .error _ =>
    IO.eprintln "commands: expand, generate, init"
    return 2
  | .ok invocation =>
    let outcome ← Command.run host invocation
    IO.print (String.ofList outcome.stdout)
    IO.eprint (String.ofList outcome.stderr)
    match outcome.error with
    | none => return 0
    | some e =>
      IO.eprintln ("Error: " ++ String.ofList e.message)
      return 1
