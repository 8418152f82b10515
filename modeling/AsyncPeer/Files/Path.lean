/-
# Paths

Paths as they are written, with slashes between their parts.  Where the end of a path is cut off,
empty parts and dots count for nothing, except for a dot at the very beginning; two dots are a part
like any other, because what they lead to depends on the files.
-/
import AsyncPeer.Text.Basic

namespace AsyncPeer.Files

/-- The beginning of a path that has no part above it: the slash of an absolute path, or a dot. -/
def splitLead (path : Text) : Text × Text :=
  match path with
  | '/' :: rest => (['/'], rest)
  | ['.'] => (['.'], [])
  | '.' :: '/' :: rest => (['.'], '/' :: rest)
  | _ => ([], path)

/-- The last part of a path written backwards. -/
def lastPart (backwards : Text) : Text :=
  backwards.takeWhile (· != '/')

/-- What stands in front of the last part and its slash, all written backwards. -/
def beforeLastPart (backwards : Text) : Text :=
  (backwards.dropWhile (· != '/')).tail

theorem length_beforeLastPart_lt {t : Text} (h : t ≠ []) :
    (beforeLastPart t).length < t.length := by
  have hd := Text.length_dropWhile_le (· != '/') t
  have hpos := List.length_pos_iff.2 h
  rw [beforeLastPart, List.length_tail]
  omega

/-- A path written backwards without the empty parts and dots at its end. -/
def trimParts (backwards : Text) : Text :=
  if _h : backwards = [] then []
  else if lastPart backwards = [] ∨ lastPart backwards = ['.'] then
    trimParts (beforeLastPart backwards)
  else backwards
termination_by backwards.length
decreasing_by exact length_beforeLastPart_lt _h

/-- The path without its last part.  The root and the empty path have none. -/
def parent? (path : Text) : Option Text :=
  let (lead, body) := splitLead path
  match trimParts body.reverse with
  | [] => if lead = ['.'] then some [] else none
  | backwards => some (lead ++ (trimParts (beforeLastPart backwards)).reverse)

/-- The name below a directory. -/
def join (directory name : Text) : Text :=
  if directory.isEmpty then name
  else if directory.getLast? == some '/' then directory ++ name
  else directory ++ '/' :: name

/-- A directory and those above it, at most `limit` together, as far as its path tells. -/
def ancestors : (limit : Nat) → (directory : Text) → List Text
  | 0, _ => []
  | limit + 1, directory =>
    directory ::
      match parent? directory with
      | some above => ancestors limit above
      | none => []

/-- The path is absolute. -/
def isAbsolute (path : Text) : Bool :=
  path.head? == some '/'

/-- The parts of a path. -/
def parts (path : Text) : List Text :=
  (path.fields (· == '/')).filter fun p => !p.isEmpty

/-- The path ends with a slash, so that it can only mean a directory. -/
def meansDirectory (path : Text) : Bool :=
  path.getLast? == some '/'

end AsyncPeer.Files
