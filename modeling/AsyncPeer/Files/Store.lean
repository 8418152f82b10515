/-
# Stores and hosts

A store maps places to files and directories.  A place is the list of names on the way from the root.
Paths are followed part by part, and each part but the last has to be a directory.

A host is what a command needs from its surroundings: files, the working directory, the syntax tree of a
source, and what is known about colours.  The commands are written for any host.  A store with a working
directory is one, and reading and writing it is a matter of state; a real file system is another.
-/
import AsyncPeer.Diagnostic
import AsyncPeer.Files.Path

namespace AsyncPeer.Files

/-! ### Stores -/

/-- Why a file cannot be read or written. -/
inductive FileError where
  | notFound
  | notADirectory
  | isADirectory
  /-- The bytes of the file are no text. -/
  | notText
  /-- Any other cause, in the words of the system. -/
  | other (message : Text)
deriving DecidableEq, Repr

/-- The message for the user. -/
def FileError.message : FileError → Text
  | notFound => "No such file or directory (os error 2)".toList
  | notADirectory => "Not a directory (os error 20)".toList
  | isADirectory => "Is a directory (os error 21)".toList
  | notText => "stream did not contain valid UTF-8".toList
  | other message => message

/-- What is at a place. -/
inductive Entry where
  | directory
  /-- A file with a text. -/
  | file (content : Text)
  /-- A file whose bytes are no text. -/
  | binary (bytes : List UInt8)
deriving DecidableEq, Repr

/-- A file with the given bytes. -/
def Entry.ofBytes (bytes : List UInt8) : Entry :=
  match String.fromUTF8? ⟨bytes.toArray⟩ with
  | some s => .file s.toList
  | none => .binary bytes

/-- A place: the names on the way from the root. -/
abbrev Place := List Text

namespace Place

/-- The place below a directory that the names in a path lead to. -/
def below (directory : Place) (path : Text) : Place :=
  directory ++ (parts path).filter (· != ['.'])

/-- The absolute path of a place. -/
def path (p : Place) : Text :=
  if p.isEmpty then ['/'] else p.flatMap ('/' :: ·)

end Place

/-- Files and directories by place. -/
structure Store where
  /-- Each place at most once; the root is not listed. -/
  entries : List (Place × Entry) := []
deriving DecidableEq, Repr

namespace Store

/-- What is at a place.  The root is always a directory. -/
def get? (s : Store) (p : Place) : Option Entry :=
  if p = [] then some .directory else (s.entries.find? fun e => e.1 == p).map (·.2)

/-- The list of entries with the entry at a place replaced or added. -/
def putEntry (p : Place) (e : Entry) : List (Place × Entry) → List (Place × Entry)
  | [] => [(p, e)]
  | (q, f) :: rest => if q = p then (p, e) :: rest else (q, f) :: putEntry p e rest

/-- The store with something else at a place. -/
def put (s : Store) (p : Place) (e : Entry) : Store :=
  ⟨putEntry p e s.entries⟩

theorem find?_putEntry (p q : Place) (e : Entry) (es : List (Place × Entry)) :
    ((putEntry p e es).find? fun x => x.1 == q) =
      if q = p then some (p, e) else es.find? fun x => x.1 == q := by
  induction es with
  | nil =>
    by_cases h : q = p
    · simp [putEntry, h]
    · simp [putEntry, h, Ne.symm h]
  | cons x es ih =>
    obtain ⟨r, f⟩ := x
    by_cases hr : r = p
    · subst hr
      by_cases h : q = r
      · simp [putEntry, h]
      · simp [putEntry, h, Ne.symm h]
    · by_cases h : q = p
      · subst h
        simp [putEntry, hr, ih]
      · by_cases hq : r = q
        · subst hq
          simp [putEntry, hr]
        · simp [putEntry, hr, hq, h, ih]

/-- Writing a place changes this place and no other. -/
theorem get?_put (s : Store) {p : Place} (hp : p ≠ []) (q : Place) (e : Entry) :
    (s.put p e).get? q = if q = p then some e else s.get? q := by
  by_cases hq : q = []
  · subst hq
    simp [get?, Ne.symm hp]
  · simp only [get?, put, hq, if_false, find?_putEntry]
    split <;> simp

/-- The place that parts of a path lead to.  Nothing has to be there, but everything in front of it has
to be a directory.  A dot stays in a directory, and two dots go to the one above it. -/
def follow (s : Store) : (start : Place) → List Text → Except FileError Place
  | place, [] => .ok place
  | place, part :: parts =>
    match s.get? place with
    | none => .error .notFound
    | some .directory =>
      if part = ['.'] then s.follow place parts
      else if part = ['.', '.'] then s.follow place.dropLast parts
      else s.follow (place ++ [part]) parts
    | some _ => .error .notADirectory

/-- The place that a written path leads to from a working directory. -/
def locate (s : Store) (directory : Place) (path : Text) : Except FileError Place :=
  if path.isEmpty then .error .notFound
  else s.follow (if isAbsolute path then [] else directory) (parts path)

/-- The text of the file at a path. -/
def read (s : Store) (directory : Place) (path : Text) : Except FileError Text :=
  match s.locate directory path with
  | .error e => .error e
  | .ok p =>
    match s.get? p with
    | none => .error .notFound
    | some .directory => .error .isADirectory
    | some (.file content) => if meansDirectory path then .error .notADirectory else .ok content
    | some (.binary _) => .error (if meansDirectory path then .notADirectory else .notText)

/-- The store after the file at a path was written.  The directory it belongs to has to be there. -/
def write (s : Store) (directory : Place) (path content : Text) : Except FileError Store :=
  match s.locate directory path with
  | .error e => .error e
  | .ok p =>
    match s.get? p with
    | some .directory => .error .isADirectory
    | _ => if meansDirectory path then .error .isADirectory else .ok (s.put p (.file content))

/-- There is something at a path. -/
def contains (s : Store) (directory : Place) (path : Text) : Bool :=
  match s.locate directory path with
  | .error _ => false
  | .ok p =>
    match s.get? p with
    | none => false
    | some .directory => true
    | some _ => !meansDirectory path

/-- The store with directories at all places on the way to a place, and at the place itself. -/
def makeDirectories (s : Store) (p : Place) : Store :=
  ((List.range p.length).map fun n => p.take (n + 1)).foldl
    (fun s q => if (s.get? q).isSome then s else s.put q .directory) s

/-- The store with something at a place and with the directories that this needs. -/
def add (s : Store) (p : Place) (e : Entry) : Store :=
  (s.makeDirectories p.dropLast).put p e

/-- The files with a text that a later store has and an earlier one has not. -/
def changes (before after : Store) : List (Place × Text) :=
  after.entries.filterMap fun (p, e) =>
    match e with
    | .file content => if before.get? p == some e then none else some (p, content)
    | _ => none

end Store

/-! ### Hosts -/

/-- The surroundings of a command. -/
structure Host (m : Type → Type) where
  /-- The text of the file at a path. -/
  read : (path : Text) → m (Except FileError Text)
  /-- Writing the file at a path. -/
  write : (path content : Text) → m (Except FileError Unit)
  /-- There is something at a path. -/
  contains : (path : Text) → m Bool
  /-- The absolute path of the working directory, if it can be had. -/
  workingDirectory : m (Option Text)
  /-- The syntax tree of the source at a path, if it can be had. -/
  tree : (path source : Text) → m (Option Source.Node)
  /-- What is known about colours. -/
  surroundings : m Surroundings

/-- The host with the given working directory in a store, where every source has the given tree. -/
def Host.ofStore (directory : Place) (tree : Option Source.Node) : Host (StateM Store) where
  read path := return (← get).read directory path
  write path content := do
    match (← get).write directory path content with
    | .ok s => set s; return .ok ()
    | .error e => return .error e
  contains path := return (← get).contains directory path
  workingDirectory := return some directory.path
  tree _ _ := return tree
  surroundings := return {}

end AsyncPeer.Files
