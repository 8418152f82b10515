/-
# Which settings file decides

The settings of a directory should come from the nearest file: the first of the candidates that can
be read decides, and if it is turned down, the defaults apply.  `nearest` says so.  The search itself
does not tell a file that is turned down from one that is not there: it takes the first candidate that
is accepted (`near_run`), and so a file farther up may take effect.  `PassedOver` describes the file
systems in which this can be noticed, and `near_eq_nearest_iff` shows that there are no others.

A file system enters only by the answers that its files give, which reading does not change.
-/
import AsyncPeer.Settings.File
import Mathlib.Tactic.Common

namespace AsyncPeer

/-- In the given state, reading gives the answers of `files` and changes nothing. -/
def Files.Host.Shows {σ : Type} (host : Host (StateM σ)) (s : σ)
    (files : Text → Except FileError Text) : Prop :=
  ∀ path, (host.read path).run s = (files path, s)

lemma Files.Host.shows_ofStore (directory : Place) (tree : Option Source.Node) (s : Store) :
    (ofStore directory tree).Shows s (s.read directory) :=
  fun _ => rfl

namespace Settings

open Files (Host Store)

/-- The settings in the file at a path, if it can be read and is accepted. -/
def accepted? (files : Text → Except Files.FileError Text) (path : Text) : Option Settings :=
  (files path).toOption.bind fun t => (parse t).toOption

/-- The settings of the first file that can be read: the defaults if it is turned down, or if there is
none. -/
def nearest (files : Text → Except Files.FileError Text) (paths : List Text) : Settings :=
  match paths.findSome? fun path => (files path).toOption with
  | some t => (parse t).toOption.getD {}
  | none => {}

/-- The settings of the first file that is accepted, and the defaults if there is none. -/
def nearestAccepted (files : Text → Except Files.FileError Text) (paths : List Text) : Settings :=
  (paths.findSome? (accepted? files)).getD {}

/-- The first file that can be read is turned down, and among the files behind it there is one that is
accepted; the first of these gives other settings than the defaults. -/
inductive PassedOver (files : Text → Except Files.FileError Text) : List Text → Prop
  | here {path : Text} {paths : List Text} {t : Text} {reason : FileError} {farther : Settings}
      (hread : files path = .ok t) (hreason : parse t = .error reason)
      (hfarther : paths.findSome? (accepted? files) = some farther) (hne : farther ≠ {}) :
    PassedOver files (path :: paths)
  | above {path : Text} {paths : List Text} {e : Files.FileError}
      (hread : files path = .error e) (h : PassedOver files paths) : PassedOver files (path :: paths)

/-! ### The run of the search -/

section Run

variable {σ α β : Type} {host : Host (StateM σ)} {s : σ}
  {files : Text → Except Files.FileError Text}

/-- What comes after a computation that changes nothing. -/
lemma run_bind_of_run {x : StateM σ α} {a : α} (hx : x.run s = (a, s)) (f : α → StateM σ β) :
    (x >>= f).run s = (f a).run s := by
  rw [StateT.run_bind, hx]
  rfl

/-- One step of the search. -/
lemma load?_run (h : host.Shows s files) (path : Text) :
    (load? host path).run s = (accepted? files path, s) := by
  rw [load?, run_bind_of_run (h path), accepted?]
  cases files path <;> rfl

/-- The search through any paths. -/
lemma findSomeM?_load?_run (h : host.Shows s files) (paths : List Text) :
    (paths.findSomeM? (load? host)).run s = (paths.findSome? (accepted? files), s) := by
  induction paths with
  | nil => rfl
  | cons path paths ih =>
    rw [List.findSomeM?, run_bind_of_run (load?_run h path), List.findSome?_cons]
    cases accepted? files path with
    | none => exact ih
    | some settings => rfl

/-- The search gives the settings of the first candidate that is accepted, and changes nothing. -/
lemma near_run (h : host.Shows s files) (directory : Text) :
    (near host directory).run s = (nearestAccepted files (candidates directory), s) := by
  rw [near, run_bind_of_run (findSomeM?_load?_run h _)]
  rfl

/-- In the working directory the search begins there, or the defaults apply if it cannot be had. -/
lemma here_run (h : host.Shows s files) {directory : Option Text}
    (hdirectory : host.workingDirectory.run s = (directory, s)) :
    (here host).run s =
      ((directory.map fun d => nearestAccepted files (candidates d)).getD {}, s) := by
  rw [here, run_bind_of_run hdirectory]
  cases directory with
  | none => rfl
  | some d => exact near_run h d

end Run

/-! ### The nearest file -/

section Nearest

variable {files : Text → Except Files.FileError Text} {path : Text} (paths : List Text)

lemma accepted?_of_error {e : Files.FileError} (h : files path = .error e) :
    accepted? files path = none := by
  rw [accepted?, h]
  rfl

lemma accepted?_of_ok {t : Text} (h : files path = .ok t) :
    accepted? files path = (parse t).toOption := by
  rw [accepted?, h]
  rfl

lemma nearest_cons_of_error {e : Files.FileError} (h : files path = .error e) :
    nearest files (path :: paths) = nearest files paths := by
  rw [nearest, List.findSome?_cons, h]
  rfl

lemma nearest_cons_of_ok {t : Text} (h : files path = .ok t) :
    nearest files (path :: paths) = (parse t).toOption.getD {} := by
  rw [nearest, List.findSome?_cons, h]
  rfl

lemma nearestAccepted_cons :
    nearestAccepted files (path :: paths) =
      (accepted? files path).getD (nearestAccepted files paths) := by
  rw [nearestAccepted, List.findSome?_cons]
  cases accepted? files path <;> rfl

lemma passedOver_cons_iff_of_error {e : Files.FileError} (h : files path = .error e) :
    PassedOver files (path :: paths) ↔ PassedOver files paths := by
  refine ⟨?_, .above h⟩
  rintro (⟨hread, -, -, -⟩ | ⟨-, habove⟩)
  · cases h.symm.trans hread
  · exact habove

lemma passedOver_cons_iff_of_ok {t : Text} (h : files path = .ok t) :
    PassedOver files (path :: paths) ↔
      (∃ reason, parse t = .error reason) ∧ nearestAccepted files paths ≠ {} := by
  constructor
  · rintro (⟨hread, hreason, hfarther, hne⟩ | ⟨hread, -⟩)
    · cases h.symm.trans hread
      rw [nearestAccepted, hfarther]
      exact ⟨⟨_, hreason⟩, hne⟩
    · cases h.symm.trans hread
  · rintro ⟨⟨reason, hreason⟩, hne⟩
    cases hfarther : paths.findSome? (accepted? files) with
    | none => exact absurd (by rw [nearestAccepted, hfarther]; rfl) hne
    | some farther =>
      rw [nearestAccepted, hfarther] at hne
      exact .here h hreason hfarther hne

/-- The first accepted file gives the settings of the first file that can be read, unless a file is
passed over.  Paths at which nothing can be read are left out one by one. -/
lemma nearestAccepted_eq_nearest_iff :
    nearestAccepted files paths = nearest files paths ↔ ¬ PassedOver files paths := by
  induction paths with
  | nil => exact iff_of_true rfl (by rintro ⟨⟩)
  | cons path paths ih =>
    rw [nearestAccepted_cons]
    cases hf : files path with
    | error e =>
      rw [accepted?_of_error hf, nearest_cons_of_error paths hf, passedOver_cons_iff_of_error paths hf]
      exact ih
    | ok t =>
      rw [accepted?_of_ok hf, nearest_cons_of_ok paths hf, passedOver_cons_iff_of_ok paths hf]
      cases parse t with
      | ok settings => exact iff_of_true rfl (by rintro ⟨⟨reason, ⟨⟩⟩, -⟩)
      | error reason => simp [Except.toOption]

instance : Decidable (PassedOver files paths) :=
  decidable_of_iff (nearestAccepted files paths ≠ nearest files paths)
    (by rw [ne_eq, nearestAccepted_eq_nearest_iff, not_not])

end Nearest

/-- In every file system and from every directory on, the search gives the settings of the first
candidate that is accepted.  They are those of the first candidate that can be read, or the defaults
if it is turned down, exactly if no file is passed over. -/
theorem near_eq_nearest_iff {σ : Type} {host : Host (StateM σ)} {s : σ}
    {files : Text → Except Files.FileError Text} (h : host.Shows s files) (directory : Text) :
    (near host directory).run s = (nearestAccepted files (candidates directory), s) ∧
    ((near host directory).run s = (nearest files (candidates directory), s) ↔
      ¬ PassedOver files (candidates directory)) := by
  refine ⟨near_run h directory, ?_⟩
  rw [near_run h directory, Prod.mk.injEq, and_iff_left rfl]
  exact nearestAccepted_eq_nearest_iff _

/-- A file that is accepted, and something at the place of such a file in a directory below. -/
def twoLevels (below : Files.Entry) : Store :=
  (({} : Store).add [fileName] (.file "[output]\nindent = 2\n".toList)).add
    ["sub".toList, fileName] below

/-- A file whose bytes are no text does not count, and the file above it decides. -/
theorem near_twoLevels_binary :
    (near (Host.ofStore [] none) "sub".toList).run (twoLevels (.binary [0xff])) =
        (nearest ((twoLevels (.binary [0xff])).read []) (candidates "sub".toList),
          twoLevels (.binary [0xff])) ∧
      nearest ((twoLevels (.binary [0xff])).read []) (candidates "sub".toList) =
        { output := some { indent := 2 } } := by
  have h := near_eq_nearest_iff (Host.shows_ofStore [] none (twoLevels (.binary [0xff]))) "sub".toList
  exact ⟨h.2.2 (by decide +kernel), by decide +kernel⟩

/-- A file that is turned down should leave the defaults, but the file above it takes effect. -/
theorem near_twoLevels_malformed :
    (near (Host.ofStore [] none) "sub".toList).run
          (twoLevels (.file "[output\nindent = ".toList)) =
        ({ output := some { indent := 2 } }, twoLevels (.file "[output\nindent = ".toList)) ∧
      nearest ((twoLevels (.file "[output\nindent = ".toList)).read []) (candidates "sub".toList) =
        {} := by
  rw [near_run (Host.shows_ofStore [] none _), Prod.mk.injEq]
  decide +kernel

/-! ### The file of a new project -/

/-- The file of a new project is accepted, and spells out the defaults. -/
lemma parse_template : parse template =
    .ok { output := some {}, naming := some {}, arguments := some {}, modifiers := some {} } := by
  decide +kernel

/-- From a directory with the file of a new project on, the search gives the defaults, whatever there is
above it. -/
theorem near_run_template {σ : Type} {host : Host (StateM σ)} {s : σ}
    {files : Text → Except Files.FileError Text} (h : host.Shows s files) {directory : Text}
    (hfile : files (Files.join directory fileName) = .ok template) :
    ∃ settings, (near host directory).run s = (settings, s) ∧
      settings.style = style {} ∧ settings.outputOrDefault = outputOrDefault {} := by
  obtain ⟨above, habove⟩ : ∃ above, candidates directory = Files.join directory fileName :: above :=
    ⟨_, rfl⟩
  refine ⟨_, near_run h directory, ?_⟩
  rw [habove, nearestAccepted_cons, accepted?_of_ok hfile, parse_template]
  exact ⟨rfl, rfl⟩

end Settings

end AsyncPeer
