/-
# Relative paths and the search for settings

A source can be named by a relative path or by the absolute path of the same file, and one would
expect to get the same settings.  A path that names no directory is looked up from the working
directory on, all the way up.  A relative path that names a directory is not: its parts are all that
the search sees, so that it ends in the working directory, while the search from the absolute path goes
on above it (`Files.ancestors_under`).

`CutShort` describes the file systems in which the difference can be noticed: no file is accepted from
the directory of the source up to the working directory, and one farther up is, which does not say the
same as the defaults.  `resolveSettings_relative_iff` shows that there are no others.
-/
import AsyncPeer.Command
import AsyncPeer.Proofs.Discovery
import AsyncPeer.Proofs.Layout
import Mathlib.Data.List.Induction

namespace AsyncPeer

namespace Files

/-! ### Cutting parts off -/

lemma lastPart_append_slash (x z : Text) : lastPart (x ++ '/' :: z) = lastPart x := by
  induction x with
  | nil => rfl
  | cons c x ih =>
    rw [lastPart, lastPart, List.cons_append, List.takeWhile_cons, List.takeWhile_cons]
    split
    · exact congrArg (c :: ·) ih
    · rfl

/-- A text written backwards is its last part, or its last part and a slash in front of the rest. -/
lemma eq_lastPart_or (x : Text) :
    (lastPart x = x ∧ beforeLastPart x = []) ∨ x = lastPart x ++ '/' :: beforeLastPart x := by
  induction x with
  | nil => exact Or.inl ⟨rfl, rfl⟩
  | cons c x ih =>
    rw [lastPart, beforeLastPart, List.takeWhile_cons, List.dropWhile_cons]
    by_cases hc : c = '/'
    · subst hc
      exact Or.inr rfl
    · rw [if_pos (by simpa using hc), if_pos (by simpa using hc)]
      rcases ih with ⟨hlast, hbefore⟩ | hsplit
      · exact Or.inl ⟨congrArg (c :: ·) hlast, hbefore⟩
      · exact Or.inr (congrArg (c :: ·) hsplit)

/-- The rest behind the last part, in a text that a slash and something else follow. -/
lemma beforeLastPart_append_slash (x z : Text) :
    (beforeLastPart x = [] ∧ beforeLastPart (x ++ '/' :: z) = z) ∨
      beforeLastPart (x ++ '/' :: z) = beforeLastPart x ++ '/' :: z := by
  have hsplit : x ++ '/' :: z = lastPart x ++ '/' :: beforeLastPart (x ++ '/' :: z) := by
    rcases eq_lastPart_or (x ++ '/' :: z) with ⟨hall, -⟩ | hsplit
    · rw [lastPart_append_slash] at hall
      have hlen := congrArg List.length hall
      have hle := (List.takeWhile_prefix (p := (· != '/')) (l := x)).length_le
      simp only [lastPart, List.length_append, List.length_cons] at hlen hle
      omega
    · rwa [lastPart_append_slash] at hsplit
  rcases eq_lastPart_or x with ⟨hlast, hbefore⟩ | hx
  · rw [hlast] at hsplit
    exact Or.inl ⟨hbefore, (List.cons.inj (List.append_cancel_left hsplit)).2.symm⟩
  · right
    have hsplit' : lastPart x ++ '/' :: (beforeLastPart x ++ '/' :: z) =
        lastPart x ++ '/' :: beforeLastPart (x ++ '/' :: z) := by
      rw [← hsplit]
      nth_rewrite 3 [hx]
      simp
    exact (List.cons.inj (List.append_cancel_left hsplit')).2.symm

lemma trimParts_nil : trimParts [] = [] := by
  rw [trimParts]
  rfl

lemma trimParts_of_last {x : Text} (hx : x ≠ []) (h : lastPart x = [] ∨ lastPart x = ['.']) :
    trimParts x = trimParts (beforeLastPart x) := by
  rw [trimParts, dif_neg hx, if_pos h]

lemma trimParts_eq_self {x : Text} (h : ¬(lastPart x = [] ∨ lastPart x = ['.'])) :
    trimParts x = x := by
  have hx : x ≠ [] := by
    rintro rfl
    exact h (Or.inl rfl)
  rw [trimParts, dif_neg hx, if_neg h]

/-- Trimming reaches what is behind a slash only if nothing is left in front of it. -/
lemma trimParts_append_slash (x z : Text) :
    trimParts (x ++ '/' :: z) = if trimParts x = [] then trimParts z else trimParts x ++ '/' :: z := by
  fun_induction trimParts x with
  | case1 => exact trimParts_of_last (by simp) (Or.inl rfl)
  | case2 x hx hlast ih =>
    rw [trimParts_of_last (by simp) (by rwa [lastPart_append_slash])]
    rcases beforeLastPart_append_slash x z with ⟨hbefore, hz⟩ | hbefore
    · rw [hz, hbefore, trimParts_nil, if_pos rfl]
    · rw [hbefore, ih]
  | case3 x hx hlast =>
    rw [if_neg hx, trimParts_eq_self (by rwa [lastPart_append_slash])]

/-- So does trimming behind the last part. -/
lemma trimParts_beforeLastPart_append_slash (x z : Text) :
    trimParts (beforeLastPart (x ++ '/' :: z)) =
      if trimParts (beforeLastPart x) = [] then trimParts z
      else trimParts (beforeLastPart x) ++ '/' :: z := by
  rcases beforeLastPart_append_slash x z with ⟨hbefore, hz⟩ | hbefore
  · rw [hz, hbefore, trimParts_nil, if_pos rfl]
  · rw [hbefore, trimParts_append_slash]

lemma parent?_of_splitLead {path lead body : Text} (hlead : splitLead path = (lead, body))
    (hne : trimParts body.reverse ≠ []) :
    parent? path = some (lead ++ (trimParts (beforeLastPart (trimParts body.reverse))).reverse) := by
  simp only [parent?, hlead]

/-! ### Relative paths -/

/-- A relative path in which no part is a dot or two dots. -/
structure IsRelative (path : Text) : Prop where
  notAbsolute : isAbsolute path = false
  named : ∀ part ∈ parts path, part ≠ ['.'] ∧ part ≠ ['.', '.']

instance (path : Text) : Decidable (IsRelative path) :=
  decidable_of_iff (isAbsolute path = false ∧ ∀ part ∈ parts path, part ≠ ['.'] ∧ part ≠ ['.', '.'])
    ⟨fun ⟨h1, h2⟩ => ⟨h1, h2⟩, fun ⟨h1, h2⟩ => ⟨h1, h2⟩⟩

lemma parts_append_slash (x y : Text) : parts (x ++ '/' :: y) = parts x ++ parts y := by
  rw [parts, Text.fields_append_sep (by decide), List.filter_append]
  rfl

/-- A text that does not begin with a slash has a part. -/
lemma parts_ne_nil {path : Text} (hne : path ≠ []) (h : isAbsolute path = false) :
    parts path ≠ [] := by
  obtain ⟨c, cs, rfl⟩ := List.exists_cons_of_ne_nil hne
  have hc : (c == '/') = false := by simpa [isAbsolute] using h
  obtain ⟨f, fs, hf⟩ := List.exists_cons_of_ne_nil (Text.fields_ne_nil (· == '/') cs)
  simp [parts, Text.fields, hc, hf]

/-- Nothing is left by trimming only where there are no parts but dots. -/
lemma eq_dot_of_trimParts_eq_nil {x : Text} (h : trimParts x = []) :
    ∀ part ∈ parts x.reverse, part = ['.'] := by
  fun_induction trimParts x with
  | case1 => exact fun part hpart => nomatch hpart
  | case2 x hx hlast ih =>
    have hdots : ∀ part ∈ parts (lastPart x).reverse, part = ['.'] := by
      rcases hlast with hlast | hlast <;> rw [hlast] <;> decide
    rcases eq_lastPart_or x with ⟨hall, -⟩ | hsplit
    · rwa [hall] at hdots
    · intro part hpart
      rw [hsplit, List.reverse_append, List.reverse_cons, List.append_assoc, List.singleton_append,
        parts_append_slash, List.mem_append] at hpart
      rcases hpart with hpart | hpart
      · exact ih h part hpart
      · exact hdots part hpart
  | case3 x hx hlast => exact absurd h hx

/-- What is left of a text, written backwards, when some parts are cut off. -/
def IsTail (z x : Text) : Prop :=
  z = [] ∨ z = x ∨ ∃ y, x = y ++ '/' :: z

lemma IsTail.trans {w z x : Text} (hw : IsTail w z) (hz : IsTail z x) : IsTail w x := by
  rcases hw with rfl | rfl | ⟨y, rfl⟩
  · exact Or.inl rfl
  · exact hz
  · rcases hz with h | rfl | ⟨u, rfl⟩
    · exact absurd h (by simp)
    · exact Or.inr (Or.inr ⟨y, rfl⟩)
    · exact Or.inr (Or.inr ⟨u ++ '/' :: y, by simp⟩)

lemma isTail_beforeLastPart (x : Text) : IsTail (beforeLastPart x) x := by
  rcases eq_lastPart_or x with ⟨-, hbefore⟩ | hsplit
  · exact Or.inl hbefore
  · exact Or.inr (Or.inr ⟨lastPart x, hsplit⟩)

lemma isTail_trimParts (x : Text) : IsTail (trimParts x) x := by
  fun_induction trimParts x with
  | case1 => exact Or.inl rfl
  | case2 x hx hlast ih => exact ih.trans (isTail_beforeLastPart x)
  | case3 x hx hlast => exact Or.inr (Or.inl rfl)

namespace IsRelative

variable {path : Text}

lemma nil : IsRelative [] := by
  decide

lemma splitLead_eq (h : IsRelative path) : splitLead path = ([], path) := by
  have habsolute := h.notAbsolute
  unfold splitLead
  split
  · simp [isAbsolute] at habsolute
  · exact absurd rfl (h.named ['.'] (by decide)).1
  · next rest =>
    have hdot : ['.'] ∈ parts ('.' :: '/' :: rest) := by
      rw [← List.singleton_append, parts_append_slash]
      exact List.mem_append_left _ (by decide)
    exact absurd rfl (h.named ['.'] hdot).1
  · rfl

lemma trimParts_ne_nil (h : IsRelative path) (hne : path ≠ []) : trimParts path.reverse ≠ [] := by
  intro hnil
  obtain ⟨part, ps, hparts⟩ := List.exists_cons_of_ne_nil (parts_ne_nil hne h.notAbsolute)
  have hmem : part ∈ parts path := by simp [hparts]
  have hdot := eq_dot_of_trimParts_eq_nil hnil part (by rwa [List.reverse_reverse])
  exact (h.named part hmem).1 hdot

lemma of_isTail {z : Text} (h : IsRelative path) (hz : IsTail z path.reverse) :
    IsRelative z.reverse := by
  rcases hz with rfl | rfl | ⟨y, hy⟩
  · exact nil
  · rwa [List.reverse_reverse]
  · have hpath : path = z.reverse ++ '/' :: y.reverse := by
      rw [← List.reverse_reverse path, hy]
      simp
    rw [hpath] at h
    refine ⟨?_, fun part hpart => h.named part ?_⟩
    · have habsolute := h.notAbsolute
      cases hrev : z.reverse with
      | nil => rfl
      | cons c cs => rwa [hrev] at habsolute
    · rw [parts_append_slash]
      exact List.mem_append_left _ hpart

end IsRelative

/-! ### Absolute paths of relative ones -/

/-- A name in a directory. -/
structure IsName (name : Text) : Prop where
  nonempty : name ≠ []
  noSlash : '/' ∉ name
  notDot : name ≠ ['.']
  notDots : name ≠ ['.', '.']

instance (name : Text) : Decidable (IsName name) :=
  decidable_of_iff (name ≠ [] ∧ '/' ∉ name ∧ name ≠ ['.'] ∧ name ≠ ['.', '.'])
    ⟨fun ⟨h1, h2, h3, h4⟩ => ⟨h1, h2, h3, h4⟩, fun ⟨h1, h2, h3, h4⟩ => ⟨h1, h2, h3, h4⟩⟩

/-- The path seen from a directory; the empty path means the directory itself. -/
def under (directory path : Text) : Text :=
  if path = [] then directory else join directory path

lemma under_nil (directory : Text) : under directory [] = directory :=
  if_pos rfl

lemma under_of_ne_nil (directory : Text) {path : Text} (h : path ≠ []) :
    under directory path = join directory path :=
  if_neg h

lemma lastPart_of_noSlash {x : Text} (h : '/' ∉ x) : lastPart x = x := by
  refine List.takeWhile_eq_self_iff.2 fun c hc => ?_
  have hne : c ≠ '/' := by
    rintro rfl
    exact h hc
  simpa using hne

/-- The path of a place is a slash, or it ends with a name. -/
lemma path_eq {directory : Place} (h : ∀ name ∈ directory, IsName name) :
    directory.path = ['/'] ∨ ∃ w, directory.path = '/' :: w ∧
      ¬(lastPart w.reverse = [] ∨ lastPart w.reverse = ['.']) := by
  rcases directory.eq_nil_or_concat' with rfl | ⟨front, name, rfl⟩
  · exact Or.inl rfl
  · right
    have hname := h name (by simp)
    have hlast : ∀ x, lastPart (x ++ '/' :: name).reverse = name.reverse := by
      intro x
      rw [List.reverse_append, List.reverse_cons, List.append_assoc, List.singleton_append,
        lastPart_append_slash, lastPart_of_noSlash (by simpa using hname.noSlash)]
    have hproper : ¬(name.reverse = [] ∨ name.reverse = ['.']) := by
      rintro (hnil | hdot)
      · exact hname.nonempty (by simpa using hnil)
      · exact hname.notDot (by simpa using hdot)
    cases front with
    | nil =>
      refine ⟨name, by simp [Place.path], ?_⟩
      rwa [lastPart_of_noSlash (by simpa using hname.noSlash)]
    | cons first front =>
      refine ⟨first ++ front.flatMap ('/' :: ·) ++ '/' :: name, by simp [Place.path], ?_⟩
      rwa [hlast]

lemma path_ne_nil (directory : Place) : directory.path ≠ [] := by
  cases directory with
  | nil => decide
  | cons name names => simp [Place.path]

lemma join_of_last {directory path : Text} (hne : directory ≠ [])
    (hlast : directory.getLast? ≠ some '/') : join directory path = directory ++ '/' :: path := by
  rw [join, if_neg (by simpa using hne), if_neg (by simpa using hlast)]

/-- The directory above a relative path is relative, and seen from a place it is the directory above the
path. -/
lemma IsRelative.exists_parent {path : Text} (h : IsRelative path) (hne : path ≠ []) :
    ∃ above, parent? path = some above ∧ IsRelative above ∧
      ∀ directory : Place, (∀ name ∈ directory, IsName name) →
        parent? (under directory.path path) = some (under directory.path above) := by
  have htrim := h.trimParts_ne_nil hne
  refine ⟨_, parent?_of_splitLead h.splitLead_eq htrim, ?_, fun directory hnames => ?_⟩
  · rw [List.nil_append]
    exact h.of_isTail ((isTail_trimParts _).trans ((isTail_beforeLastPart _).trans (isTail_trimParts _)))
  rw [List.nil_append, under_of_ne_nil _ hne]
  rcases path_eq hnames with hpath | ⟨w, hpath, hlast⟩
  · have hjoin : join directory.path path = '/' :: path := by
      rw [hpath]
      rfl
    have hlead : splitLead ('/' :: path) = (['/'], path) := rfl
    rw [hjoin, parent?_of_splitLead hlead htrim, hpath]
    by_cases hnil : (trimParts (beforeLastPart (trimParts path.reverse))).reverse = []
    · rw [hnil, under_nil]
      rfl
    · rw [under_of_ne_nil _ hnil]
      rfl
  · have hend : ('/' :: w).getLast? ≠ some '/' := by
      intro hslash
      rcases w.eq_nil_or_concat' with rfl | ⟨u, c, rfl⟩
      · exact hlast (Or.inl rfl)
      · rw [← List.cons_append, List.getLast?_concat] at hslash
        obtain rfl := Option.some.inj hslash
        exact hlast (Or.inl (by simp [lastPart]))
    have hjoin : ∀ p, join directory.path p = '/' :: (w ++ '/' :: p) := by
      intro p
      rw [hpath, join_of_last (by simp) hend]
      rfl
    have hbody : (w ++ '/' :: path).reverse = path.reverse ++ '/' :: w.reverse := by
      simp
    have hwhole : trimParts (path.reverse ++ '/' :: w.reverse) =
        trimParts path.reverse ++ '/' :: w.reverse := by
      rw [trimParts_append_slash, if_neg htrim]
    have hlead : splitLead ('/' :: (w ++ '/' :: path)) = (['/'], w ++ '/' :: path) := rfl
    rw [hjoin, parent?_of_splitLead hlead (by rw [hbody, hwhole]; simp), hbody, hwhole,
      trimParts_beforeLastPart_append_slash, trimParts_eq_self hlast]
    by_cases hnil : trimParts (beforeLastPart (trimParts path.reverse)) = []
    · rw [hnil, if_pos rfl, List.reverse_reverse, List.reverse_nil, under_nil, hpath]
      rfl
    · rw [if_neg hnil, under_of_ne_nil _ (by simpa using hnil), hjoin]
      simp

lemma ancestors_succ (limit : Nat) (directory : Text) :
    ancestors (limit + 1) directory =
      directory :: match parent? directory with
        | some above => ancestors limit above
        | none => [] :=
  rfl

/-- The directories above a place that are left when `limit` directories may be looked at and those from a
relative path up to the place were. -/
def beyond (limit : Nat) (directory path : Text) : List Text :=
  (ancestors (limit + 1 - (ancestors limit path).length) directory).tail

/-- The way up from a directory below a place goes along the relative path to the place, and on above
it. -/
lemma ancestors_under {directory : Place} (hnames : ∀ name ∈ directory, IsName name) (limit : Nat)
    {path : Text} (h : IsRelative path) :
    ancestors limit (under directory.path path) =
      (ancestors limit path).map (under directory.path) ++ beyond limit directory.path path := by
  induction limit generalizing path with
  | zero =>
    rw [beyond, ancestors, ancestors, List.length_nil, ancestors_succ]
    cases parent? directory.path <;> rfl
  | succ limit ih =>
    by_cases hne : path = []
    · subst hne
      have hnone : parent? [] = none := by decide +kernel
      have hself : ancestors (limit + 1) [] = [[]] := by rw [ancestors_succ, hnone]
      rw [beyond, hself, under_nil, List.length_singleton, Nat.add_sub_cancel, List.map_singleton,
        under_nil, ancestors_succ]
      rfl
    · obtain ⟨above, habove, hrelative, hunder⟩ := h.exists_parent hne
      have hbeyond : beyond (limit + 1) directory.path path = beyond limit directory.path above := by
        rw [beyond, ancestors_succ, habove, List.length_cons, Nat.add_sub_add_right]
        rfl
      rw [ancestors_succ, hunder directory hnames, ancestors_succ, habove, hbeyond]
      exact congrArg (under directory.path path :: ·) (ih hrelative)

/-- What is written between a directory and a name depends on the end of the directory only. -/
lemma join_eq (directory name : Text) :
    join directory name =
      directory ++ (if directory.getLast?.all (· == '/') then [] else ['/']) ++ name := by
  rcases directory.eq_nil_or_concat' with rfl | ⟨front, c, rfl⟩
  · rfl
  · by_cases hc : c = '/' <;> simp [join, hc]

lemma getLast?_join (directory : Text) {name : Text} (hne : name ≠ []) :
    (join directory name).getLast? = name.getLast? := by
  rw [join_eq, List.getLast?_append_of_ne_nil _ hne]

lemma join_ne_nil (directory : Text) {name : Text} (hne : name ≠ []) : join directory name ≠ [] := by
  rw [join_eq]
  exact List.append_ne_nil_of_right_ne_nil _ hne

lemma join_join (directory : Text) {path : Text} (hne : path ≠ []) (name : Text) :
    join (join directory path) name = join directory (join path name) := by
  rw [join_eq (join directory path), getLast?_join directory hne, join_eq directory,
    join_eq path, join_eq directory]
  simp only [List.append_assoc]

/-- A file in a directory seen from a place. -/
lemma join_under (directory path name : Text) :
    join (under directory path) name = join directory (join path name) := by
  by_cases hne : path = []
  · subst hne
    rw [under_nil]
    rfl
  · rw [under_of_ne_nil _ hne, join_join directory hne]

end Files

/-! ### What a file system promises -/

namespace Files.Host

variable {σ : Type}

/-- In the given state, files give the answers of `files`, and relative paths are followed from the place
`directory`. -/
structure WorksIn (host : Host (StateM σ)) (s : σ) (files : Text → Except FileError Text)
    (directory : Place) : Prop where
  shows : host.Shows s files
  workingDirectory : host.workingDirectory.run s = (some directory.path, s)
  names : ∀ name ∈ directory, IsName name
  relative : ∀ path, path ≠ [] → isAbsolute path = false →
    files path = files (join directory.path path)

end Files.Host

namespace Files

lemma parts_join (directory name : Text) :
    parts (join directory name) = parts directory ++ parts name := by
  rcases directory.eq_nil_or_concat' with rfl | ⟨front, c, rfl⟩
  · rfl
  · by_cases hc : c = '/'
    · subst hc
      have hjoin : join (front ++ ['/']) name = front ++ '/' :: name := by simp [join_eq]
      rw [hjoin, parts_append_slash, parts_append_slash, List.append_assoc]
      rfl
    · rw [join_of_last (by simp) (by simpa using hc), parts_append_slash]

lemma parts_name {name : Text} (h : IsName name) : parts name = [name] := by
  have hfields : Text.fields (· == '/') name = [name] := by
    refine Text.fields_of_forall_not fun c hc => ?_
    have hne : c ≠ '/' := by
      rintro rfl
      exact h.noSlash hc
    simpa using hne
  simp [parts, hfields, h.nonempty]

/-- The parts of the path of a place are its names. -/
lemma parts_path {directory : Place} (h : ∀ name ∈ directory, IsName name) :
    parts directory.path = directory := by
  have hparts : parts (directory.flatMap ('/' :: ·)) = directory := by
    induction directory using List.reverseRecOn with
    | nil => rfl
    | append_singleton front name ih =>
      rw [List.flatMap_append, List.flatMap_singleton, parts_append_slash, parts_name (h name (by simp)),
        ih fun n hn => h n (by simp [hn])]
  rw [Place.path]
  split
  · next hnil =>
    rw [List.isEmpty_iff.1 hnil]
    rfl
  · exact hparts

/-- Names are followed one after the other where all of them are directories. -/
lemma follow_append {s : Store} {names : List Text} (hnames : ∀ name ∈ names, IsName name)
    (start : Place) (hthere : ∀ n < names.length, s.get? (start ++ names.take n) = some .directory)
    (rest : List Text) : s.follow start (names ++ rest) = s.follow (start ++ names) rest := by
  induction names generalizing start with
  | nil => rw [List.nil_append, List.append_nil]
  | cons name names ih =>
    have hname := hnames name (by simp)
    have hstart : s.get? start = some .directory := by
      simpa using hthere 0 (by simp)
    have hnext : s.follow (start ++ [name]) (names ++ rest) =
        s.follow (start ++ [name] ++ names) rest := by
      refine ih (fun n hn => hnames n (by simp [hn])) (start ++ [name]) fun n hn => ?_
      simpa using hthere (n + 1) (by simpa using hn)
    rw [List.cons_append, Store.follow, hstart]
    simp only [hname.notDot, hname.notDots, if_false]
    rw [hnext]
    simp

/-- In a store in which the working directory is there, relative paths are followed from it. -/
lemma Host.worksIn_ofStore {directory : Place} {s : Store} (tree : Option Source.Node)
    (hnames : ∀ name ∈ directory, IsName name)
    (hthere : ∀ n < directory.length, s.get? (directory.take n) = some .directory) :
    (ofStore directory tree).WorksIn s (s.read directory) directory where
  shows := shows_ofStore directory tree s
  workingDirectory := rfl
  names := hnames
  relative := by
    intro path hne hrelative
    have hlocate : s.locate directory path = s.locate directory (join directory.path path) := by
      have habsolute : isAbsolute (join directory.path path) = true := by
        rw [join_eq]
        rcases path_eq hnames with hpath | ⟨w, hpath, -⟩ <;> rw [hpath] <;> rfl
      have hjoin := join_ne_nil directory.path hne
      rw [← List.isEmpty_eq_false_iff] at hne hjoin
      rw [Store.locate, Store.locate, hne, hjoin, hrelative, habsolute, parts_join, parts_path hnames]
      exact (follow_append hnames [] hthere (parts path)).symm
    have hmeans : meansDirectory (join directory.path path) = meansDirectory path := by
      rw [meansDirectory, getLast?_join _ hne, meansDirectory]
    rw [Store.read, Store.read, hlocate, hmeans]

end Files

namespace Settings

open Files (Host Place IsRelative under)

variable {σ : Type} {host : Host (StateM σ)} {s : σ} {files : Text → Except Files.FileError Text}
  {directory : Place} {path : Text}

/-- The path names a directory, from there up to the working directory no file is accepted, and the first
one above it that is does not say the same as the defaults. -/
def CutShort (files : Text → Except Files.FileError Text) (directory : Place) (path : Text) : Prop :=
  ∃ below ∈ Files.parent? path, below ≠ [] ∧ (candidates below).findSome? (accepted? files) = none ∧
    nearestAccepted files
      ((Files.beyond searchLimit directory.path below).map (Files.join · fileName)) ≠ {}

instance : Decidable (CutShort files directory path) :=
  inferInstanceAs (Decidable (∃ below ∈ Files.parent? path, below ≠ [] ∧
    (candidates below).findSome? (accepted? files) = none ∧
    nearestAccepted files
      ((Files.beyond searchLimit directory.path below).map (Files.join · fileName)) ≠ {}))

/-- The settings of a file whose path names a directory. -/
lemma nearFile_run_of_parent (h : host.WorksIn s files directory) {below : Text}
    (hbelow : Files.parent? path = some below) (hne : below ≠ []) :
    (nearFile host path).run s = (nearestAccepted files (candidates below), s) := by
  obtain ⟨c, cs, rfl⟩ := List.exists_cons_of_ne_nil hne
  simp only [nearFile, hbelow]
  exact near_run h.shows (c :: cs)

/-- The settings of a file whose path is only a name. -/
lemma nearFile_run_of_name (h : host.WorksIn s files directory) (hname : Files.parent? path = some []) :
    (nearFile host path).run s = (nearestAccepted files (candidates directory.path), s) := by
  simp only [nearFile, hname]
  exact here_run h.shows h.workingDirectory

lemma isRelative_of_mem_ancestors {limit : Nat} {below d : Text} (h : IsRelative below)
    (hd : d ∈ Files.ancestors limit below) : IsRelative d := by
  induction limit generalizing below with
  | zero => exact nomatch hd
  | succ limit ih =>
    rw [Files.ancestors_succ, List.mem_cons] at hd
    rcases hd with rfl | hd
    · exact h
    · by_cases hne : below = []
      · have hnone : Files.parent? [] = none := by decide +kernel
        rw [hne, hnone] at hd
        exact nomatch hd
      · obtain ⟨above, habove, hrelative, -⟩ := h.exists_parent hne
        rw [habove] at hd
        exact ih hrelative hd

/-- Whether a file in a directory below the working directory is accepted does not depend on how its path
is written. -/
lemma accepted?_under (h : host.WorksIn s files directory) {d : Text} (hd : IsRelative d) :
    accepted? files (Files.join (under directory.path d) fileName) =
      accepted? files (Files.join d fileName) := by
  have hrelative : Files.isAbsolute (Files.join d fileName) = false := by
    have habsolute := hd.notAbsolute
    rw [Files.join_eq]
    cases d with
    | nil => decide
    | cons c cs => exact habsolute
  rw [Files.join_under, accepted?, accepted?,
    h.relative _ (Files.join_ne_nil d (by decide)) hrelative]

/-- Seen from the working directory, the candidates of a relative directory give the same, and those
above the working directory come behind them. -/
lemma nearestAccepted_under (h : host.WorksIn s files directory) {below : Text}
    (hbelow : IsRelative below) :
    nearestAccepted files (candidates (under directory.path below)) =
      ((candidates below).findSome? (accepted? files)).getD
        (nearestAccepted files
          ((Files.beyond searchLimit directory.path below).map (Files.join · fileName))) := by
  have hsame : (((Files.ancestors searchLimit below).map (under directory.path)).map
        (Files.join · fileName)).findSome? (accepted? files) =
      (candidates below).findSome? (accepted? files) := by
    have hanswers : ∀ paths : List Text,
        paths.findSome? (accepted? files) = (paths.map (accepted? files)).findSome? id := by
      intro paths
      rw [List.findSome?_map]
      rfl
    rw [hanswers, hanswers, candidates, List.map_map, List.map_map, List.map_map]
    refine congrArg (List.findSome? id) (List.map_congr_left fun d hd => ?_)
    exact accepted?_under h (isRelative_of_mem_ancestors hbelow hd)
  rw [nearestAccepted, candidates, Files.ancestors_under h.names searchLimit hbelow, List.map_append,
    List.findSome?_append, hsame]
  cases (candidates below).findSome? (accepted? files) <;> rfl

lemma resolveSettings_run {settings : Settings} (h : (nearFile host path).run s = (settings, s)) :
    (Command.resolveSettings host none (some path)).run s = (.ok settings, s) := by
  rw [Command.resolveSettings, run_bind_of_run h]
  rfl

/-- For every file system, every working directory and every relative path without dots among its parts:
the settings are those of the absolute path, unless the search is cut short at the working directory. -/
theorem resolveSettings_relative_iff (h : host.WorksIn s files directory) (hne : path ≠ [])
    (hpath : IsRelative path) :
    (Command.resolveSettings host none (some path)).run s =
        (Command.resolveSettings host none (some (Files.join directory.path path))).run s ↔
      ¬ CutShort files directory path := by
  obtain ⟨below, hbelow, hrelative, hunder⟩ := hpath.exists_parent hne
  have habsolute : (Command.resolveSettings host none (some (Files.join directory.path path))).run s =
      (.ok (nearestAccepted files (candidates (under directory.path below))), s) := by
    refine resolveSettings_run (nearFile_run_of_parent h ?_ ?_)
    · rw [← Files.under_of_ne_nil _ hne]
      exact hunder directory h.names
    · rw [Files.under]
      split
      · exact Files.path_ne_nil directory
      · exact Files.join_ne_nil _ ‹_›
  by_cases hname : below = []
  · -- both searches begin in the working directory
    subst hname
    refine iff_of_true ?_ ?_
    · rw [resolveSettings_run (nearFile_run_of_name h hbelow), habsolute, Files.under_nil]
    · rintro ⟨below, hmem, hne, -⟩
      rw [hbelow] at hmem
      exact hne (Option.some.inj hmem).symm
  · rw [resolveSettings_run (nearFile_run_of_parent h hbelow hname), habsolute,
      nearestAccepted_under h hrelative]
    have hcut : CutShort files directory path ↔
        (candidates below).findSome? (accepted? files) = none ∧
          nearestAccepted files
            ((Files.beyond searchLimit directory.path below).map (Files.join · fileName)) ≠ {} := by
      rw [CutShort, hbelow]
      simp [hname]
    rw [hcut, nearestAccepted]
    cases (candidates below).findSome? (accepted? files) with
    | some settings => simp
    | none =>
      rw [Option.getD_none, Option.getD_none, and_iff_right rfl, not_not]
      exact ⟨fun heq => (Except.ok.inj (Prod.mk.inj heq).1).symm, fun heq => by rw [heq]⟩

/-- A settings file, and a source two directories below it. -/
def project : Files.Store :=
  (({} : Files.Store).add [fileName] (.file "[output]\nindent = 2\n".toList)).add
    ["proj".toList, "sub".toList, "A.swift".toList] (.file "func f() \x7b\x7d\n".toList)

/-- The same with a settings file in the directory between. -/
def configuredProject : Files.Store :=
  project.add ["proj".toList, fileName] (.file "[output]\nindent = 3\n".toList)

/-- The host that works in the directory between. -/
def inProject : Host (StateM Files.Store) :=
  Host.ofStore ["proj".toList] none

/-- Where the working directory has a settings file, the search is not cut short. -/
theorem resolveSettings_configuredProject :
    ¬ CutShort (configuredProject.read ["proj".toList]) ["proj".toList] "sub/A.swift".toList ∧
      (Command.resolveSettings inProject none (some "sub/A.swift".toList)).run configuredProject =
        (Command.resolveSettings inProject none (some "/proj/sub/A.swift".toList)).run
          configuredProject := by
  have hcut : ¬ CutShort (configuredProject.read ["proj".toList]) ["proj".toList]
      "sub/A.swift".toList := by
    decide +kernel
  have hworks : inProject.WorksIn configuredProject (configuredProject.read ["proj".toList])
      ["proj".toList] :=
    Host.worksIn_ofStore none (by decide +kernel) (by decide +kernel)
  exact ⟨hcut, (resolveSettings_relative_iff hworks (by decide) (by decide +kernel)).2 hcut⟩

/-- The file above the working directory is found from the absolute path of a source, but not from its
relative path. -/
theorem resolveSettings_project :
    (Command.resolveSettings inProject none (some "sub/A.swift".toList)).run project =
        (.ok {}, project) ∧
      (Command.resolveSettings inProject none (some "/proj/sub/A.swift".toList)).run project =
        (.ok { output := some { indent := 2 } }, project) := by
  have hworks : inProject.WorksIn project (project.read ["proj".toList]) ["proj".toList] :=
    Host.worksIn_ofStore none (by decide +kernel) (by decide +kernel)
  have hrelative : Files.parent? "sub/A.swift".toList = some "sub".toList := by decide +kernel
  have habsolute : Files.parent? "/proj/sub/A.swift".toList = some "/proj/sub".toList := by
    decide +kernel
  rw [resolveSettings_run (nearFile_run_of_parent hworks hrelative (by decide)),
    resolveSettings_run (nearFile_run_of_parent hworks habsolute (by decide)), Prod.mk.injEq,
    Prod.mk.injEq, Except.ok.injEq, Except.ok.injEq]
  decide +kernel

end Settings

end AsyncPeer
