/-
# Layout of texts

The laws of trimming, of words and of the squeezed form.  Everything about words follows from one
law, `Text.words_append_blank`: a blank between two texts keeps their words apart.  So words do not
depend on the blanks around a text (`Text.words_trim`), the squeezed form is a normal form
(`Text.squeeze_squeeze`), and it has no blanks at its ends (`Text.trim_squeeze`).

Texts that are written with single spaces are recognised by a local condition, `Text.Spaced`, which
is kept when texts are put side by side.  `Text.squeeze_of_spaced` says that they are squeezed.
-/
import Mathlib.Data.List.Basic
import Mathlib.Data.List.TakeWhile
import AsyncPeer.Text.Basic

namespace AsyncPeer.Text

/-! ### Blanks -/

/-- There are few enough blanks to look at each of them. -/
lemma forall_isBlank {p : Char → Bool}
    (hall : ∀ n ∈ blankRanges.flatMap (fun r => List.range' r.1 (r.2 + 1 - r.1)),
      p (Char.ofNat n) = true) {c : Char} (h : isBlank c = true) : p c = true := by
  obtain ⟨r, hr, hc⟩ := List.any_eq_true.1 h
  simp only [Bool.and_eq_true, decide_eq_true_eq] at hc
  have hn := hall c.toNat (List.mem_flatMap.2 ⟨r, hr, List.mem_range'_1.2 (by omega)⟩)
  rwa [Char.ofNat_toNat] at hn

lemma isBlank_of_isWordChar {c : Char} (h : isWordChar c = true) : isBlank c = false := by
  by_contra hc
  have hword : (!isWordChar c) = true :=
    forall_isBlank (p := fun c => !isWordChar c) (by decide +kernel) (by simpa using hc)
  rw [h] at hword
  cases hword

/-! ### Trimming -/

lemma trimStart_of_blank_append {x t : Text} (hx : x.blank = true) :
    trimStart (x ++ t) = trimStart t := by
  induction x with
  | nil => rfl
  | cons c x ih =>
    simp only [blank, List.all_cons, Bool.and_eq_true] at hx
    rw [trimStart, List.cons_append, List.dropWhile_cons_of_pos hx.1]
    exact ih hx.2

lemma trimStart_cons_of_not_blank {c : Char} (hc : isBlank c = false) (t : Text) :
    trimStart (c :: t) = c :: t :=
  List.dropWhile_cons_of_neg (by simp [hc])

/-- A text that does not begin with a blank is not changed at its beginning. -/
lemma trimStart_eq_self {t : Text} (h : ∀ c ∈ t.head?, isBlank c = false) : trimStart t = t := by
  cases t with
  | nil => rfl
  | cons c t => exact trimStart_cons_of_not_blank (h c rfl) t

lemma dropEndWhile_append_of_all {p : Char → Bool} {t y : Text} (hy : y.all p = true) :
    dropEndWhile p (t ++ y) = dropEndWhile p t := by
  have hrev : y.reverse.dropWhile p = [] := by
    rw [List.dropWhile_eq_nil_iff]
    intro c hc
    exact List.all_eq_true.1 hy c (List.mem_reverse.1 hc)
  rw [dropEndWhile, List.reverse_append, List.dropWhile_append, hrev]
  rfl

lemma dropEndWhile_eq_self {p : Char → Bool} {t : Text} (h : ∀ c ∈ t.getLast?, p c = false) :
    dropEndWhile p t = t := by
  rcases t.eq_nil_or_concat' with rfl | ⟨u, c, rfl⟩
  · rfl
  · have hc : p c = false := h c (by simp)
    rw [dropEndWhile, List.reverse_append, List.reverse_singleton, List.singleton_append,
      List.dropWhile_cons_of_neg (by simp [hc]), List.reverse_cons, List.reverse_reverse]

/-- Blanks around a text do not matter for trimming. -/
lemma trim_blank_append_blank {x t y : Text} (hx : x.blank = true) (hy : y.blank = true) :
    trim (x ++ t ++ y) = trim t := by
  rw [trim, List.append_assoc, trimStart_of_blank_append hx]
  by_cases ht : t.blank = true
  · have hty : (t ++ y).blank = true := by
      rw [blank, List.all_append, Bool.and_eq_true]
      exact ⟨ht, hy⟩
    have hnil : ∀ u : Text, u.blank = true → trimStart u = [] := by
      intro u hu
      have := trimStart_of_blank_append (t := []) hu
      rwa [List.append_nil] at this
    rw [trim, hnil t ht, hnil _ hty]
  · -- something in `t` is not blank, so that trimming the beginning stays inside `t`
    have hne : t.dropWhile isBlank ≠ [] := by
      intro hnil
      rw [List.dropWhile_eq_nil_iff] at hnil
      exact ht (List.all_eq_true.2 hnil)
    have hstart : trimStart (t ++ y) = trimStart t ++ y := by
      rw [trimStart, List.dropWhile_append]
      simp [trimStart, hne]
    rw [trim, hstart]
    exact dropEndWhile_append_of_all hy

lemma trim_space_append (t : Text) : trim ([' '] ++ t) = trim t := by
  have h := trim_blank_append_blank (x := [' ']) (t := t) (y := []) (by decide) rfl
  rwa [List.append_nil] at h

/-- A text without blanks at its ends is trimmed. -/
lemma trim_eq_self {t : Text} (hhead : ∀ c ∈ t.head?, isBlank c = false)
    (hlast : ∀ c ∈ t.getLast?, isBlank c = false) : trim t = t := by
  rw [trim, trimStart_eq_self hhead]
  exact dropEndWhile_eq_self hlast

/-- Trimming the end takes away blanks. -/
lemma exists_trimEnd (t : Text) : ∃ y, y.blank = true ∧ t = trimEnd t ++ y := by
  refine ⟨(t.reverse.takeWhile isBlank).reverse, ?_, ?_⟩
  · rw [blank, List.all_reverse]
    exact List.all_takeWhile
  · have h := congrArg List.reverse (List.takeWhile_append_dropWhile (p := isBlank) (l := t.reverse))
    rw [List.reverse_append, List.reverse_reverse] at h
    exact h.symm

/-- Trimming takes away blanks at the two ends. -/
lemma exists_trim (t : Text) :
    ∃ x y, x.blank = true ∧ y.blank = true ∧ t = x ++ trim t ++ y := by
  obtain ⟨y, hy, heq⟩ := exists_trimEnd (trimStart t)
  refine ⟨t.takeWhile isBlank, y, List.all_takeWhile, hy, ?_⟩
  rw [List.append_assoc, trim, ← heq]
  exact List.takeWhile_append_dropWhile.symm

/-- A trimmed text does not begin with a blank. -/
lemma head?_of_trimmed {t : Text} (ht : trim t = t) : ∀ c ∈ t.head?, isBlank c = false := by
  intro c hc
  cases t with
  | nil => simp at hc
  | cons d u =>
    obtain rfl : d = c := by simpa using hc
    by_contra hblank
    have hshort := trim_blank_append_blank (x := [d]) (t := u) (y := []) (by simpa [blank] using hblank) rfl
    rw [List.append_nil, List.singleton_append, ht] at hshort
    have hlen := length_trim_le u
    rw [← hshort, List.length_cons] at hlen
    omega

/-- A trimmed text does not end with a blank. -/
lemma getLast?_of_trimmed {t : Text} (ht : trim t = t) : ∀ c ∈ t.getLast?, isBlank c = false := by
  intro c hc
  rcases t.eq_nil_or_concat' with rfl | ⟨u, d, rfl⟩
  · simp at hc
  · obtain rfl : d = c := by simpa using hc
    by_contra hblank
    have hshort := trim_blank_append_blank (x := []) (t := u) (y := [d]) rfl (by simpa [blank] using hblank)
    rw [List.nil_append, ht] at hshort
    have hlen := length_trim_le u
    rw [← hshort, List.length_append, List.length_singleton] at hlen
    omega

/-! ### Words -/

lemma fields_append_sep {p : Char → Bool} {c : Char} (hc : p c = true) (x y : Text) :
    fields p (x ++ c :: y) = fields p x ++ fields p y := by
  induction x with
  | nil => simp [fields, hc]
  | cons d x ih =>
    obtain ⟨f, fs, hf⟩ := List.exists_cons_of_ne_nil (fields_ne_nil p x)
    rw [hf] at ih
    by_cases hd : p d = true
    · simp [fields, hd, ih, hf]
    · simp [fields, hd, ih, hf]

/-- A blank between two texts keeps their words apart. -/
lemma words_append_blank {c : Char} (hc : isBlank c = true) (x y : Text) :
    words (x ++ c :: y) = words x ++ words y := by
  rw [words, fields_append_sep hc, List.filter_append]
  rfl

lemma words_cons_blank {c : Char} (hc : isBlank c = true) (t : Text) : words (c :: t) = words t :=
  words_append_blank hc [] t

lemma words_blank_append {x : Text} (hx : x.blank = true) (t : Text) : words (x ++ t) = words t := by
  induction x with
  | nil => rfl
  | cons c x ih =>
    simp only [blank, List.all_cons, Bool.and_eq_true] at hx
    rw [List.cons_append, words_cons_blank hx.1]
    exact ih hx.2

lemma words_append_of_blank {y : Text} (hy : y.blank = true) (t : Text) : words (t ++ y) = words t := by
  cases y with
  | nil => rw [List.append_nil]
  | cons c y =>
    simp only [blank, List.all_cons, Bool.and_eq_true] at hy
    have hrest : words y = [] := by
      have := words_blank_append hy.2 []
      rwa [List.append_nil] at this
    rw [words_append_blank hy.1, hrest, List.append_nil]

/-- Trimming does not change the words. -/
lemma words_trim (t : Text) : words (trim t) = words t := by
  obtain ⟨x, y, hx, hy, ht⟩ := exists_trim t
  have h : words (x ++ trim t ++ y) = words (trim t) := by
    rw [words_append_of_blank hy, words_blank_append hx]
  rw [← h, ← ht]

lemma fields_of_forall_not {p : Char → Bool} {w : Text} (h : ∀ c ∈ w, p c = false) :
    fields p w = [w] := by
  induction w with
  | nil => rfl
  | cons c w ih =>
    have hrest := ih fun d hd => h d (List.mem_cons_of_mem c hd)
    simp [fields, h c (by simp), hrest]

/-- A word: not empty, and without blanks. -/
def IsWord (w : Text) : Prop :=
  w ≠ [] ∧ ∀ c ∈ w, isBlank c = false

instance (w : Text) : Decidable (IsWord w) :=
  decidable_of_iff (w ≠ [] ∧ w.any isBlank = false) (by simp [IsWord])

lemma IsWord.words_eq {w : Text} (h : IsWord w) : words w = [w] := by
  rw [words, fields_of_forall_not h.2]
  simp [h.1]

lemma flatMap_words {ws : List Text} (h : ∀ w ∈ ws, IsWord w) : ws.flatMap words = ws := by
  induction ws with
  | nil => rfl
  | cons w ws ih =>
    rw [List.flatMap_cons, (h w (by simp)).words_eq, ih fun v hv => h v (List.mem_cons_of_mem w hv)]
    rfl

lemma mem_fields_not {p : Char → Bool} {t w : Text} (h : w ∈ fields p t) : ∀ c ∈ w, p c = false := by
  induction t generalizing w with
  | nil =>
    rw [fields, List.mem_singleton] at h
    subst h
    simp
  | cons d t ih =>
    obtain ⟨f, fs, hf⟩ := List.exists_cons_of_ne_nil (fields_ne_nil p t)
    rw [hf] at ih
    by_cases hd : p d = true
    · simp only [fields, hd, if_true, hf, List.mem_cons] at h
      rcases h with rfl | h
      · simp
      · exact ih (List.mem_cons.2 h)
    · have hd : p d = false := by simpa using hd
      simp only [fields, hd, Bool.false_eq_true, if_false, hf, List.mem_cons] at h
      rcases h with rfl | h
      · intro c hc
        rcases List.mem_cons.1 hc with rfl | hc
        · exact hd
        · exact ih (by simp) c hc
      · exact ih (List.mem_cons_of_mem f h)

lemma isWord_of_mem_words {t w : Text} (h : w ∈ words t) : IsWord w := by
  obtain ⟨hmem, hne⟩ := List.mem_filter.1 h
  exact ⟨by simpa using hne, mem_fields_not hmem⟩

/-! ### The squeezed form -/

lemma join_cons_cons (sep t u : Text) (rest : List Text) :
    join sep (t :: u :: rest) = t ++ sep ++ join sep (u :: rest) := rfl

@[simp] lemma join_singleton (sep t : Text) : join sep [t] = t := rfl

/-- Words with spaces between them are read back. -/
lemma words_join {ws : List Text} (h : ∀ w ∈ ws, IsWord w) : words (join [' '] ws) = ws := by
  induction ws with
  | nil => rfl
  | cons w ws ih =>
    have hw := (h w (by simp)).words_eq
    cases ws with
    | nil => exact hw
    | cons v ws =>
      rw [join_cons_cons, List.append_assoc, List.singleton_append, words_append_blank (by decide), hw,
        ih fun u hu => h u (List.mem_cons_of_mem w hu)]
      rfl

lemma words_squeeze (t : Text) : words (squeeze t) = words t :=
  words_join fun _ hw => isWord_of_mem_words hw

/-- The squeezed form is a normal form. -/
@[simp] lemma squeeze_squeeze (t : Text) : squeeze (squeeze t) = squeeze t := by
  rw [squeeze, words_squeeze, squeeze]

lemma head?_join {w : Text} (hw : w ≠ []) (ws : List Text) : (join [' '] (w :: ws)).head? = w.head? := by
  cases w with
  | nil => exact absurd rfl hw
  | cons c w => cases ws <;> rfl

lemma getLast?_join {w : Text} {ws : List Text} (h : ∀ v ∈ w :: ws, v ≠ []) :
    ∃ v ∈ w :: ws, (join [' '] (w :: ws)).getLast? = v.getLast? := by
  induction ws generalizing w with
  | nil => exact ⟨w, by simp, rfl⟩
  | cons u ws ih =>
    obtain ⟨v, hv, hlast⟩ := ih fun v hv => h v (List.mem_cons_of_mem w hv)
    refine ⟨v, List.mem_cons_of_mem w hv, ?_⟩
    have hne : v.getLast? ≠ none := by
      rw [Ne, List.getLast?_eq_none_iff]
      exact h v (List.mem_cons_of_mem w hv)
    obtain ⟨c, hc⟩ := Option.ne_none_iff_exists'.1 hne
    rw [join_cons_cons, List.getLast?_append, hlast, hc]
    rfl

/-- A squeezed text has no blanks at its ends. -/
@[simp] lemma trim_squeeze (t : Text) : trim (squeeze t) = squeeze t := by
  rw [squeeze]
  cases hws : words t with
  | nil => rfl
  | cons w ws =>
    have hword : ∀ v ∈ w :: ws, IsWord v := fun v hv => isWord_of_mem_words (hws ▸ hv)
    refine trim_eq_self (fun c hc => ?_) (fun c hc => ?_)
    · rw [head?_join (hword w (by simp)).1] at hc
      exact (hword w (by simp)).2 c (List.mem_of_mem_head? hc)
    · obtain ⟨v, hv, hlast⟩ := getLast?_join fun v hv => (hword v hv).1
      rw [hlast] at hc
      exact (hword v hv).2 c (List.mem_of_getLast? hc)

/-- Blanks around a squeezed text are all that squeezing takes away. -/
lemma squeeze_blank_append_blank {x t y : Text} (hx : x.blank = true) (hy : y.blank = true)
    (ht : squeeze t = t) : squeeze (x ++ t ++ y) = t := by
  have hwords : words (x ++ t ++ y) = words t := by
    rw [words_append_of_blank hy, words_blank_append hx]
  rw [squeeze, hwords]
  exact ht

lemma trim_of_squeezed {t : Text} (ht : squeeze t = t) : trim t = t := by
  rw [← ht]
  exact trim_squeeze t

/-! ### Texts written with single spaces -/

/-- Every blank is a space, and is followed by a character that is not blank. -/
def Spaced : Text → Bool
  | [] => true
  | [c] => !isBlank c
  | c :: d :: t => (!isBlank c || (c == ' ' && !isBlank d)) && Spaced (d :: t)

lemma spaced_append {x y : Text} (hx : Spaced x = true) (hy : Spaced y = true) :
    Spaced (x ++ y) = true := by
  fun_induction Spaced x with
  | case1 => exact hy
  | case2 c =>
    cases y with
    | nil => exact hx
    | cons d y =>
      rw [List.singleton_append, Spaced, hx, hy]
      rfl
  | case3 c d t ih =>
    rw [Bool.and_eq_true] at hx
    rw [List.cons_append, List.cons_append, Spaced, hx.1]
    exact ih hx.2

lemma spaced_of_forall {w : Text} (h : ∀ c ∈ w, isBlank c = false) : Spaced w = true := by
  fun_induction Spaced w with
  | case1 => rfl
  | case2 c => simp [h c (by simp)]
  | case3 c d t ih =>
    rw [h c (by simp), ih fun e he => h e (List.mem_cons_of_mem c he)]
    rfl

/-- A space in front of a text that does not begin with one. -/
lemma spaced_space_cons {c : Char} {t : Text} (hc : isBlank c = false)
    (ht : Spaced (c :: t) = true) : Spaced (' ' :: c :: t) = true := by
  rw [Spaced, hc, ht]
  rfl

lemma words_cons_of_not_blank {c d : Char} (hc : isBlank c = false) (hd : isBlank d = false)
    (t : Text) : ∃ w ws, words (d :: t) = w :: ws ∧ words (c :: d :: t) = (c :: w) :: ws := by
  obtain ⟨f, fs, hf⟩ := List.exists_cons_of_ne_nil (fields_ne_nil isBlank t)
  refine ⟨d :: f, fs.filter fun w => !w.isEmpty, ?_, ?_⟩
  · simp [words, fields, hd, hf]
  · simp [words, fields, hc, hd, hf]

lemma words_cons_cons_blank {c d : Char} (hc : isBlank c = false) (hd : isBlank d = true)
    (t : Text) : words (c :: d :: t) = [c] :: words t := by
  have hword : IsWord [c] := ⟨by simp, by simpa using hc⟩
  have := words_append_blank hd [c] t
  rwa [hword.words_eq] at this

/-- In a text written with single spaces, a blank is a space with something else behind it. -/
lemma exists_of_spaced_blank {d : Char} {t : Text} (h : Spaced (d :: t) = true)
    (hd : isBlank d = true) : ∃ e u, t = e :: u ∧ d = ' ' ∧ isBlank e = false := by
  cases t with
  | nil => simp [Spaced, hd] at h
  | cons e u =>
    simp only [Spaced, hd, Bool.and_eq_true, Bool.not_true, Bool.false_or, beq_iff_eq,
      Bool.not_eq_true'] at h
    exact ⟨e, u, rfl, h.1.1, h.1.2⟩

/-- A text written with single spaces is squeezed, apart from a space in front. -/
lemma squeeze_trimStart_of_spaced {t : Text} (h : Spaced t = true) :
    squeeze (trimStart t) = trimStart t := by
  fun_induction Spaced t with
  | case1 => rfl
  | case2 c =>
    have hc : isBlank c = false := by simpa using h
    have hword : IsWord [c] := ⟨by simp, by simpa using hc⟩
    rw [trimStart_cons_of_not_blank hc, squeeze, hword.words_eq]
    rfl
  | case3 c d t ih =>
    rw [Bool.and_eq_true] at h
    have ih := ih h.2
    cases hc : isBlank c with
    | true =>
      have hskip : trimStart (c :: d :: t) = trimStart (d :: t) :=
        List.dropWhile_cons_of_pos hc
      rw [hskip]
      exact ih
    | false =>
      rw [trimStart_cons_of_not_blank hc]
      cases hd : isBlank d with
      | false =>
        -- the word goes on
        rw [trimStart_cons_of_not_blank hd] at ih
        obtain ⟨w, ws, hws, hcws⟩ := words_cons_of_not_blank hc hd t
        rw [squeeze, hws] at ih
        rw [squeeze, hcws]
        cases ws with
        | nil => exact congrArg (c :: ·) ih
        | cons v ws => exact congrArg (c :: ·) ih
      | true =>
        -- the word ends, and another begins behind a single space
        obtain ⟨e, u, rfl, hspace, he⟩ := exists_of_spaced_blank h.2 hd
        have hskip : trimStart (d :: e :: u) = e :: u := by
          have hstep : trimStart (d :: e :: u) = trimStart (e :: u) := List.dropWhile_cons_of_pos hd
          rw [hstep, trimStart_cons_of_not_blank he]
        rw [hskip] at ih
        obtain ⟨w, ws, hws⟩ : ∃ w ws, words (e :: u) = w :: ws := by
          refine List.exists_cons_of_ne_nil ?_
          intro hnil
          rw [squeeze, hnil] at ih
          exact absurd ih (by simp [join])
        rw [squeeze, hws] at ih
        rw [squeeze, words_cons_cons_blank hc hd, hws, join_cons_cons, ih, hspace]
        rfl

/-- A text written with single spaces that does not begin with a blank is squeezed. -/
lemma squeeze_of_spaced {c : Char} {t : Text} (hc : isBlank c = false)
    (h : Spaced (c :: t) = true) : squeeze (c :: t) = c :: t := by
  have := squeeze_trimStart_of_spaced h
  rwa [trimStart_cons_of_not_blank hc] at this

lemma spaced_join {sep : Text} {xs : List Text} (hsep : Spaced sep = true)
    (h : ∀ x ∈ xs, Spaced x = true) : Spaced (join sep xs) = true := by
  induction xs with
  | nil => rfl
  | cons x xs ih =>
    cases xs with
    | nil => exact h x (by simp)
    | cons y xs =>
      exact spaced_append (spaced_append (h x (by simp)) hsep)
        (ih fun z hz => h z (List.mem_cons_of_mem x hz))

/-- The text is written with single spaces and begins with a character that is not blank. -/
structure Tidy (t : Text) : Prop where
  spaced : Spaced t = true
  head : ∃ c u, t = c :: u ∧ isBlank c = false

namespace Tidy

variable {t : Text}

lemma squeeze_eq (h : Tidy t) : squeeze t = t := by
  obtain ⟨c, u, rfl, hc⟩ := h.head
  exact squeeze_of_spaced hc h.spaced

lemma trim_eq (h : Tidy t) : trim t = t :=
  trim_of_squeezed h.squeeze_eq

lemma ne_nil (h : Tidy t) : t ≠ [] := by
  obtain ⟨c, u, rfl, -⟩ := h.head
  exact List.cons_ne_nil c u

lemma append (h : Tidy t) {u : Text} (hu : Spaced u = true) : Tidy (t ++ u) := by
  refine ⟨spaced_append h.spaced hu, ?_⟩
  obtain ⟨c, v, rfl, hc⟩ := h.head
  exact ⟨c, v ++ u, rfl, hc⟩

/-- A space in front of the text. -/
lemma spaced_cons (h : Tidy t) : Spaced ([' '] ++ t) = true := by
  obtain ⟨c, u, rfl, hc⟩ := h.head
  exact spaced_space_cons hc h.spaced

lemma of_word {w : Text} (hne : w ≠ []) (hw : ∀ c ∈ w, isWordChar c = true) : Tidy w := by
  have hblank : ∀ c ∈ w, isBlank c = false := fun c hc => isBlank_of_isWordChar (hw c hc)
  obtain ⟨c, u, rfl⟩ := List.exists_cons_of_ne_nil hne
  exact ⟨spaced_of_forall hblank, c, u, rfl, hblank c (by simp)⟩

end Tidy

end AsyncPeer.Text
