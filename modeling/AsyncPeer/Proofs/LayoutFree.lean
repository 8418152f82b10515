/-
# Layout does not matter

How a type is laid out, with spaces or line feeds and with many or few of them, says nothing about it.
Two texts are *relaid* if they differ only in their gaps, the runs of blanks in them: where one has a
gap the other has one too, and between the gaps they have the same characters.

The scans read texts character by character, and they may stand anywhere when they come to a gap, also
inside a string literal behind a backslash.  But from each state one blank leads to a state that
further blanks do not change.  So scans of relaid texts move in lockstep: they stop at the same
characters, and what they cut out is relaid again (`Relaid.untilClosed`, `Relaid.segments`).  All
readers are made of scans and end with the squeezed form, which relaid texts share
(`Relaid.squeeze_eq`).
-/
import AsyncPeer.Proofs.ResultTypes
import Mathlib.Data.List.Forall2
import Mathlib.Data.Option.Basic

namespace AsyncPeer

namespace Text

/-- A gap: blanks, at least one. -/
inductive IsGap : Text → Prop
  | one {b : Char} (hb : isBlank b = true) : IsGap [b]
  | more {b : Char} {x : Text} (hb : isBlank b = true) (hx : IsGap x) : IsGap (b :: x)

/-- The texts differ only in their gaps. -/
inductive Relaid : Text → Text → Prop
  | nil : Relaid [] []
  | char {c : Char} {t u : Text} (hc : isBlank c = false) (h : Relaid t u) : Relaid (c :: t) (c :: u)
  | gap {x y t u : Text} (hx : IsGap x) (hy : IsGap y) (h : Relaid t u) : Relaid (x ++ t) (y ++ u)

namespace IsGap

variable {x : Text}

lemma exists_cons (h : IsGap x) : ∃ b x', x = b :: x' ∧ isBlank b = true := by
  cases h with
  | one hb => exact ⟨_, _, rfl, hb⟩
  | more hb _ => exact ⟨_, _, rfl, hb⟩

lemma blank (h : IsGap x) : x.blank = true := by
  induction h with
  | one hb => simpa [Text.blank] using hb
  | more hb _ ih => simpa [Text.blank, hb] using ih

lemma of_blank {b : Char} (hb : isBlank b = true) (hx : Text.blank x = true) : IsGap (b :: x) := by
  induction x generalizing b with
  | nil => exact .one hb
  | cons c x ih =>
    rw [Text.blank, List.all_cons, Bool.and_eq_true] at hx
    exact .more hb (ih hx.1 hx.2)

end IsGap

lemma filter_of_blank {x : Text} (hx : x.blank = true) : (x.filter fun c => !isBlank c) = [] := by
  refine List.filter_eq_nil_iff.2 fun c hc => ?_
  simpa using List.all_eq_true.1 hx c hc

namespace Relaid

variable {t u : Text}

/-- How relaid texts begin: both are at an end, or with the same character, or with blanks. -/
lemma begins (h : Relaid t u) :
    (t = [] ∧ u = []) ∨
      (∃ c t' u', isBlank c = false ∧ t = c :: t' ∧ u = c :: u' ∧ Relaid t' u') ∨
      ∃ b t' b' u', isBlank b = true ∧ isBlank b' = true ∧ t = b :: t' ∧ u = b' :: u' := by
  cases h with
  | nil => exact Or.inl ⟨rfl, rfl⟩
  | char hc h => exact Or.inr (Or.inl ⟨_, _, _, hc, rfl, rfl, h⟩)
  | gap hx hy h =>
    obtain ⟨b, x', rfl, hb⟩ := hx.exists_cons
    obtain ⟨b', y', rfl, hb'⟩ := hy.exists_cons
    exact Or.inr (Or.inr ⟨b, _, b', _, hb, hb', rfl, rfl⟩)

lemma eq_nil_iff (h : Relaid t u) : t = [] ↔ u = [] := by
  rcases h.begins with ⟨rfl, rfl⟩ | ⟨c, t', u', -, rfl, rfl, -⟩ | ⟨b, t', b', u', -, -, rfl, rfl⟩ <;> simp

/-- What follows a character in one text follows it in the other. -/
lemma of_cons {c : Char} (hc : isBlank c = false) (h : Relaid (c :: t) u) :
    ∃ u', u = c :: u' ∧ Relaid t u' := by
  rcases h.begins with ⟨⟨⟩, -⟩ | ⟨d, t', u', -, ht, rfl, h'⟩ | ⟨b, t', b', u', hb, -, ht, -⟩
  · obtain ⟨rfl, rfl⟩ := List.cons.inj ht
    exact ⟨u', rfl, h'⟩
  · obtain ⟨rfl, -⟩ := List.cons.inj ht
    rw [hc] at hb
    cases hb

/-- Whether a text begins with a given character does not depend on its layout. -/
lemma head?_eq_iff {c : Char} (hc : isBlank c = false) (h : Relaid t u) :
    t.head? = some c ↔ u.head? = some c := by
  rcases h.begins with ⟨rfl, rfl⟩ | ⟨d, t', u', -, rfl, rfl, -⟩ | ⟨b, t', b', u', hb, hb', rfl, rfl⟩
  · exact Iff.rfl
  · exact Iff.rfl
  · refine iff_of_false ?_ ?_
    · rintro ⟨⟩
      rw [hc] at hb
      cases hb
    · rintro ⟨⟩
      rw [hc] at hb'
      cases hb'

/-- Relaid texts have the same words. -/
lemma words_eq (h : Relaid t u) : words t = words u := by
  induction h with
  | nil => rfl
  | @char c t u hc h ih =>
    rcases h.begins with ⟨rfl, rfl⟩ | ⟨d, t', u', hd, rfl, rfl, -⟩ |
      ⟨b, t', b', u', hb, hb', rfl, rfl⟩
    · rfl
    · obtain ⟨w, ws, hw, hcw⟩ := words_cons_of_not_blank hc hd t'
      obtain ⟨v, vs, hv, hcv⟩ := words_cons_of_not_blank hc hd u'
      obtain ⟨rfl, rfl⟩ := List.cons.inj (hw.symm.trans (ih.trans hv))
      rw [hcw, hcv]
    · rw [words_cons_blank hb, words_cons_blank hb'] at ih
      rw [words_cons_cons_blank hc hb, words_cons_cons_blank hc hb', ih]
  | gap hx hy _ ih => rw [words_blank_append hx.blank, words_blank_append hy.blank, ih]

lemma squeeze_eq (h : Relaid t u) : squeeze t = squeeze u := by
  rw [squeeze, h.words_eq, squeeze]

lemma filter_eq (h : Relaid t u) :
    (t.filter fun c => !isBlank c) = u.filter fun c => !isBlank c := by
  induction h with
  | nil => rfl
  | char hc _ ih => rw [List.filter_cons, List.filter_cons, ih]
  | gap hx hy _ ih =>
    rw [List.filter_append, List.filter_append, filter_of_blank hx.blank, filter_of_blank hy.blank, ih]

/-- Where a class has no blanks, its characters are dropped alike. -/
lemma dropWhile {p : Char → Bool} (hp : ∀ c, isBlank c = true → p c = false) (h : Relaid t u) :
    Relaid (t.dropWhile p) (u.dropWhile p) := by
  induction h with
  | nil => exact .nil
  | @char c t u hc h ih =>
    rw [List.dropWhile_cons, List.dropWhile_cons]
    split
    · exact ih
    · exact .char hc h
  | @gap x y t u hx hy h ih =>
    have hstay : ∀ {x : Text}, IsGap x → ∀ t : Text, (x ++ t).dropWhile p = x ++ t := by
      intro x hx t
      obtain ⟨b, x', rfl, hb⟩ := hx.exists_cons
      exact List.dropWhile_cons_of_neg (by simp [hp b hb])
    rw [hstay hx, hstay hy]
    exact .gap hx hy h

lemma trimStart (h : Relaid t u) : Relaid t.trimStart u.trimStart := by
  induction h with
  | nil => exact .nil
  | char hc h ih =>
    rw [trimStart_cons_of_not_blank hc, trimStart_cons_of_not_blank hc]
    exact .char hc h
  | gap hx hy _ ih =>
    rw [trimStart_of_blank_append hx.blank, trimStart_of_blank_append hy.blank]
    exact ih

/-- A beginning without blanks is found in both texts or in none. -/
lemma after? {lead : Text} (hlead : ∀ c ∈ lead, isBlank c = false) (h : Relaid t u) :
    Option.Rel Relaid (t.after? lead) (u.after? lead) := by
  induction lead generalizing t u with
  | nil => cases t <;> cases u <;> exact .some h
  | cons l lead ih =>
    have hrest := fun c hc => hlead c (List.mem_cons_of_mem l hc)
    rcases h.begins with ⟨rfl, rfl⟩ | ⟨d, t', u', -, rfl, rfl, h'⟩ |
      ⟨b, t', b', u', hb, hb', rfl, rfl⟩
    · exact .none
    · simp only [Text.after?]
      split
      · exact ih hrest h'
      · exact .none
    · have hne : ∀ {c : Char}, isBlank c = true → c ≠ l := by
        rintro c hc rfl
        rw [hlead c (by simp)] at hc
        cases hc
      simp only [Text.after?, hne hb, hne hb', if_false]
      exact .none

end Relaid

lemma isGap_takeWhile {b : Char} (hb : isBlank b = true) (t : Text) :
    IsGap ((b :: t).takeWhile isBlank) := by
  rw [List.takeWhile_cons_of_pos hb]
  exact .of_blank hb List.all_takeWhile

lemma trimEnd_append_of_not_blank (x : Text) {t : Text} (ht : t.blank = false) :
    trimEnd (x ++ t) = x ++ trimEnd t := by
  have hne : t.reverse.dropWhile isBlank ≠ [] := by
    intro hnil
    rw [List.dropWhile_eq_nil_iff] at hnil
    have hall : t.blank = true := List.all_eq_true.2 fun c hc => hnil c (List.mem_reverse.2 hc)
    rw [hall] at ht
    cases ht
  rw [trimEnd, dropEndWhile, List.reverse_append, List.dropWhile_append, if_neg (by simpa using hne),
    List.reverse_append, List.reverse_reverse]
  rfl

lemma squeeze_cons_blank {b : Char} (hb : isBlank b = true) (t : Text) : squeeze (b :: t) = squeeze t := by
  rw [squeeze, words_cons_blank hb, squeeze]

lemma squeeze_cons_cons {c d : Char} (hc : isBlank c = false) (hd : isBlank d = false) (t : Text) :
    squeeze (c :: d :: t) = c :: squeeze (d :: t) := by
  obtain ⟨w, ws, hw, hcw⟩ := words_cons_of_not_blank hc hd t
  rw [squeeze, hcw, squeeze, hw]
  cases ws <;> rfl

lemma words_eq_nil_iff {t : Text} : words t = [] ↔ t.blank = true := by
  constructor
  · intro hnil
    induction t with
    | nil => rfl
    | cons c t ih =>
      by_cases hc : isBlank c = true
      · rw [words_cons_blank hc] at hnil
        rw [blank, List.all_cons, hc]
        exact ih hnil
      · have hmem : c ∈ (words (c :: t)).flatten := by
          obtain ⟨f, fs, hf⟩ := List.exists_cons_of_ne_nil (fields_ne_nil isBlank t)
          simp [words, fields, hc, hf]
        rw [hnil] at hmem
        exact absurd hmem (by simp)
  · intro hblank
    have h := words_blank_append hblank []
    rwa [List.append_nil] at h

lemma trim_eq_nil_iff {t : Text} : t.trim = [] ↔ t.blank = true := by
  constructor
  · intro hnil
    rw [← words_eq_nil_iff, ← words_trim, hnil]
    rfl
  · intro hblank
    have h := trim_blank_append_blank (t := []) (y := []) hblank rfl
    rwa [List.append_nil, List.append_nil] at h

lemma words_trimStart (t : Text) : words (trimStart t) = words t := by
  have h := words_blank_append (x := t.takeWhile isBlank) List.all_takeWhile (trimStart t)
  rw [trimStart, List.takeWhile_append_dropWhile] at h
  exact h.symm

lemma squeeze_cons_cons_blank {c d : Char} (hc : isBlank c = false) (hd : isBlank d = true) {t : Text}
    (ht : blank (d :: t) = false) : squeeze (c :: d :: t) = c :: ([' '] ++ squeeze (d :: t)) := by
  have hne : words t ≠ [] := by
    rw [← words_cons_blank hd, Ne, words_eq_nil_iff, ht]
    decide
  obtain ⟨w, ws, hw⟩ := List.exists_cons_of_ne_nil hne
  rw [squeeze_cons_blank hd, squeeze, words_cons_cons_blank hc hd, squeeze, hw]
  rfl

lemma squeeze_cons_of_blank {c : Char} (hc : isBlank c = false) {t : Text} (ht : blank t = true) :
    squeeze (c :: t) = [c] := by
  have hword : IsWord [c] := ⟨by simp, by simpa using hc⟩
  have hwords : words (c :: t) = [[c]] := (words_append_of_blank ht [c]).trans hword.words_eq
  rw [squeeze, hwords]
  rfl

/-- A text and its squeezed form are relaid, apart from blanks around them. -/
lemma relaid_trim_squeeze (t : Text) : Relaid t.trim t.squeeze := by
  induction t with
  | nil => exact .nil
  | cons c t ih =>
    by_cases hc : isBlank c = true
    · have htrim : trim (c :: t) = trim t := by
        rw [trim, trimStart, List.dropWhile_cons_of_pos hc]
        rfl
      rw [htrim, squeeze_cons_blank hc]
      exact ih
    have hc : isBlank c = false := by simpa using hc
    have htrim : trim (c :: t) = trimEnd ([c] ++ t) := by
      rw [trim, trimStart_cons_of_not_blank hc]
      rfl
    rw [htrim]
    by_cases hblank : blank t = true
    · -- nothing but `c` is left
      have hend : trimEnd ([c] ++ t) = [c] :=
        (dropEndWhile_append_of_all hblank).trans (dropEndWhile_eq_self (by simpa using hc))
      rw [hend, squeeze_cons_of_blank hc hblank]
      exact .char hc .nil
    have hblank : blank t = false := by simpa using hblank
    rw [trimEnd_append_of_not_blank [c] hblank]
    cases t with
    | nil => exact absurd hblank (by decide)
    | cons d t =>
      by_cases hd : isBlank d = true
      · have hsplit : d :: t = (d :: t).takeWhile isBlank ++ trimStart (d :: t) :=
          List.takeWhile_append_dropWhile.symm
        have hrest : blank (trimStart (d :: t)) = false := by
          rw [← Bool.not_eq_true, ← words_eq_nil_iff, words_trimStart, words_eq_nil_iff, hblank]
          decide
        have htrim : trimEnd (d :: t) = (d :: t).takeWhile isBlank ++ trim (d :: t) := by
          nth_rewrite 1 [hsplit]
          rw [trimEnd_append_of_not_blank _ hrest, trim]
        rw [squeeze_cons_cons_blank hc hd hblank, htrim, List.singleton_append]
        exact .char hc (.gap (isGap_takeWhile hd t) (.one (by decide)) ih)
      · have hd : isBlank d = false := by simpa using hd
        rw [trim, trimStart_cons_of_not_blank hd] at ih
        rw [squeeze_cons_cons hc hd]
        exact .char hc ih

end Text

namespace Spelling

open Text (Relaid IsGap)

/-! ### Scans of a gap -/

/-- A blank means nothing to the scans. -/
lemma plain_of_isBlank {c : Char} (h : Text.isBlank c = true) :
    isPlain c = true ∧ isNameChar c = false ∧ c ≠ '\\' := by
  have hall : (isPlain c && !isNameChar c && c != '\\') = true :=
    Text.forall_isBlank (p := fun c => isPlain c && !isNameChar c && c != '\\') (by decide +kernel) h
  simpa [and_assoc] using hall

namespace Quote

lemma step_blank (quote : Quote) {c : Char} (hc : Text.isBlank c = true) :
    quote.step c = quote.step ' ' := by
  obtain ⟨hplain, -, hbackslash⟩ := plain_of_isBlank hc
  cases quote with
  | outside => simp [step, (not_plain hplain).1]
  | inside => simp [step, (not_plain hplain).1, hbackslash]
  | escaped => rfl

lemma step_space_step_space (quote : Quote) : (quote.step ' ').step ' ' = quote.step ' ' := by
  cases quote <;> rfl

lemma isInside_step_space (quote : Quote) : (quote.step ' ').isInside = quote.isInside := by
  cases quote <;> rfl

end Quote

namespace Bracket

variable {b : Bracket} {inner : Nat} {quote : Quote} {dash : Bool}

lemma untilClosed_blank {c : Char} (hc : Text.isBlank c = true) (cs : Text) :
    b.untilClosed inner quote dash (c :: cs) =
      behindText [c] (b.untilClosed inner (quote.step ' ') (quote.isInside && dash) cs) := by
  obtain ⟨hquote, hopening, hclosing, hless, hgreater, hdash⟩ := not_plain (plain_of_isBlank hc).1
  rw [← quote.step_blank hc]
  cases hq : quote.isInside with
  | true => rw [untilClosed_cons, if_pos hq, Bool.true_and]
  | false =>
    obtain rfl : quote = .outside := by cases quote <;> first | rfl | cases hq
    have hother : c ≠ b.opening ∧ c ≠ b.closing := by
      constructor
      · rintro rfl
        cases b <;> simp_all [isOpening, Bracket.opening]
      · rintro rfl
        cases b <;> simp_all [isClosing, Bracket.closing]
    rw [untilClosed_other hquote hother.1 (Or.inl hother.2), beq_false_of_ne hdash, Quote.step,
      if_neg hquote, Bool.false_and]

/-- Behind a gap the scan stands where it stands behind one blank. -/
lemma untilClosed_gap {x : Text} (hx : IsGap x) (t : Text) :
    b.untilClosed inner quote dash (x ++ t) =
      behindText x (b.untilClosed inner (quote.step ' ') (quote.isInside && dash) t) := by
  induction hx generalizing quote dash with
  | one hc => exact untilClosed_blank hc t
  | @more c x hc _ ih =>
    rw [List.cons_append, untilClosed_blank hc, ih, Quote.step_space_step_space,
      Quote.isInside_step_space, ← Bool.and_assoc, Bool.and_self, ← behindText_append]
    rfl

end Bracket

namespace Nesting

lemma step_space (s : Nesting) :
    s.step ' ' = { s with quote := s.quote.step ' ', behindName := false } := by
  have hname : isNameChar ' ' = false := by decide +kernel
  simp [step, isOpening, isClosing, hname]

lemma step_blank (s : Nesting) {c : Char} (hc : Text.isBlank c = true) : s.step c = s.step ' ' := by
  obtain ⟨hplain, hname, -⟩ := plain_of_isBlank hc
  obtain ⟨-, hopening, hclosing, hless, hgreater, -⟩ := not_plain hplain
  rw [step_space, ← s.quote.step_blank hc]
  simp [step, hopening, hclosing, hless, hgreater, hname]

lemma step_space_step_space (s : Nesting) : (s.step ' ').step ' ' = s.step ' ' := by
  rw [step_space (s.step ' '), step_space, Quote.step_space_step_space]

lemma isTop_step_space (s : Nesting) : (s.step ' ').isTop = s.isTop := by
  rw [step_space, isTop, Quote.isInside_step_space, isTop]

lemma keeps_blank (s : Nesting) {c : Char} (hc : Text.isBlank c = true) : s.keeps c = s.isTop := by
  obtain ⟨hquote, hopening, hclosing, hless, -⟩ := not_plain (plain_of_isBlank hc).1
  simp [keeps, hquote, hopening, hclosing, hless]

lemma marks_blank (s : Nesting) {c : Char} (hc : Text.isBlank c = true) (cs : Text) :
    s.marks (c :: cs) = (c, s.isTop) :: (s.step ' ').marks cs := by
  rw [marks_cons (not_plain (plain_of_isBlank hc).1).2.2.2.2.2, s.keeps_blank hc, s.step_blank hc]

/-- All blanks of a gap are outermost or none is, and behind it the scan stands where it stands behind one
blank. -/
lemma marks_gap (s : Nesting) {x : Text} (hx : IsGap x) (t : Text) :
    s.marks (x ++ t) = x.map (·, s.isTop) ++ (s.step ' ').marks t := by
  induction hx generalizing s with
  | one hc => exact s.marks_blank hc t
  | more hc _ ih =>
    rw [List.cons_append, s.marks_blank hc, ih, step_space_step_space, isTop_step_space]
    rfl

end Nesting

/-- Two scans found nothing, or both found groups, relaid and with relaid texts behind them. -/
abbrev RelaidGroups : Option (Text × Text) → Option (Text × Text) → Prop :=
  Option.Rel fun g g' => Relaid g.1 g'.1 ∧ Relaid g.2 g'.2

lemma RelaidGroups.behindText {f f' : Option (Text × Text)} (h : RelaidGroups f f') {x y : Text}
    (hxy : ∀ {t u : Text}, Relaid t u → Relaid (x ++ t) (y ++ u)) :
    RelaidGroups (Bracket.behindText x f) (Bracket.behindText y f') := by
  cases h with
  | none => exact .none
  | some h => exact .some ⟨hxy h.1, h.2⟩

lemma segments_ne_nil (sep : Char) (ms : List (Char × Bool)) : segments sep ms ≠ [] := by
  cases ms with
  | nil => exact List.cons_ne_nil _ _
  | cons m ms =>
    rw [segments]
    split
    · exact List.cons_ne_nil _ _
    · split <;> exact List.cons_ne_nil _ _

/-- Segments stay relaid when relaid texts without marked separators come in front of them. -/
lemma relaid_segments_append {sep : Char} (ms ms' : List (Char × Bool)) {ns ns' : List (Char × Bool)}
    (hms : ∀ m ∈ ms, m.2 = true → m.1 ≠ sep) (hms' : ∀ m ∈ ms', m.2 = true → m.1 ≠ sep)
    (hfront : ∀ {t u : Text}, Relaid t u → Relaid (ms.map (·.1) ++ t) (ms'.map (·.1) ++ u))
    (h : List.Forall₂ Relaid (segments sep ns) (segments sep ns')) :
    List.Forall₂ Relaid (segments sep (ms ++ ns)) (segments sep (ms' ++ ns')) := by
  obtain ⟨s, ss, hs⟩ := List.exists_cons_of_ne_nil (segments_ne_nil sep ns)
  obtain ⟨s', ss', hs'⟩ := List.exists_cons_of_ne_nil (segments_ne_nil sep ns')
  rw [hs, hs', List.forall₂_cons] at h
  rw [segments_append hms hs, segments_append hms' hs', List.forall₂_cons]
  exact ⟨hfront h.1, h.2⟩

/-- What follows the name of an attribute and its argument list, if it has one. -/
def afterArguments? : Text → Option Text
  | '(' :: args => (group? ('(' :: args)).map (·.2)
  | rest => some rest

lemma afterArguments?_of_head {t : Text} (h : t.head? ≠ some '(') : afterArguments? t = some t := by
  unfold afterArguments?
  split
  · exact absurd rfl h
  · rfl

lemma afterAttribute?_cons (c : Char) (cs : Text) :
    afterAttribute? ('@' :: c :: cs) =
      if isAttributeStart c then afterArguments? (cs.dropWhile isAttributeChar) else none :=
  rfl

end Spelling

/-! ### Scans of relaid texts -/

namespace Text.Relaid

open Spelling

variable {t u : Text}

/-- A group is closed by the same bracket, wherever the scan stands. -/
lemma untilClosed (h : Relaid t u) {b : Bracket} (inner : Nat) (quote : Quote) (dash : Bool) :
    RelaidGroups (b.untilClosed inner quote dash t) (b.untilClosed inner quote dash u) := by
  induction h generalizing inner quote dash with
  | nil => exact .none
  | @char c t u hc h ih =>
    have hcons : ∀ {t u : Text}, Relaid t u → Relaid ([c] ++ t) ([c] ++ u) := .char hc
    rw [Bracket.untilClosed_cons, Bracket.untilClosed_cons]
    split
    · exact (ih _ _ _).behindText hcons
    split
    · exact (ih _ _ _).behindText hcons
    split
    · exact (ih _ _ _).behindText hcons
    split
    · cases inner with
      | zero => exact .some ⟨.nil, h⟩
      | succ inner => exact (ih _ _ _).behindText hcons
    · exact (ih _ _ _).behindText hcons
  | gap hx hy _ ih =>
    rw [Bracket.untilClosed_gap hx, Bracket.untilClosed_gap hy]
    exact (ih _ _ _).behindText (.gap hx hy)

lemma isBlank_of_ofOpening? {c : Char} {b : Bracket} (h : Bracket.ofOpening? c = some b) :
    isBlank c = false := by
  unfold Bracket.ofOpening? at h
  split at h <;> first | decide | cases h

lemma group? (h : Relaid t u) : RelaidGroups (Spelling.group? t) (Spelling.group? u) := by
  rcases h.begins with ⟨rfl, rfl⟩ | ⟨c, t', u', -, rfl, rfl, h'⟩ | ⟨b, t', b', u', hb, hb', rfl, rfl⟩
  · exact .none
  · simp only [Spelling.group?]
    cases Bracket.ofOpening? c with
    | none => exact .none
    | some b => exact h'.untilClosed 0 .outside false
  · have hnone : ∀ {c : Char}, isBlank c = true → Bracket.ofOpening? c = none := by
      intro c hc
      cases hopen : Bracket.ofOpening? c with
      | none => rfl
      | some b =>
        rw [isBlank_of_ofOpening? hopen] at hc
        cases hc
    simp only [Spelling.group?, hnone hb, hnone hb']
    exact .none

/-- Relaid texts come apart at the same separators, wherever the scan stands.  An arrow is read in one
step, so the induction is on the length of the text. -/
lemma segments {sep : Char} (hsep : isBlank sep = false) (h : Relaid t u) (s : Nesting) :
    List.Forall₂ Relaid (Spelling.segments sep (s.marks t)) (Spelling.segments sep (s.marks u)) := by
  induction hn : t.length using Nat.strong_induction_on generalizing t u s with
  | h n ih =>
    cases h with
    | nil => exact .cons .nil .nil
    | @char c t u hc h =>
      by_cases harrow : c = '-' ∧ t.head? = some '>'
      · obtain ⟨rfl, hhead⟩ := harrow
        obtain ⟨t, rfl⟩ := List.head?_eq_some_iff.1 hhead
        obtain ⟨u, rfl, h'⟩ := h.of_cons (by decide)
        rw [Nesting.marks, Nesting.marks]
        refine relaid_segments_append [('-', false), ('>', false)] [('-', false), ('>', false)]
          (by simp) (by simp) ?_ (ih t.length ?_ h' _ rfl)
        · exact fun h => .char (by decide) (.char (by decide) h)
        · rw [← hn, List.length_cons, List.length_cons]
          omega
      · have harrow' : ¬(c = '-' ∧ u.head? = some '>') := by
          rwa [← h.head?_eq_iff (by decide)]
        have hrest := ih t.length (by rw [← hn, List.length_cons]; omega) h (s.step c) rfl
        rw [s.marks_cons_of_head harrow, s.marks_cons_of_head harrow']
        by_cases hmark : (s.keeps c && c == sep) = true
        · rw [Spelling.segments, if_pos hmark, Spelling.segments, if_pos hmark]
          exact .cons .nil hrest
        · have hother : ∀ m ∈ [(c, s.keeps c)], m.2 = true → m.1 ≠ sep := by
            simpa using hmark
          exact relaid_segments_append [(c, s.keeps c)] [(c, s.keeps c)] hother hother (.char hc) hrest
    | @gap x y t u hx hy h =>
      have hother : ∀ {x : Text}, IsGap x → ∀ m ∈ x.map (·, s.isTop), m.2 = true → m.1 ≠ sep := by
        intro x hx m hm _
        obtain ⟨c, hc, rfl⟩ := List.mem_map.1 hm
        rintro rfl
        rw [List.all_eq_true.1 hx.blank c hc] at hsep
        cases hsep
      have hlength : t.length < n := by
        obtain ⟨b, x', rfl, -⟩ := hx.exists_cons
        rw [← hn, List.length_append, List.length_cons]
        omega
      rw [s.marks_gap hx, s.marks_gap hy]
      refine relaid_segments_append _ _ (hother hx) (hother hy) (fun h => ?_)
        (ih t.length hlength h _ rfl)
      simpa [List.map_map, Function.comp_def] using Relaid.gap hx hy h

lemma blank_eq (h : Relaid t u) : t.blank = u.blank := by
  rw [Bool.eq_iff_iff, ← words_eq_nil_iff, ← words_eq_nil_iff, h.words_eq]

/-- The pieces agree up to their layout: the same ones are empty, and they have the same squeezed
forms. -/
lemma pieces {sep : Char} (hsep : isBlank sep = false) (h : Relaid t u) :
    List.Forall₂ (fun p q => p.isEmpty = q.isEmpty ∧ p.squeeze = q.squeeze)
      (Spelling.pieces sep t) (Spelling.pieces sep u) := by
  rw [Spelling.pieces, Spelling.pieces, h.blank_eq]
  split
  · exact .nil
  · rw [List.forall₂_map_left_iff, List.forall₂_map_right_iff]
    refine (h.segments hsep {}).imp fun p q hpq => ⟨?_, ?_⟩
    · rw [Bool.eq_iff_iff, List.isEmpty_iff, List.isEmpty_iff, trim_eq_nil_iff, trim_eq_nil_iff,
        hpq.blank_eq]
    · rw [squeeze, words_trim, hpq.words_eq, squeeze, words_trim]

/-! ### Readers of relaid texts -/

lemma none_or_some {α β : Type} {r : α → β → Prop} {f : Option α} {g : Option β} (h : Option.Rel r f g) :
    (f = none ∧ g = none) ∨ ∃ a b, f = some a ∧ g = some b ∧ r a b := by
  cases h with
  | none => exact Or.inl ⟨rfl, rfl⟩
  | some h => exact Or.inr ⟨_, _, rfl, rfl, h⟩

lemma findSome? {α : Type} {r : Text → Text → Prop} {f g : α → Option Text} {l : List α}
    (h : ∀ a ∈ l, Option.Rel r (f a) (g a)) : Option.Rel r (l.findSome? f) (l.findSome? g) := by
  induction l with
  | nil => exact .none
  | cons a l ih =>
    rw [List.findSome?_cons, List.findSome?_cons]
    rcases none_or_some (h a (by simp)) with ⟨hf, hg⟩ | ⟨t, u, hf, hg, htu⟩
    · rw [hf, hg]
      exact ih fun b hb => h b (List.mem_cons_of_mem a hb)
    · rw [hf, hg]
      exact .some htu

lemma afterArguments? (h : Relaid t u) :
    Option.Rel Relaid (Spelling.afterArguments? t) (Spelling.afterArguments? u) := by
  by_cases hopen : t.head? = some '('
  · obtain ⟨args, rfl⟩ := List.head?_eq_some_iff.1 hopen
    obtain ⟨args', rfl, -⟩ := h.of_cons (by decide)
    rw [Spelling.afterArguments?, Spelling.afterArguments?]
    rcases none_or_some h.group? with ⟨ht, hu⟩ | ⟨g, g', ht, hu, -, hrest⟩
    · rw [ht, hu]
      exact .none
    · rw [ht, hu]
      exact .some hrest
  · have hopen' : u.head? ≠ some '(' := by
      rwa [Ne, ← h.head?_eq_iff (by decide)]
    rw [afterArguments?_of_head hopen, afterArguments?_of_head hopen']
    exact .some h

lemma afterAttribute? (h : Relaid t u) :
    Option.Rel Relaid (Spelling.afterAttribute? t) (Spelling.afterAttribute? u) := by
  by_cases hat : t.head? = some '@'
  · obtain ⟨t, rfl⟩ := List.head?_eq_some_iff.1 hat
    obtain ⟨u, rfl, hname⟩ := h.of_cons (by decide)
    rcases hname.begins with ⟨rfl, rfl⟩ | ⟨c, t', u', -, rfl, rfl, hrest⟩ |
      ⟨b, t', b', u', hb, hb', rfl, rfl⟩
    · exact .none
    · rw [afterAttribute?_cons, afterAttribute?_cons]
      split
      · exact (hrest.dropWhile fun c => isAttributeChar_of_isBlank).afterArguments?
      · exact .none
    · have hstart : ∀ {c : Char}, isBlank c = true → isAttributeStart c = false := by
        intro c hc
        have hall : (!isAttributeStart c) = true :=
          forall_isBlank (p := fun c => !isAttributeStart c) (by decide +kernel) hc
        simpa using hall
      rw [afterAttribute?_cons, afterAttribute?_cons, hstart hb, hstart hb']
      exact .none
  · have hat' : u.head? ≠ some '@' := by
      rwa [Ne, ← h.head?_eq_iff (by decide)]
    rw [afterAttribute?_of_head hat, afterAttribute?_of_head hat']
    exact .none

lemma afterSpecifier? {word : Text} (hword : word ∈ specifiers) (h : Relaid t u) :
    Option.Rel Relaid (Spelling.afterSpecifier? word t) (Spelling.afterSpecifier? word u) := by
  have hplain : ∀ c ∈ word, isBlank c = false := fun c hc =>
    isBlank_of_isWordChar (isWordChar_of_specifier hword c hc)
  rw [Spelling.afterSpecifier?, Spelling.afterSpecifier?]
  rcases none_or_some (h.after? hplain) with ⟨ht, hu⟩ | ⟨rest, rest', ht, hu, hrest⟩
  · rw [ht, hu]
    exact .none
  · rw [ht, hu]
    rcases hrest.begins with ⟨rfl, rfl⟩ | ⟨c, t', u', hc, rfl, rfl, -⟩ |
      ⟨b, t', b', u', hb, hb', rfl, rfl⟩
    · exact .none
    · simp only [hc]
      exact .none
    · simp only [hb, hb', if_true]
      exact .some hrest

lemma afterQualifier? (h : Relaid t u) :
    Option.Rel Relaid (Spelling.afterQualifier? t) (Spelling.afterQualifier? u) := by
  have hspecifier := findSome? fun word hword => afterSpecifier? hword h
  rw [Spelling.afterQualifier?, Spelling.afterQualifier?]
  rcases none_or_some h.afterAttribute? with ⟨ht, hu⟩ | ⟨rest, rest', ht, hu, hrest⟩
  · rw [ht, hu, Option.none_or, Option.none_or]
    rcases none_or_some hspecifier with ⟨ht, hu⟩ | ⟨rest, rest', ht, hu, hrest⟩
    · rw [ht, hu]
      exact .none
    · rw [ht, hu]
      exact .some hrest.trimStart
  · rw [ht, hu]
    exact .some hrest.trimStart

/-- The qualifiers are dropped one by one from both texts. -/
lemma dropQualifiers (h : Relaid t u) :
    Relaid (Spelling.dropQualifiers t) (Spelling.dropQualifiers u) := by
  fun_induction Spelling.dropQualifiers t generalizing u with
  | case1 t rest hsome ih =>
    rcases none_or_some h.afterQualifier? with ⟨hnone, -⟩ | ⟨rest', restu, ht, hu, hrest⟩
    · rw [hsome] at hnone
      cases hnone
    · obtain rfl := Option.some.inj (hsome.symm.trans ht)
      rw [dropQualifiers_of_some hu]
      exact ih hrest
  | case2 t hnone =>
    rcases none_or_some h.afterQualifier? with ⟨-, hu⟩ | ⟨rest', restu, ht, -, -⟩
    · rw [dropQualifiers_of_none hu]
      exact h
    · rw [hnone] at ht
      cases ht

lemma forall_not_blank {w : Text} (h : (w.all fun c => !isBlank c) = true) :
    ∀ c ∈ w, isBlank c = false := by
  intro c hc
  simpa using List.all_eq_true.1 h c hc

lemma argumentsBehind? (h : Relaid t u) :
    Option.Rel Relaid (Spelling.argumentsBehind? t) (Spelling.argumentsBehind? u) := by
  have hword : ∀ c ∈ "Result".toList, isBlank c = false := forall_not_blank (by decide +kernel)
  rw [Spelling.argumentsBehind?, Spelling.argumentsBehind?]
  rcases none_or_some (h.after? hword) with ⟨ht, hu⟩ | ⟨rest, rest', ht, hu, hrest⟩
  · rw [ht, hu]
    exact .none
  rw [ht, hu, Option.map_some, Option.map_some]
  have hlist := hrest.trimStart
  by_cases hopen : rest.trimStart.head? = some '<'
  · obtain ⟨args, hargs⟩ := List.head?_eq_some_iff.1 hopen
    rw [hargs] at hlist ⊢
    obtain ⟨args', hargs', -⟩ := hlist.of_cons (by decide)
    rw [hargs'] at hlist ⊢
    exact .some hlist
  · have hopen' : rest'.trimStart.head? ≠ some '<' := by
      rwa [Ne, ← hlist.head?_eq_iff (by decide)]
    split
    · next heq => exact absurd (by rw [Option.some.inj heq]; rfl) hopen
    · split
      · next heq => exact absurd (by rw [Option.some.inj heq]; rfl) hopen'
      · exact .none

lemma resultArguments? (h : Relaid t u) :
    Option.Rel Relaid (Spelling.resultArguments? t) (Spelling.resultArguments? u) := by
  have hword : ∀ c ∈ "Swift.".toList, isBlank c = false := forall_not_blank (by decide +kernel)
  rw [resultArguments?_eq, resultArguments?_eq]
  rcases none_or_some (h.after? hword) with ⟨ht, hu⟩ | ⟨rest, rest', ht, hu, hrest⟩
  · rw [ht, hu]
    exact h.argumentsBehind?
  · rw [ht, hu]
    exact hrest.argumentsBehind?

/-- The two arguments of a result are found in both texts or in none. -/
lemma readArguments?_eq (h : Relaid t u) :
    ResultType.readArguments? t = ResultType.readArguments? u := by
  rw [ResultType.readArguments?, ResultType.readArguments?]
  rcases none_or_some h.group? with ⟨ht, hu⟩ | ⟨g, g', ht, hu, hinside, hrest⟩
  · rw [ht, hu]
  rw [ht, hu]
  have hcomma : isBlank ',' = false := by decide
  have hpieces := hinside.pieces hcomma
  have hempty : g.2.isEmpty = g'.2.isEmpty := by
    rw [Bool.eq_iff_iff, List.isEmpty_iff, List.isEmpty_iff, hrest.eq_nil_iff]
  simp only [Option.bind_eq_bind, Option.bind_some, hempty]
  generalize Spelling.pieces ',' g.1 = ps at hpieces ⊢
  generalize Spelling.pieces ',' g'.1 = qs at hpieces ⊢
  -- only two pieces are looked at, and these only for being empty and for their squeezed forms
  rcases hpieces with _ | ⟨hfirst, _ | ⟨hsecond, _ | ⟨-, -⟩⟩⟩
  · rfl
  · rfl
  · simp only [hfirst.1, hfirst.2, hsecond.1, hsecond.2]
  · rfl

end Text.Relaid

/-! ### Layout and classification -/

namespace Spelling

lemma unqualified_squeeze (t : Text) : unqualified t.squeeze = unqualified t := by
  rw [unqualified, Text.trim_squeeze, unqualified]
  exact (Text.relaid_trim_squeeze t).dropQualifiers.squeeze_eq.symm

lemma FunctionType.read?_squeeze (t : Text) : read? t.squeeze = read? t := by
  rw [read?, unqualified_squeeze, read?]

lemma ResultType.read?_squeeze (t : Text) : read? t.squeeze = read? t := by
  have h := Text.relaid_trim_squeeze t
  rw [read?_eq, read?_eq, Text.trim_squeeze]
  rcases Text.Relaid.none_or_some h.resultArguments? with ⟨ht, hu⟩ | ⟨args, args', ht, hu, hargs⟩
  · rw [ht, hu]
  · rw [ht, hu, Option.bind_some, Option.bind_some, hargs.readArguments?_eq]

lemma isVoid_squeeze (t : Text) : isVoid t.squeeze = isVoid t := by
  have hends : (t.filter fun c => !Text.isBlank c) = t.trim.filter fun c => !Text.isBlank c := by
    obtain ⟨x, y, hx, hy, ht⟩ := Text.exists_trim t
    nth_rewrite 1 [ht]
    rw [List.filter_append, List.filter_append, Text.filter_of_blank hx, Text.filter_of_blank hy,
      List.nil_append, List.append_nil]
  rw [isVoid, isVoid, hends, (Text.relaid_trim_squeeze t).filter_eq]

end Spelling

lemma Delivery.ofType_squeeze (t : Text) (s : Suspension) : ofType t.squeeze s = ofType t s := by
  rw [ofType, payload?, Spelling.FunctionType.read?_squeeze, ofType, payload?]

namespace Spelling

/-- **Layout never changes a classification.**  Texts with the same squeezed form show the same type
behind their qualifiers, the same function type and the same result type, they both spell the empty
tuple or neither does, and completions of these types deliver the same.  In particular, a type that was
squeezed when it was read is classified like the type as it was written. -/
theorem layout_irrelevant {t u : Text} (h : t.squeeze = u.squeeze) :
    unqualified t = unqualified u ∧
      FunctionType.read? t = FunctionType.read? u ∧
      ResultType.read? t = ResultType.read? u ∧
      isVoid t = isVoid u ∧
      (∀ s, Delivery.ofType t s = Delivery.ofType u s) ∧
      ∀ s, Delivery.ofType t.squeeze s = Delivery.ofType t s := by
  refine ⟨?_, ?_, ?_, ?_, fun s => ?_, fun s => Delivery.ofType_squeeze t s⟩
  · rw [← unqualified_squeeze, h, unqualified_squeeze]
  · rw [← FunctionType.read?_squeeze, h, FunctionType.read?_squeeze]
  · rw [← ResultType.read?_squeeze, h, ResultType.read?_squeeze]
  · rw [← isVoid_squeeze, h, isVoid_squeeze]
  · rw [← Delivery.ofType_squeeze, h, Delivery.ofType_squeeze]

/-- A completion on one line. -/
def completionOnOneLine : Text :=
  "@escaping @Sendable (Result<[String : Data], Error> ) -> Void".toList

/-- The same completion on several lines, with tabs and a wide space. -/
def completionOnLines : Text :=
  "\n  @escaping\n  @Sendable (Result<[String\t:\u3000Data],\n\tError>\n) ->\n Void\n".toList

theorem layout_irrelevant_completion :
    completionOnLines.squeeze = completionOnOneLine.squeeze ∧
      Delivery.ofType completionOnLines ⟨true, true⟩ =
        Delivery.ofType completionOnOneLine ⟨true, true⟩ ∧
      Delivery.ofType completionOnOneLine ⟨true, true⟩ =
        .ok (.result "[String : Data]".toList "Error".toList) := by
  have h : completionOnLines.squeeze = completionOnOneLine.squeeze := by decide +kernel
  exact ⟨h, (layout_irrelevant h).2.2.2.2.1 ⟨true, true⟩, by decide +kernel⟩

end Spelling

end AsyncPeer
