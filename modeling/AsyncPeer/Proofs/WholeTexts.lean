/-
# Whole texts

A text is whole if it means nothing to the separation of a list into its entries: read on its own, the
scan ends where it began, outside of all brackets and string literals, and no comma of the text is
outermost (`Whole`).  This asks less than `Balanced`, which describes how a text is built: a bracket too
many that closes nothing and a `<` that opens nothing are allowed.

What a scan does behind a text depends on the state there, `Nesting.after`.  Behind a whole text and a
blank the state is the one that the scan began with, so that whole texts can be written one behind the
other with blanks between them (`Whole.spaced`), and a list of them comes apart again (`pieces_whole`).
Trimming and squeezing keep texts whole, because relaid texts lead to the same state (`after_relaid`).
-/
import AsyncPeer.Proofs.LayoutFree

namespace AsyncPeer.Spelling

open Text (Relaid IsGap)

/-! ### The state behind a text -/

namespace Nesting

/-- The state in which a scan is when it has read the text. -/
def after (s : Nesting) : Text → Nesting
  | [] => s
  | '-' :: '>' :: cs => after s.stepArrow cs
  | c :: cs => after (s.step c) cs

lemma after_cons_of_head (s : Nesting) {c : Char} {cs : Text}
    (h : ¬(c = '-' ∧ cs.head? = some '>')) : s.after (c :: cs) = (s.step c).after cs := by
  rw [after]
  rintro rest rfl rfl
  exact h ⟨rfl, rfl⟩

/-- No arrow is made of the end of one text and the beginning of the next one. -/
lemma not_arrow_append {c : Char} {cs rest : Text} (h : ∀ cs', c = '-' → cs = '>' :: cs' → False)
    (hrest : rest.head? ≠ some '>') : ¬(c = '-' ∧ (cs ++ rest).head? = some '>') := by
  rintro ⟨hc, hhead⟩
  cases cs with
  | nil => exact hrest hhead
  | cons d cs =>
    obtain rfl := Option.some.inj hhead
    exact h cs hc rfl

/-- A scan of two texts goes on in the second one from the state behind the first one. -/
lemma marks_append (s : Nesting) (t : Text) {rest : Text} (hrest : rest.head? ≠ some '>') :
    s.marks (t ++ rest) = s.marks t ++ (s.after t).marks rest := by
  fun_induction after s t with
  | case1 => rfl
  | case2 s cs ih =>
    rw [List.cons_append, List.cons_append, marks, marks, ih]
    rfl
  | case3 s c cs h ih =>
    have harrow : ¬(c = '-' ∧ cs.head? = some '>') := by
      simpa using not_arrow_append h (by simp : ([] : Text).head? ≠ some '>')
    rw [List.cons_append, s.marks_cons_of_head (not_arrow_append h hrest), s.marks_cons_of_head harrow,
      ih]
    rfl

lemma after_append (s : Nesting) (t : Text) {rest : Text} (hrest : rest.head? ≠ some '>') :
    s.after (t ++ rest) = (s.after t).after rest := by
  fun_induction after s t with
  | case1 => rfl
  | case2 s cs ih =>
    rw [List.cons_append, List.cons_append, after, ih]
  | case3 s c cs h ih =>
    rw [List.cons_append, s.after_cons_of_head (not_arrow_append h hrest), ih]

lemma isTop_iff {s : Nesting} :
    s.isTop = true ↔ s.quote = .outside ∧ s.brackets = 0 ∧ s.angles = 0 := by
  rw [isTop]
  cases s.quote <;> simp [Quote.isInside]

/-- A character that is not part of a name leads a scan back to its beginning, if nothing is open. -/
lemma step_of_isTop {s : Nesting} (hs : s.isTop = true) {c : Char} (hc : isPlain c = true)
    (hname : isNameChar c = false) : s.step c = {} := by
  obtain ⟨hquote, hbrackets, hangles⟩ := isTop_iff.1 hs
  obtain ⟨brackets, angles, quote, behindName⟩ := s
  obtain rfl : quote = .outside := hquote
  obtain rfl : brackets = 0 := hbrackets
  obtain rfl : angles = 0 := hangles
  rw [step_plain rfl hc, hname]

lemma step_space_of_isTop {s : Nesting} (hs : s.isTop = true) : s.step ' ' = {} :=
  step_of_isTop hs (by decide) (by decide +kernel)

/-- Plain characters open and close nothing. -/
lemma isTop_after_plain {t : Text} (ht : ∀ c ∈ t, isPlain c = true) {s : Nesting}
    (hs : s.isTop = true) : (s.after t).isTop = true := by
  induction t generalizing s with
  | nil => exact hs
  | cons c t ih =>
    obtain ⟨hc, ht⟩ := List.forall_mem_cons.1 ht
    have hquote := (isTop_iff.1 hs).1
    have hdash : ¬(c = '-' ∧ t.head? = some '>') := fun h => (not_plain hc).2.2.2.2.2 h.1
    rw [s.after_cons_of_head hdash, step_plain hquote hc]
    exact ih ht hs

/-- Behind a gap a scan stands where it stands behind one blank. -/
lemma after_gap (s : Nesting) {x : Text} (hx : IsGap x) (t : Text) :
    s.after (x ++ t) = (s.step ' ').after t := by
  have hcons : ∀ (s : Nesting) {c : Char}, Text.isBlank c = true → ∀ cs : Text,
      s.after (c :: cs) = (s.step ' ').after cs := by
    intro s c hc cs
    have hdash : ¬(c = '-' ∧ cs.head? = some '>') := fun h =>
      (not_plain (plain_of_isBlank hc).1).2.2.2.2.2 h.1
    rw [s.after_cons_of_head hdash, s.step_blank hc]
  induction hx generalizing s with
  | one hc => exact hcons s hc t
  | more hc _ ih => rw [List.cons_append, hcons s hc, ih, step_space_step_space]

lemma isTop_after_blank {s : Nesting} {y : Text} (hy : y.blank = true) :
    (s.after y).isTop = s.isTop := by
  cases y with
  | nil => rfl
  | cons b y =>
    rw [Text.blank, List.all_cons, Bool.and_eq_true] at hy
    have hafter := s.after_gap (.of_blank hy.1 hy.2) []
    rw [List.append_nil] at hafter
    rw [hafter]
    exact s.isTop_step_space

/-- Relaid texts lead to the same state.  An arrow is read in one step, so the induction is on the
length of the text. -/
lemma after_relaid {t u : Text} (h : Relaid t u) (s : Nesting) : s.after t = s.after u := by
  induction hn : t.length using Nat.strong_induction_on generalizing t u s with
  | h n ih =>
    cases h with
    | nil => rfl
    | @char c t u hc h =>
      by_cases harrow : c = '-' ∧ t.head? = some '>'
      · obtain ⟨rfl, hhead⟩ := harrow
        obtain ⟨t, rfl⟩ := List.head?_eq_some_iff.1 hhead
        obtain ⟨u, rfl, h'⟩ := h.of_cons (by decide)
        have hlength : t.length < n := by
          rw [← hn, List.length_cons, List.length_cons]
          omega
        exact ih t.length hlength h' _ rfl
      · have harrow' : ¬(c = '-' ∧ u.head? = some '>') := by
          rwa [← h.head?_eq_iff (by decide)]
        rw [s.after_cons_of_head harrow, s.after_cons_of_head harrow']
        exact ih t.length (by rw [← hn, List.length_cons]; omega) h (s.step c) rfl
    | @gap x y t u hx hy h =>
      have hlength : t.length < n := by
        obtain ⟨b, x', rfl, -⟩ := hx.exists_cons
        rw [← hn, List.length_append, List.length_cons]
        omega
      rw [s.after_gap hx, s.after_gap hy]
      exact ih t.length hlength h _ rfl

end Nesting

lemma head?_of_blank {y : Text} (hy : y.blank = true) : y.head? ≠ some '>' := by
  intro hhead
  obtain ⟨y, rfl⟩ := List.head?_eq_some_iff.1 hhead
  cases hy

/-- Behind blanks a text is marked as it is alone. -/
lemma outermost_suffix_of_blank {x : Text} (hx : x.blank = true) (t : Text) :
    outermost t <:+ outermost (x ++ t) := by
  cases x with
  | nil => exact List.suffix_refl _
  | cons b x =>
    rw [Text.blank, List.all_cons, Bool.and_eq_true] at hx
    have hspace : Nesting.step {} ' ' = {} := Nesting.step_space_of_isTop rfl
    rw [outermost, outermost, Nesting.marks_gap {} (.of_blank hx.1 hx.2), hspace]
    exact List.suffix_append _ _

lemma outermost_prefix_of_blank {y : Text} (hy : y.blank = true) (t : Text) :
    outermost t <+: outermost (t ++ y) := by
  rw [outermost, outermost, Nesting.marks_append {} t (head?_of_blank hy)]
  exact List.prefix_append _ _

/-! ### Whole texts -/

/-- Read on its own, the text leaves nothing open, and none of its commas is outermost. -/
structure Whole (t : Text) : Prop where
  closes : (Nesting.after {} t).isTop = true
  noComma : ∀ m ∈ outermost t, m.2 = true → m.1 ≠ ','

/-- There is one segment more than there are marked separators. -/
lemma length_segments (sep : Char) (ms : List (Char × Bool)) :
    (segments sep ms).length = ms.countP (fun m => m.2 && m.1 == sep) + 1 := by
  induction ms with
  | nil => rfl
  | cons m ms ih =>
    rw [segments, List.countP_cons]
    split
    · rw [List.length_cons, ih]
    · obtain ⟨s, ss, hs⟩ := List.exists_cons_of_ne_nil (segments_ne_nil sep ms)
      rw [hs] at ih ⊢
      rw [List.length_cons, ← List.length_cons, ih]

lemma noComma_iff {ms : List (Char × Bool)} :
    (∀ m ∈ ms, m.2 = true → m.1 ≠ ',') ↔ (segments ',' ms).length = 1 := by
  rw [length_segments, Nat.add_eq_right, List.countP_eq_zero]
  simp

/-- Reading the text tells whether it is whole. -/
lemma whole_iff {t : Text} :
    Whole t ↔ (Nesting.after {} t).isTop = true ∧ (segments ',' (outermost t)).length = 1 := by
  rw [← noComma_iff]
  exact ⟨fun h => ⟨h.closes, h.noComma⟩, fun h => ⟨h.1, h.2⟩⟩

instance (t : Text) : Decidable (Whole t) :=
  decidable_of_iff _ whole_iff.symm

namespace Whole

variable {t u : Text}

/-- Plain characters other than commas make a whole text. -/
lemma of_plain (h : ∀ c ∈ t, isPlain c = true ∧ c ≠ ',') : Whole t where
  closes := Nesting.isTop_after_plain (fun c hc => (h c hc).1) rfl
  noComma m hm _ := by
    have hmem : m.1 ∈ (outermost t).map (·.1) := List.mem_map_of_mem hm
    rw [outermost, map_fst_marks] at hmem
    exact (h m.1 hmem).2

/-- Whether a text is whole does not depend on its layout. -/
lemma relaid (h : Relaid t u) (ht : Whole t) : Whole u where
  closes := Nesting.after_relaid h {} ▸ ht.closes
  noComma := by
    have hcomma : Text.isBlank ',' = false := by decide
    have hsegments := h.segments hcomma {}
    rw [noComma_iff, outermost, ← hsegments.length_eq]
    exact noComma_iff.1 ht.noComma

/-- The scan begins anew behind a blank. -/
lemma outermost_spaced (ht : (Nesting.after {} t).isTop = true) (u : Text) :
    outermost (t ++ ' ' :: u) = outermost t ++ (' ', true) :: outermost u := by
  rw [outermost, Nesting.marks_append _ t (by simp), Nesting.marks_blank _ (by decide),
    Nesting.step_space_of_isTop ht, ht]
  rfl

lemma after_spaced (ht : (Nesting.after {} t).isTop = true) (u : Text) :
    Nesting.after {} (t ++ ' ' :: u) = Nesting.after {} u := by
  rw [Nesting.after_append _ t (by simp), Nesting.after_cons_of_head _ (by simp),
    Nesting.step_space_of_isTop ht]

/-- Whole texts with a blank between them are whole. -/
lemma spaced (ht : Whole t) (hu : Whole u) : Whole (t ++ ' ' :: u) where
  closes := by
    rw [after_spaced ht.closes]
    exact hu.closes
  noComma m hm hmark := by
    rw [outermost_spaced ht.closes, List.mem_append, List.mem_cons] at hm
    rcases hm with hm | rfl | hm
    · exact ht.noComma m hm hmark
    · decide
    · exact hu.noComma m hm hmark

lemma of_blank_append {x : Text} (hx : x.blank = true) (h : Whole (x ++ t)) : Whole t := by
  refine ⟨?_, fun m hm => h.noComma m ((outermost_suffix_of_blank hx t).subset hm)⟩
  have hcloses := h.closes
  cases x with
  | nil => exact hcloses
  | cons b x =>
    rw [Text.blank, List.all_cons, Bool.and_eq_true] at hx
    have hspace : Nesting.step {} ' ' = {} := Nesting.step_space_of_isTop rfl
    rwa [Nesting.after_gap {} (.of_blank hx.1 hx.2), hspace] at hcloses

lemma of_append_blank {y : Text} (hy : y.blank = true) (h : Whole (t ++ y)) : Whole t := by
  refine ⟨?_, fun m hm => h.noComma m ((outermost_prefix_of_blank hy t).subset hm)⟩
  have hcloses := h.closes
  rwa [Nesting.after_append _ t (head?_of_blank hy), Nesting.isTop_after_blank hy] at hcloses

/-- A whole text without the blanks around it is whole. -/
lemma trim (ht : Whole t) : Whole t.trim := by
  obtain ⟨x, y, hx, hy, heq⟩ := Text.exists_trim t
  rw [heq, List.append_assoc] at ht
  exact of_append_blank hy (of_blank_append hx ht)

lemma squeeze (ht : Whole t) : Whole t.squeeze :=
  relaid (Text.relaid_trim_squeeze t) ht.trim

end Whole

/-! ### Lists of whole texts -/

/-- Whole texts come apart where they were joined. -/
lemma segments_whole {x : Text} {xs : List Text} (h : ∀ y ∈ x :: xs, Whole y) :
    segments ',' (outermost (Text.join ", ".toList (x :: xs))) = x :: xs.map ([' '] ++ ·) := by
  induction xs generalizing x with
  | nil =>
    have hnil : segments ',' [] = [[]] := rfl
    have hx := segments_append (h x (by simp)).noComma hnil
    rw [List.append_nil, outermost, map_fst_marks, List.append_nil] at hx
    exact hx
  | cons y xs ih =>
    obtain ⟨hx, hxs⟩ := List.forall_mem_cons.1 h
    have hrest := ih hxs
    have hjoin : Text.join ", ".toList (x :: y :: xs) =
        x ++ ',' :: ' ' :: Text.join ", ".toList (y :: xs) := by
      rw [Text.join_cons_cons, List.append_assoc]
      rfl
    -- the comma is outermost, and so is the blank behind it, where the scan begins anew
    have hmarks : outermost (Text.join ", ".toList (x :: y :: xs)) =
        outermost x ++ (',', true) :: (' ', true) :: outermost (Text.join ", ".toList (y :: xs)) := by
      have hcomma := Nesting.step_of_isTop hx.closes (c := ',') (by decide) (by decide +kernel)
      have hspace : Nesting.step {} ' ' = {} := Nesting.step_space_of_isTop rfl
      rw [hjoin, outermost, Nesting.marks_append _ x (by simp), Nesting.marks_cons (by decide),
        Nesting.keeps_plain hx.closes (by decide), hcomma, Nesting.marks_blank _ (by decide), hspace]
      rfl
    have hsegments : segments ','
        ((',', true) :: (' ', true) :: outermost (Text.join ", ".toList (y :: xs))) =
        [] :: ([' '] ++ y) :: xs.map ([' '] ++ ·) := by
      rw [segments, segments, hrest]
      rfl
    rw [hmarks, segments_append hx.noComma hsegments, outermost, map_fst_marks, List.append_nil,
      List.map_cons]

/-- A list of whole texts has them as its pieces, without the blanks around them. -/
lemma pieces_whole {xs : List Text} (h : ∀ x ∈ xs, Whole x ∧ x.blank = false) :
    pieces ',' (Text.join ", ".toList xs) = xs.map Text.trim := by
  cases xs with
  | nil => rfl
  | cons x xs =>
    have hblank : (Text.join ", ".toList (x :: xs)).blank = false := by
      have hx := (h x (by simp)).2
      cases xs with
      | nil => exact hx
      | cons y xs =>
        rw [Text.join_cons_cons, Text.blank, List.all_append, List.all_append, ← Text.blank, hx]
        rfl
    have hspace : ∀ y ∈ xs, Text.trim ([' '] ++ y) = Text.trim y := fun y _ => Text.trim_space_append y
    rw [pieces, hblank, segments_whole fun y hy => (h y hy).1, List.map_cons, List.map_cons,
      List.map_map]
    exact congrArg (Text.trim x :: ·) (List.map_congr_left hspace)

end AsyncPeer.Spelling
