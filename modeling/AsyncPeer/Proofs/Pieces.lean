/-
# Cutting at a separator

`pieces` cuts a text at the outermost occurrences of a separator.  Nothing is lost by it but the blanks
at the ends of the pieces: what stands between the cuts, with the separator put back, is the text, and
the cuts are at the offsets of the outermost separators (`CutsAt`).

A piece has no outermost separator left.  That is not clear from the cut, because a piece is then read
on its own and not in the place where it stood.  But where a separator is outermost nothing is open, and
a separator that is not part of a name leaves nothing behind either, so that the scan begins anew
(`Nesting.step_of_keeps`): each segment is marked in its place as it is marked alone
(`segments_unsplit`).  Behind a separator such as a letter this fails, since a `<` behind it would open
an argument list.
-/
import AsyncPeer.Proofs.Boundary
import AsyncPeer.Proofs.Unqualified
import AsyncPeer.Proofs.WholeTexts

namespace AsyncPeer.Spelling

/-! ### Nothing is lost -/

/-- The byte offsets of the separators between the segments, the first of which begins at `start`. -/
def separatorOffsets (sep : Char) : (start : Nat) → List Text → List Nat
  | _, [] => []
  | _, [_] => []
  | start, s :: u :: rest =>
    (start + s.byteSize) :: separatorOffsets sep (start + s.byteSize + sep.utf8Size) (u :: rest)

/-- The text is cut into the segments at its outermost separators. -/
structure CutsAt (sep : Char) (t : Text) (ss : List Text) : Prop where
  joined : Text.join [sep] ss = t
  offsets : separatorOffsets sep 0 ss = ((positions t).filter (·.2 == sep)).map (·.1)

lemma separatorOffsets_nil_cons (sep : Char) (start : Nat) (s : Text) (rest : List Text) :
    separatorOffsets sep start ([] :: s :: rest) =
      start :: separatorOffsets sep (start + sep.utf8Size) (s :: rest) := rfl

lemma separatorOffsets_cons_cons (sep : Char) (start : Nat) (c : Char) (s : Text) (rest : List Text) :
    separatorOffsets sep start ((c :: s) :: rest) =
      separatorOffsets sep (start + c.utf8Size) (s :: rest) := by
  cases rest with
  | nil => rfl
  | cons u rest =>
    rw [separatorOffsets, separatorOffsets, Text.byteSize_cons, ← Nat.add_assoc]

/-- A character that is not cut at stays in the first segment. -/
lemma segments_cons_of_not {sep c : Char} {marked : Bool} (h : (marked && c == sep) = false)
    {ms : List (Char × Bool)} {s : Text} {ss : List Text} (hms : segments sep ms = s :: ss) :
    segments sep ((c, marked) :: ms) = (c :: s) :: ss := by
  rw [segments, h, hms]
  rfl

lemma segments_cons_of_sep {sep c : Char} {marked : Bool} (h : (marked && c == sep) = true)
    (ms : List (Char × Bool)) : segments sep ((c, marked) :: ms) = [] :: segments sep ms := by
  rw [segments, if_pos h]

/-- The segments and the separators between them make up the text. -/
lemma join_segments (sep : Char) (ms : List (Char × Bool)) :
    Text.join [sep] (segments sep ms) = ms.map (·.1) := by
  induction ms with
  | nil => rfl
  | cons m ms ih =>
    obtain ⟨c, marked⟩ := m
    obtain ⟨s, ss, hss⟩ := List.exists_cons_of_ne_nil (segments_ne_nil sep ms)
    rw [hss] at ih
    rw [List.map_cons, ← ih]
    cases hcut : marked && c == sep with
    | true =>
      obtain rfl : c = sep := by simp_all
      rw [segments_cons_of_sep hcut, hss]
      rfl
    | false =>
      rw [segments_cons_of_not hcut hss]
      cases ss <;> rfl

lemma separatorOffsets_segments (sep : Char) (ms : List (Char × Bool)) (start : Nat) :
    separatorOffsets sep start (segments sep ms) =
      ((positionsFrom start ms).filter (·.2 == sep)).map (·.1) := by
  induction ms generalizing start with
  | nil => rfl
  | cons m ms ih =>
    obtain ⟨c, marked⟩ := m
    have hrest := ih (start + c.utf8Size)
    obtain ⟨s, ss, hss⟩ := List.exists_cons_of_ne_nil (segments_ne_nil sep ms)
    rw [hss] at hrest
    cases hcut : marked && c == sep with
    | true =>
      obtain ⟨rfl, rfl⟩ : marked = true ∧ c = sep := by simpa using hcut
      rw [segments_cons_of_sep hcut, hss, separatorOffsets_nil_cons, hrest, positionsFrom,
        List.filter_cons_of_pos (by simp)]
      rfl
    | false =>
      rw [segments_cons_of_not hcut hss, separatorOffsets_cons_cons, hrest]
      cases marked with
      | false => rfl
      | true => rw [positionsFrom, List.filter_cons_of_neg (by simpa using hcut)]

lemma cutsAt_segments (sep : Char) (t : Text) : CutsAt sep t (segments sep (outermost t)) where
  joined := by rw [join_segments, outermost, map_fst_marks]
  offsets := separatorOffsets_segments sep (outermost t) 0

/-! ### Nothing is left to cut -/

/-- An outermost character that is not part of a name leads the scan back to its beginning. -/
lemma Nesting.step_of_keeps {s : Nesting} {c : Char} (hkeeps : s.keeps c = true)
    (hname : isNameChar c = false) : s.step c = {} := by
  rw [keeps, Bool.and_eq_true] at hkeeps
  obtain ⟨htop, hkeeps⟩ := hkeeps
  obtain ⟨hquote, hbrackets, hangles⟩ := isTop_iff.1 htop
  obtain ⟨brackets, angles, quote, behindName⟩ := s
  obtain rfl : quote = .outside := hquote
  obtain rfl : brackets = 0 := hbrackets
  obtain rfl : angles = 0 := hangles
  simp only [Bool.not_eq_true', Bool.or_eq_false_iff, Bool.and_eq_false_imp, beq_iff_eq,
    beq_eq_false_iff_ne] at hkeeps
  obtain ⟨⟨⟨hquote, hopening⟩, hclosing⟩, hless⟩ := hkeeps
  have hangle : ¬(c = '<' ∧ behindName = true) := fun h => by simp [hless h.1] at h
  simp [step, Quote.step, Quote.isInside, hquote, hopening, hclosing, hangle, hname]

/-- No separator of the text is outermost for a scan that begins in the state. -/
def Unsplit (sep : Char) (s : Nesting) (t : Text) : Prop :=
  ∀ m ∈ s.marks t, m.2 = true → m.1 ≠ sep

/-- What stands in front of the first cut is a beginning of the text. -/
lemma head?_of_segments {sep : Char} {ms : List (Char × Bool)} {u : Text} {us : List Text}
    (h : segments sep ms = u :: us) {c : Char} (hc : u.head? = some c) :
    (ms.map (·.1)).head? = some c := by
  obtain ⟨u, rfl⟩ := List.head?_eq_some_iff.1 hc
  rw [← join_segments sep ms, h]
  cases us <;> rfl

/-- The first segment is marked as in its place, and the others as the scan marks them alone. -/
lemma segments_unsplit {sep : Char} (hname : isNameChar sep = false) (s : Nesting) (t : Text) :
    ∃ u us, segments sep (s.marks t) = u :: us ∧ Unsplit sep s u ∧ ∀ v ∈ us, Unsplit sep {} v := by
  fun_induction Nesting.marks s t with
  | case1 s => exact ⟨[], [], rfl, by simp [Unsplit, Nesting.marks], by simp⟩
  | case2 s cs ih =>
    obtain ⟨u, us, hsegments, hu, hus⟩ := ih
    have hgreater : segments sep (('>', false) :: s.stepArrow.marks cs) = ('>' :: u) :: us :=
      segments_cons_of_not rfl hsegments
    refine ⟨'-' :: '>' :: u, us, segments_cons_of_not rfl hgreater, ?_, hus⟩
    rw [Unsplit, Nesting.marks, List.forall_mem_cons, List.forall_mem_cons]
    exact ⟨by simp, by simp, hu⟩
  | case3 s c cs harrow ih =>
    obtain ⟨u, us, hsegments, hu, hus⟩ := ih
    cases hcut : s.keeps c && c == sep with
    | true =>
      obtain ⟨hkeeps, rfl⟩ : s.keeps c = true ∧ c = sep := by simpa using hcut
      rw [Nesting.step_of_keeps hkeeps hname] at hsegments hu
      rw [segments_cons_of_sep hcut, Nesting.step_of_keeps hkeeps hname, hsegments]
      exact ⟨[], u :: us, rfl, by simp [Unsplit, Nesting.marks], List.forall_mem_cons.2 ⟨hu, hus⟩⟩
    | false =>
      refine ⟨c :: u, us, segments_cons_of_not hcut hsegments, ?_, hus⟩
      -- the segment ends where the text goes on, so that it begins with an arrow only if the text does
      have hhead : ¬(c = '-' ∧ u.head? = some '>') := by
        rintro ⟨hdash, hu⟩
        have hcs := head?_of_segments hsegments hu
        rw [map_fst_marks] at hcs
        obtain ⟨cs', rfl⟩ := List.head?_eq_some_iff.1 hcs
        exact harrow cs' hdash rfl
      rw [Unsplit, s.marks_cons_of_head hhead, List.forall_mem_cons]
      exact ⟨by simpa using hcut, hu⟩

lemma unsplit_of_mem_segments {sep : Char} (hname : isNameChar sep = false) {t u : Text}
    (hu : u ∈ segments sep (outermost t)) : Unsplit sep {} u := by
  obtain ⟨v, vs, hsegments, hv, hvs⟩ := segments_unsplit hname {} t
  rw [outermost, hsegments] at hu
  exact List.forall_mem_cons.2 ⟨hv, hvs⟩ u hu

/-- A trimmed text is marked as it is with the blanks around it. -/
lemma Unsplit.trim {sep : Char} {t : Text} (h : Unsplit sep {} t) : Unsplit sep {} t.trim := by
  obtain ⟨x, y, hx, hy, ht⟩ := Text.exists_trim t
  intro m hm
  refine h m ?_
  change m ∈ outermost t
  rw [ht, List.append_assoc]
  exact (outermost_suffix_of_blank hx _).subset ((outermost_prefix_of_blank hy _).subset hm)

lemma pieces_of_unsplit {sep : Char} {t : Text} (ht : t.blank = false) (h : Unsplit sep {} t) :
    pieces sep t = [t.trim] := by
  have hsegments : segments sep (outermost t ++ []) = [(outermost t).map (·.1) ++ []] :=
    segments_append h rfl
  rw [List.append_nil, List.append_nil, outermost, map_fst_marks] at hsegments
  rw [pieces, ht, outermost, hsegments]
  rfl

/-- **A text is cut completely and nothing of it is lost.**  The pieces of a text are its segments between
the outermost separators, trimmed, and the segments with the separators between them are the text.  A
separator that is not part of a name cuts no piece again. -/
theorem pieces_complete {t : Text} (ht : t.blank = false) (sep : Char) :
    (∃ s ss, CutsAt sep t (s :: ss) ∧ pieces sep t = (s :: ss).map Text.trim) ∧
      (isNameChar sep = false → ∀ p ∈ pieces sep t, p ≠ [] → pieces sep p = [p]) := by
  have hpieces : pieces sep t = (segments sep (outermost t)).map Text.trim := by
    rw [pieces, ht]
    rfl
  constructor
  · obtain ⟨s, ss, hss⟩ := List.exists_cons_of_ne_nil (segments_ne_nil sep (outermost t))
    have hcuts := cutsAt_segments sep t
    rw [hss] at hcuts hpieces
    exact ⟨s, ss, hcuts, hpieces⟩
  · intro hname p hp hne
    rw [hpieces] at hp
    obtain ⟨u, hu, rfl⟩ := List.mem_map.1 hp
    have hblank : u.trim.blank = false := by
      rw [← Bool.not_eq_true, ← Text.trim_eq_nil_iff, Text.trim_trim]
      exact hne
    rw [pieces_of_unsplit hblank (unsplit_of_mem_segments hname hu).trim, Text.trim_trim]

/-- A list with a bracket too many, an empty entry and a string literal that is not closed. -/
def unclosedList : Text :=
  " é<a, b>, (c, d]), e ,, \"f, g".toList

theorem pieces_complete_unclosedList :
    unclosedList.blank = false ∧ isNameChar ',' = false ∧
      pieces ',' unclosedList = ["é<a, b>", "(c, d])", "e", "", "\"f, g"].map String.toList ∧
      (∃ s ss, CutsAt ',' unclosedList (s :: ss) ∧
        pieces ',' unclosedList = (s :: ss).map Text.trim) ∧
      pieces ',' "(c, d])".toList = ["(c, d])".toList] := by
  have hblank : unclosedList.blank = false := by decide
  have hname : isNameChar ',' = false := by decide +kernel
  have hpieces : pieces ',' unclosedList =
      ["é<a, b>", "(c, d])", "e", "", "\"f, g"].map String.toList := by decide +kernel
  obtain ⟨hcuts, hagain⟩ := pieces_complete hblank ','
  refine ⟨hblank, hname, hpieces, hcuts, hagain hname _ ?_ (by decide)⟩
  rw [hpieces]
  decide

/-- Behind a letter a `<` opens an argument list, and at the beginning of a piece it does not. -/
example : pieces 'a' "xa<a>".toList = ["x".toList, "<a>".toList] ∧
    pieces 'a' "<a>".toList = ["<".toList, ">".toList] := by
  decide +kernel

end AsyncPeer.Spelling
