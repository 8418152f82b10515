/-
# What a removal takes away

The removal of an attribute takes blanks along: the whole line if the attribute stands alone on it,
and otherwise the spaces and tabs behind it.  `IsRemoval` says this by the parts of the line, without
cutting the source up, and `exists_removal` that the removal of an attribute on boundaries exists and is
this one.

How far it reaches at most is `TakesAway`, from which the file derives what keeps a removal away from
other edits.  No removal gets past a character that is not blank (`TakesAway.stop_le`,
`TakesAway.le_start`), and the removals of two attributes are kept apart by the line feed between them
(`TakesAway.stop_le_start`).
-/
import Mathlib.Data.List.Induction
import Mathlib.Data.List.TakeWhile
import AsyncPeer.Proofs.Placement
import AsyncPeer.Proofs.Splice
import AsyncPeer.Source.Expansion

namespace AsyncPeer.Source

/-- A character that stands in the middle of three parts is one of that part. -/
lemma mem_of_standsAt {t x y z : Text} {o : Nat} {c : Char} (ht : t = x ++ (y ++ z))
    (hc : t.StandsAt o c) (hle : x.byteSize ≤ o) (hlt : o < x.byteSize + y.byteSize) : c ∈ y := by
  obtain ⟨a, r, har, rfl⟩ := hc
  obtain ⟨u, rfl, hu⟩ := Text.exists_append_of_le (ht.symm.trans har) hle
  rw [Text.byteSize_append] at hlt
  obtain ⟨v, rfl, hv⟩ := Text.exists_append_of_le hu.symm (by omega)
  cases v with
  | nil =>
    simp at hlt
  | cons d v =>
    rw [List.cons_append, List.cons.injEq] at hv
    simp [hv.1]

/-! ### Lines -/

lemma lastLine_spec (t : Text) :
    ∃ x, t = x ++ lastLine t ∧ (x = [] ∨ ∃ y, x = y ++ ['\n']) := by
  induction t using List.reverseRecOn with
  | nil => exact ⟨[], rfl, Or.inl rfl⟩
  | append_singleton t c ih =>
    by_cases hc : c = '\n'
    · exact ⟨t ++ ['\n'], by simp [lastLine, hc], Or.inr ⟨t, rfl⟩⟩
    · obtain ⟨x, hx, hend⟩ := ih
      refine ⟨x, ?_, hend⟩
      have hline : lastLine (t ++ [c]) = lastLine t ++ [c] := by simp [lastLine, hc]
      rw [hline, ← List.append_assoc, ← hx]

lemma firstLine_spec (t : Text) :
    ∃ x, t = firstLine t ++ x ∧ (x = [] ∨ ∃ y, x = '\n' :: y) := by
  refine ⟨t.dropWhile (· != '\n'), List.takeWhile_append_dropWhile.symm, ?_⟩
  cases hx : t.dropWhile (· != '\n') with
  | nil => exact Or.inl rfl
  | cons c y =>
    have hhead := List.head_dropWhile_not (· != '\n') (l := t) (by simp [hx])
    simp only [hx, List.head_cons, bne_eq_false_iff_eq] at hhead
    exact Or.inr ⟨y, by rw [hhead]⟩

lemma not_mem_firstLine (t : Text) : '\n' ∉ firstLine t := by
  intro h
  have := List.mem_takeWhile_imp h
  simp at this

lemma not_mem_lastLine (t : Text) : '\n' ∉ lastLine t := by
  intro h
  have := List.mem_takeWhile_imp (List.mem_reverse.1 h)
  simp at this

/-- The gap is made of spaces and tabs, and something else or nothing stands behind it. -/
structure IsGap (gap rest : Text) : Prop where
  blank : ∀ c ∈ gap, c = ' ' ∨ c = '\t'
  ends : ∀ c, rest.head? = some c → ¬(c = ' ' ∨ c = '\t')

lemma isIndent_iff {c : Char} : isIndent c = true ↔ c = ' ' ∨ c = '\t' := by
  simp only [isIndent, Bool.or_eq_true, beq_iff_eq]

/-- Every text begins with a gap, which can be empty. -/
lemma isGap_takeWhile (t : Text) : IsGap (t.takeWhile isIndent) (t.dropWhile isIndent) where
  blank c hc := isIndent_iff.1 (List.mem_takeWhile_imp hc)
  ends c hc := by
    have hhead := List.head?_dropWhile_not isIndent t
    rw [hc] at hhead
    rw [← isIndent_iff, Bool.not_eq_true]
    exact hhead

/-- The line of the attribute of a site: the source up to the line, what stands on the line in front of
the attribute and behind it, and the source from the end of the line on. -/
structure OnLine (source : Text) (s : Site) (before head tail behind : Text) : Prop where
  split : ∃ mark, source = before ++ (head ++ (mark ++ (tail ++ behind))) ∧
    s.start + mark.byteSize = s.stop
  start : before.byteSize + head.byteSize = s.start
  before_feed : before = [] ∨ ∃ x, before = x ++ ['\n']
  behind_feed : behind = [] ∨ ∃ y, behind = '\n' :: y
  head_feed : '\n' ∉ head
  tail_feed : '\n' ∉ tail

/-! ### The removal of an attribute -/

/-- The edit takes the attribute of the site away.  If the attribute stands alone on its line, the line
goes with it and with its line feed, if it has one.  Otherwise all spaces and tabs behind the attribute
go with it. -/
inductive IsRemoval (source : Text) (s : Site) : Edit → Prop
  | line {before head tail behind : Text} (h : OnLine source s before head tail behind)
      (halone : ∀ c ∈ head ++ tail, Text.isBlank c = true) :
    IsRemoval source s
      { start := before.byteSize
        stop := min (s.stop + tail.byteSize + 1) source.byteSize
        replacement := [] }
  | inline {before head gap rest behind : Text}
      (h : OnLine source s before head (gap ++ rest) behind)
      (hother : ∃ c ∈ head ++ (gap ++ rest), Text.isBlank c = false)
      (hgap : IsGap gap rest) :
    IsRemoval source s
      { start := s.start
        stop := s.stop + gap.byteSize
        replacement := [] }

/-- An attribute on boundaries stands on a line. -/
lemma exists_onLine {source : Text} {s : Site} (hs : source.IsBoundary s.start)
    (ht : source.IsBoundary s.stop) (hle : s.start ≤ s.stop) :
    ∃ a b x y, slice source 0 s.start = .ok a ∧ slice source s.stop source.byteSize = .ok b ∧
      OnLine source s x (lastLine a) (firstLine b) y := by
  obtain ⟨a, m, b, hsource, ha, hm⟩ := Text.exists_split hs ht hle
  have hbefore : slice source 0 s.start = .ok a :=
    slice_eq_ok (a := []) hsource rfl (by simpa using ha)
  have hbehind : slice source s.stop source.byteSize = .ok b := by
    refine slice_eq_ok (a := a ++ m) (m := b) (b := []) ?_ ?_ ?_
    · rw [hsource]
      simp only [List.append_assoc, List.append_nil]
    · rw [Text.byteSize_append, hm]
    · rw [hsource]
      simp only [Text.byteSize_append]
      omega
  obtain ⟨x, hx, hxend⟩ := lastLine_spec a
  obtain ⟨y, hy, hyend⟩ := firstLine_spec b
  refine ⟨a, b, x, y, hbefore, hbehind, ⟨m, ?_, by omega⟩, ?_, hxend, hyend, not_mem_lastLine a,
    not_mem_firstLine b⟩
  · rw [hsource, ← hy, ← List.append_assoc x, ← hx]
  · rw [← Text.byteSize_append, ← hx, ha]

/-- An attribute on boundaries can be removed. -/
lemma exists_removal {source : Text} {s : Site} (hs : source.IsBoundary s.start)
    (ht : source.IsBoundary s.stop) (hle : s.start ≤ s.stop) :
    ∃ e, removal source s = .ok e ∧ IsRemoval source s e := by
  obtain ⟨a, b, x, y, hbefore, hbehind, honLine⟩ := exists_onLine hs ht hle
  simp only [removal, hbefore, hbehind, bind, Except.bind, pure, Except.pure]
  have halone : ((lastLine a).blank && (firstLine b).blank) = true ↔
      ∀ c ∈ lastLine a ++ firstLine b, Text.isBlank c = true := by
    rw [Text.blank, Text.blank, ← List.all_append, List.all_eq_true]
  split
  · next hblank =>
    have hstart : s.start - (lastLine a).byteSize = x.byteSize := by
      have := honLine.start
      omega
    rw [hstart]
    exact ⟨_, rfl, .line honLine (halone.1 hblank)⟩
  · next hblank =>
    have hgap := isGap_takeWhile (firstLine b)
    rw [halone, ← List.takeWhile_append_dropWhile (p := isIndent) (l := firstLine b)] at hblank
    rw [← List.takeWhile_append_dropWhile (p := isIndent) (l := firstLine b)] at honLine
    exact ⟨_, rfl, .inline honLine (by simpa using hblank) hgap⟩

/-! ### How far a removal reaches -/

/-- The edit takes the attribute of the site away, and besides it only blanks, back to the beginning
of its line at most and forward to the end of its line at most. -/
structure TakesAway (source : Text) (s : Site) (e : Edit) : Prop where
  range : Edit.InRange source e
  replacement : e.replacement = []
  start_le : e.start ≤ s.start
  le_stop : s.stop ≤ e.stop
  blank_before : ∀ o c, source.StandsAt o c → e.start ≤ o → o < s.start → Text.isBlank c = true
  blank_behind : ∀ o c, source.StandsAt o c → s.stop ≤ o → o < e.stop → Text.isBlank c = true
  line_start : e.start = s.start ∨ e.start = 0 ∨ ∃ o, source.StandsAt o '\n' ∧ o + 1 = e.start
  line_stop : ∀ o, source.StandsAt o '\n' → s.stop ≤ o → e.stop ≤ o + 1

/-- The rest of a line together with its line feed, if there is one. -/
lemma exists_line {tail y : Text} (hy : y = [] ∨ ∃ z, y = '\n' :: z)
    (htail : ∀ c ∈ tail, Text.isBlank c = true) :
    ∃ line rest, tail ++ y = line ++ rest ∧ (∀ c ∈ line, Text.isBlank c = true) ∧
      min (tail.byteSize + 1) (tail ++ y).byteSize = line.byteSize ∧
      (line = tail ∧ rest = [] ∨ line.byteSize = tail.byteSize + 1) := by
  rcases hy with rfl | ⟨z, rfl⟩
  · refine ⟨tail, [], rfl, htail, ?_, Or.inl ⟨rfl, rfl⟩⟩
    simp only [Text.byteSize_append, Text.byteSize_nil]
    omega
  · have hfeedsize : Char.utf8Size '\n' = 1 := rfl
    refine ⟨tail ++ ['\n'], z, by simp, ?_, ?_, Or.inr ?_⟩
    · intro c hc
      rcases List.mem_append.1 hc with hc | hc
      · exact htail c hc
      · rw [List.mem_singleton.1 hc]
        decide
    · simp only [Text.byteSize_append, Text.byteSize_cons, Text.byteSize_nil, hfeedsize]
      omega
    · simp only [Text.byteSize_append, Text.byteSize_cons, Text.byteSize_nil, hfeedsize]

lemma lt_byteSize_of_standsAt {source : Text} {o : Nat} {c : Char} (h : source.StandsAt o c) :
    o < source.byteSize := by
  obtain ⟨a, r, har, rfl⟩ := h
  rw [har, Text.byteSize_append, Text.byteSize_cons]
  have := c.utf8Size_pos
  omega

/-- A removal with the whole line reaches as far as it may. -/
lemma takesAway_line {source : Text} {s : Site} {before head tail behind : Text}
    (h : OnLine source s before head tail behind)
    (halone : ∀ c ∈ head ++ tail, Text.isBlank c = true) :
    TakesAway source s
      { start := before.byteSize
        stop := min (s.stop + tail.byteSize + 1) source.byteSize
        replacement := [] } := by
  obtain ⟨⟨m, hsource, hstop⟩, hstart, hbefore, hafter, -, hline⟩ := h
  obtain ⟨hhead, htail⟩ := List.forall_mem_append.1 halone
  obtain ⟨line, rest, hend, hlineblank, hlinesize, hfeed⟩ := exists_line hafter htail
  have hsplit : source = (before ++ head ++ m) ++ (tail ++ behind) := by
    rw [hsource]
    simp only [List.append_assoc]
  have hbehind : source = (before ++ head ++ m) ++ (line ++ rest) := by
    rw [hsplit, hend]
  have hbehindsize : (before ++ head ++ m).byteSize = s.stop := by
    simp only [Text.byteSize_append]
    omega
  have hsize : source.byteSize = s.stop + (tail ++ behind).byteSize := by
    rw [hsplit, Text.byteSize_append, hbehindsize]
  have hstopline : min (s.stop + tail.byteSize + 1) source.byteSize = s.stop + line.byteSize := by
    omega
  rw [hstopline]
  refine ⟨⟨?_, ?_, ?_⟩, rfl, ?_, ?_, ?_, ?_, ?_, ?_⟩
  -- the edit begins and ends on boundaries
  · exact Text.isBoundary_iff.2 ⟨before, head ++ (m ++ (tail ++ behind)), hsource, rfl⟩
  · refine Text.isBoundary_iff.2 ⟨before ++ head ++ m ++ line, rest, ?_, ?_⟩
    · rw [hbehind]
      simp only [List.append_assoc]
    · rw [Text.byteSize_append, hbehindsize]
  · dsimp only
    omega
  · dsimp only
    omega
  · exact Nat.le_add_right _ _
  -- only blanks stand around the attribute
  · intro o c hc hle hlt
    exact hhead c (mem_of_standsAt hsource hc hle (by omega))
  · intro o c hc hle hlt
    dsimp only at hlt
    exact hlineblank c (mem_of_standsAt hbehind hc (by omega) (by omega))
  -- the edit begins with its line
  · right
    rcases hbefore with rfl | ⟨z, rfl⟩
    · exact Or.inl rfl
    · refine Or.inr ⟨z.byteSize, ⟨z, head ++ (m ++ (tail ++ behind)), by rw [hsource]; simp, rfl⟩, ?_⟩
      rw [Text.byteSize_append]
      rfl
  -- and it ends with its line
  · intro o hc hle
    dsimp only
    rcases hfeed with ⟨rfl, rfl⟩ | hfeed
    · -- without a line feed the line goes to the end of the source
      have hlt := lt_byteSize_of_standsAt hc
      rw [hbehind, Text.byteSize_append, hbehindsize, List.append_nil] at hlt
      exact absurd (mem_of_standsAt hbehind hc (by omega) (by omega)) hline
    · by_contra hnot
      exact hline (mem_of_standsAt hsplit hc (by omega) (by omega))

/-- A removal without the line reaches as far as it may. -/
lemma takesAway_inline {source : Text} {s : Site} {before head gap rest behind : Text}
    (h : OnLine source s before head (gap ++ rest) behind) (hgap : IsGap gap rest) :
    TakesAway source s
      { start := s.start
        stop := s.stop + gap.byteSize
        replacement := [] } := by
  obtain ⟨⟨m, hsource, hstop⟩, hstart, -, -, -, -⟩ := h
  have hbehind : source = (before ++ head ++ m) ++ (gap ++ (rest ++ behind)) := by
    rw [hsource]
    simp only [List.append_assoc]
  have hbehindsize : (before ++ head ++ m).byteSize = s.stop := by
    simp only [Text.byteSize_append]
    omega
  refine ⟨⟨?_, ?_, ?_⟩, rfl, Nat.le_refl _, Nat.le_add_right _ _, ?_, ?_, Or.inl rfl, ?_⟩
  · refine Text.isBoundary_iff.2 ⟨before ++ head, m ++ (gap ++ (rest ++ behind)), ?_, ?_⟩
    · rw [hsource]
      simp only [List.append_assoc]
    · rw [Text.byteSize_append, hstart]
  · refine Text.isBoundary_iff.2 ⟨before ++ head ++ m ++ gap, rest ++ behind, ?_, ?_⟩
    · rw [hbehind]
      simp only [List.append_assoc]
    · rw [Text.byteSize_append, hbehindsize]
  · dsimp only
    omega
  · intro o c _ hle hlt
    dsimp only at hle
    omega
  · intro o c hc hle hlt
    dsimp only at hlt
    rcases hgap.blank c (mem_of_standsAt hbehind hc (by omega) (by omega)) with rfl | rfl <;> decide
  · intro o hc hle
    dsimp only
    by_contra hnot
    have hfeed := hgap.blank _ (mem_of_standsAt hbehind hc (by omega) (by omega))
    exact absurd hfeed (by decide)

/-- A removal reaches as far as it may. -/
lemma IsRemoval.takesAway {source : Text} {s : Site} {e : Edit} (h : IsRemoval source s e) :
    TakesAway source s e := by
  cases h with
  | line h halone => exact takesAway_line h halone
  | inline h _ hgap => exact takesAway_inline h hgap

namespace TakesAway

variable {source : Text} {s t : Site} {e f : Edit} {o : Nat} {c : Char}

/-- No removal gets past a character behind its attribute that is not blank. -/
lemma stop_le (h : TakesAway source s e) (hc : source.StandsAt o c)
    (hblank : Text.isBlank c = false) (hle : s.stop ≤ o) : e.stop ≤ o := by
  by_contra hnot
  rw [h.blank_behind o c hc hle (by omega)] at hblank
  exact absurd hblank (by simp)

/-- No removal gets past a character in front of its attribute that is not blank. -/
lemma le_start (h : TakesAway source s e) (hc : source.StandsAt o c)
    (hblank : Text.isBlank c = false) (hle : o + c.utf8Size ≤ s.start) :
    o + c.utf8Size ≤ e.start := by
  rcases hc.le_or_le h.range.start with hstart | hstart
  · have hpos := c.utf8Size_pos
    rw [h.blank_before o c hc hstart (by omega)] at hblank
    exact absurd hblank (by simp)
  · exact hstart

/-- The removals of two attributes, the first of which ends and the second of which begins with a
character that is not blank. -/
lemma stop_le_start (hs : TakesAway source s e) (ht : TakesAway source t f)
    (hstop : s.stop ≤ t.start) (hc : source.StandsAt o c) (hblank : Text.isBlank c = false)
    (hend : o + c.utf8Size = s.stop) {d : Char} (hd : source.StandsAt t.start d)
    (hblank' : Text.isBlank d = false) : e.stop ≤ f.start := by
  have hpos := c.utf8Size_pos
  have hfar : s.stop ≤ f.start := hend ▸ ht.le_start hc hblank (by omega)
  rcases ht.line_start with heq | hzero | ⟨p, hp, hfeed⟩
  · rw [heq]
    exact hs.stop_le hd hblank' hstop
  · omega
  · -- a line feed stands directly in front of the second removal, behind the first attribute
    have hpb : source.IsBoundary p := by
      obtain ⟨x, y, hxy, hsize⟩ := hp
      exact Text.isBoundary_iff.2 ⟨x, _, hxy, hsize⟩
    have hbehind : s.stop ≤ p := by
      by_contra hnot
      have hpo : p = o := by
        rcases hc.le_or_le hpb with hle | hle <;> omega
      subst hpo
      rw [hc.unique hp] at hblank
      exact absurd hblank (by decide)
    have := hs.line_stop p hp hbehind
    omega

end TakesAway

end AsyncPeer.Source
