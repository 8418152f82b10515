/-
# Simultaneous splices

Edits are made one after the other, from the back to the front, on a text whose length changes with
each of them.  The meaning of a list of edits is nevertheless a single pass over the text as it was:
`Text.splice` reads it from left to right, puts in what belongs at each offset, and leaves out the
characters that are deleted.

The result of the file is `Edit.applyAll_eq_splice`.  If the edits lie on boundaries of the text and
can be told apart -- of any two, one ends before the other begins, and the order in which they are
listed decides only between edits that begin at the same offset -- then making them all succeeds and
gives the splice.  The sort that `Edit.applyAll` starts with is stable, and this is where it matters:
`Edit.pair_sublist_of_sublist_sort` carries the order of the list over to edits with equal offsets.
-/
import AsyncPeer.Proofs.Boundary
import AsyncPeer.Source.Expansion

namespace AsyncPeer.Text

/-- The text from the offset `o` on, with the insertions and deletions made.  At each offset that the
pass comes to, `inserted` goes in first, and then the character there is kept unless it is
`deleted`. -/
def splice (deleted : Nat → Bool) (inserted : Nat → Text) : (o : Nat) → Text → Text
  | o, [] => inserted o
  | o, c :: cs =>
    inserted o ++ (if deleted o then [] else [c]) ++ splice deleted inserted (o + c.utf8Size) cs

variable {deleted deleted' : Nat → Bool} {inserted inserted' : Nat → Text}

/-- A splice looks only at the offsets that are still to come. -/
lemma splice_congr {o : Nat} {t : Text} (hd : ∀ p, o ≤ p → deleted p = deleted' p)
    (hi : ∀ p, o ≤ p → inserted p = inserted' p) :
    splice deleted inserted o t = splice deleted' inserted' o t := by
  induction t generalizing o with
  | nil => exact hi o (Nat.le_refl o)
  | cons c t ih =>
    have hrest := ih (o := o + c.utf8Size) (fun p hp => hd p (by omega))
      (fun p hp => hi p (by omega))
    rw [splice, splice, hd o (Nat.le_refl o), hi o (Nat.le_refl o), hrest]

/-- What is inserted at the offset of the pass itself stands in front of everything else. -/
lemma splice_eq_append {o : Nat} {t x : Text} (ho : inserted o = x ++ inserted' o)
    (hi : ∀ p, o < p → inserted p = inserted' p) :
    splice deleted inserted o t = x ++ splice deleted inserted' o t := by
  cases t with
  | nil => exact ho
  | cons c t =>
    have hpos := c.utf8Size_pos
    have hrest : splice deleted inserted (o + c.utf8Size) t =
        splice deleted inserted' (o + c.utf8Size) t :=
      splice_congr (fun _ _ => rfl) (fun p hp => hi p (by omega))
    rw [splice, splice, ho, hrest]
    simp only [List.append_assoc]

/-- A part without deletions and insertions is kept. -/
lemma splice_keep {o : Nat} {u v : Text}
    (hd : ∀ p, o ≤ p → p < o + byteSize u → deleted p = false)
    (hi : ∀ p, o ≤ p → p < o + byteSize u → inserted p = []) :
    splice deleted inserted o (u ++ v) = u ++ splice deleted inserted (o + byteSize u) v := by
  induction u generalizing o with
  | nil => rfl
  | cons c u ih =>
    have hpos := c.utf8Size_pos
    rw [byteSize_cons] at hd hi
    have hrest := ih (o := o + c.utf8Size) (fun p hp hlt => hd p (by omega) (by omega))
      (fun p hp hlt => hi p (by omega) (by omega))
    rw [List.cons_append, splice, hd o (Nat.le_refl o) (by omega),
      hi o (Nat.le_refl o) (by omega), hrest, byteSize_cons, Nat.add_assoc]
    rfl

/-- A part that is deleted throughout and without insertions goes away. -/
lemma splice_drop {o : Nat} {u v : Text}
    (hd : ∀ p, o ≤ p → p < o + byteSize u → deleted p = true)
    (hi : ∀ p, o ≤ p → p < o + byteSize u → inserted p = []) :
    splice deleted inserted o (u ++ v) = splice deleted inserted (o + byteSize u) v := by
  induction u generalizing o with
  | nil => rfl
  | cons c u ih =>
    have hpos := c.utf8Size_pos
    rw [byteSize_cons] at hd hi
    have hrest := ih (o := o + c.utf8Size) (fun p hp hlt => hd p (by omega) (by omega))
      (fun p hp hlt => hi p (by omega) (by omega))
    rw [List.cons_append, splice, hd o (Nat.le_refl o) (by omega),
      hi o (Nat.le_refl o) (by omega), hrest, byteSize_cons, Nat.add_assoc]
    rfl

end AsyncPeer.Text

namespace AsyncPeer.Source.Edit

/-- The offset belongs to a part that one of the edits takes out. -/
def takesOut (edits : List Edit) (o : Nat) : Bool :=
  edits.any fun e => e.start ≤ o && o < e.stop

/-- What the edits put in at an offset, in the order in which they are listed. -/
def putsIn (edits : List Edit) (o : Nat) : Text :=
  (edits.filter fun e => e.start == o).flatMap replacement

/-- The two offsets of the edit are boundaries of the text, in order. -/
structure InRange (t : Text) (e : Edit) : Prop where
  start : t.IsBoundary e.start
  stop : t.IsBoundary e.stop
  le : e.start ≤ e.stop

/-- An edit in range succeeds, and replaces the part between its offsets. -/
lemma apply_eq {e : Edit} {a m b : Text} (hstart : a.byteSize = e.start)
    (hstop : a.byteSize + m.byteSize = e.stop) :
    e.apply (a ++ (m ++ b)) = .ok (a ++ e.replacement ++ b) := by
  have hupTo : (a ++ (m ++ b)).upTo? e.start = some a := by
    rw [← hstart]
    exact Text.upTo?_append a (m ++ b)
  have hslice : (a ++ (m ++ b)).slice? e.start e.stop = some m :=
    Text.slice?_eq_some_iff.2 ⟨a, b, rfl, hstart, hstop⟩
  have hfrom : (a ++ (m ++ b)).from? e.stop = some b := by
    rw [← hstop, ← Text.byteSize_append, ← List.append_assoc]
    exact Text.from?_append (a ++ m) b
  rw [apply, hupTo, hslice, hfrom]

/-! ### Edits in the order of their offsets -/

lemma takesOut_cons (e : Edit) (edits : List Edit) (o : Nat) :
    takesOut (e :: edits) o = ((decide (e.start ≤ o) && decide (o < e.stop)) || takesOut edits o) :=
  rfl

lemma putsIn_cons (e : Edit) (edits : List Edit) (o : Nat) :
    putsIn (e :: edits) o = (if e.start = o then e.replacement else []) ++ putsIn edits o := by
  rw [putsIn, List.filter_cons]
  by_cases h : e.start = o
  · simp [h, putsIn]
  · simp [h, putsIn]

lemma takesOut_of_lt {edits : List Edit} {o : Nat} (h : ∀ e ∈ edits, o < e.start) :
    takesOut edits o = false := by
  rw [takesOut, List.any_eq_false]
  intro e he
  have := h e he
  simp only [Bool.and_eq_true, decide_eq_true_eq]
  omega

lemma putsIn_of_lt {edits : List Edit} {o : Nat} (h : ∀ e ∈ edits, o < e.start) :
    putsIn edits o = [] := by
  have hnone : (edits.filter fun e => e.start == o) = [] := by
    rw [List.filter_eq_nil_iff]
    intro e he
    have := h e he
    simp only [beq_iff_eq]
    omega
  rw [putsIn, hnone]
  rfl

/-- One edit in front of others that begin behind it: its part is replaced, and the pass goes on
behind it with the others. -/
lemma splice_cons {e : Edit} {edits : List Edit} {o : Nat} {u m v : Text}
    (hstart : o + u.byteSize = e.start) (hstop : e.start + m.byteSize = e.stop)
    (hlater : ∀ f ∈ edits, e.stop ≤ f.start) :
    Text.splice (takesOut (e :: edits)) (putsIn (e :: edits)) o (u ++ (m ++ v)) =
      u ++ e.replacement ++ Text.splice (takesOut edits) (putsIn edits) e.stop v := by
  have hle : e.start ≤ e.stop := by omega
  -- up to the edit nothing happens
  have hbefore : ∀ p, o ≤ p → p < o + u.byteSize → ∀ f ∈ e :: edits, p < f.start := by
    intro p _ hp f hf
    rcases List.mem_cons.1 hf with rfl | hf
    · omega
    · have := hlater f hf
      omega
  rw [Text.splice_keep (fun p h1 h2 => takesOut_of_lt (hbefore p h1 h2))
    (fun p h1 h2 => putsIn_of_lt (hbefore p h1 h2)), hstart, List.append_assoc]
  -- at the edit its replacement comes first
  have hhere : putsIn (e :: edits) e.start = e.replacement ++ putsIn edits e.start := by
    rw [putsIn_cons, if_pos rfl]
  have hafter : ∀ p, e.start < p → putsIn (e :: edits) p = putsIn edits p := by
    intro p hp
    rw [putsIn_cons, if_neg (by omega)]
    rfl
  rw [Text.splice_eq_append hhere hafter]
  -- then its part is taken out
  have hinside : ∀ p, e.start ≤ p → p < e.start + m.byteSize → ∀ f ∈ edits, p < f.start := by
    intro p _ hp f hf
    have := hlater f hf
    omega
  rw [Text.splice_drop ?_ (fun p h1 h2 => putsIn_of_lt (hinside p h1 h2)), hstop]
  · -- and behind it the edit has no effect any more
    rw [Text.splice_congr (fun p hp => ?_) (fun _ _ => rfl)]
    rw [takesOut_cons, decide_eq_false (by omega : ¬p < e.stop), Bool.and_false, Bool.false_or]
  · intro p h1 h2
    rw [takesOut_cons, decide_eq_true h1, decide_eq_true (by omega : p < e.stop)]
    rfl

/-- Making edits from the back to the front, when each ends before the next begins. -/
lemma foldlM_reverse_eq_splice {edits : List Edit} {a b : Text}
    (hpair : edits.Pairwise fun e f => e.stop ≤ f.start)
    (hrange : ∀ e ∈ edits, InRange (a ++ b) e) (hbehind : ∀ e ∈ edits, a.byteSize ≤ e.start) :
    edits.reverse.foldlM (fun t e => e.apply t) (a ++ b) =
      .ok (a ++ Text.splice (takesOut edits) (putsIn edits) a.byteSize b) := by
  induction edits generalizing a b with
  | nil =>
    have hkeep : Text.splice (takesOut []) (putsIn []) a.byteSize (b ++ []) = b ++ [] :=
      Text.splice_keep (fun _ _ _ => rfl) (fun _ _ _ => rfl)
    rw [List.append_nil] at hkeep
    rw [hkeep]
    rfl
  | cons e edits ih =>
    obtain ⟨hlater, hpair⟩ := List.pairwise_cons.1 hpair
    obtain ⟨hs, ht, hle⟩ := hrange e (by simp)
    -- the text up to the edit, its part, and what stands behind it
    obtain ⟨c, m, v, hcmv, hc, hm⟩ := Text.exists_split hs ht hle
    obtain ⟨u, rfl, rfl⟩ := Text.exists_append_of_le hcmv
      (Nat.le_trans (hbehind e (by simp)) (Nat.le_of_eq hc.symm))
    rw [Text.byteSize_append] at hc hm
    have hsame : a ++ (u ++ (m ++ v)) = (a ++ u ++ m) ++ v := by simp [List.append_assoc]
    have hsize : (a ++ u ++ m).byteSize = e.stop := by
      rw [Text.byteSize_append, Text.byteSize_append, hm]
    have hih := ih (a := a ++ u ++ m) (b := v) hpair
      (fun f hf => hsame ▸ hrange f (List.mem_cons_of_mem e hf))
      (fun f hf => hsize ▸ hlater f hf)
    rw [List.reverse_cons, List.foldlM_append, hsame, hih, hsize]
    have happly : e.apply (a ++ u ++ m ++ Text.splice (takesOut edits) (putsIn edits) e.stop v) =
        .ok (a ++ u ++ e.replacement ++ Text.splice (takesOut edits) (putsIn edits) e.stop v) := by
      rw [List.append_assoc (a ++ u) m]
      exact apply_eq (by rw [Text.byteSize_append]; exact hc) (by rw [Text.byteSize_append]; exact hm)
    simp only [bind, Except.bind, List.foldlM_cons, List.foldlM_nil, happly]
    rw [splice_cons (o := a.byteSize) (u := u) (m := m) (v := v) (by omega) (by omega) hlater]
    simp only [List.append_assoc, pure, Except.pure]

/-! ### The stable sort -/

/-- The order that edits are sorted by. -/
def startsBefore (e f : Edit) : Bool :=
  e.start ≤ f.start

lemma startsBefore_trans (e f g : Edit) (hef : startsBefore e f) (hfg : startsBefore f g) :
    startsBefore e g := by
  simp only [startsBefore, decide_eq_true_eq] at *
  omega

lemma startsBefore_total (e f : Edit) : startsBefore e f || startsBefore f e := by
  simp only [startsBefore, Bool.or_eq_true, decide_eq_true_eq]
  omega

/-- Edits with the same offset keep their order. -/
lemma filter_sort (edits : List Edit) (o : Nat) :
    ((edits.mergeSort startsBefore).filter fun e => e.start == o) =
      edits.filter fun e => e.start == o := by
  have hperm := (edits.mergeSort_perm startsBefore).filter fun e => e.start == o
  have hsorted : (edits.filter fun e => e.start == o).Pairwise fun e f => startsBefore e f := by
    rw [List.pairwise_filter]
    refine List.pairwise_of_forall ?_
    intro e f he hf
    simp only [beq_iff_eq] at he hf
    simp only [startsBefore, decide_eq_true_eq]
    omega
  have hsub := List.sublist_mergeSort startsBefore_trans startsBefore_total hsorted
    List.filter_sublist
  have hsub' := hsub.filter fun e => e.start == o
  rw [List.filter_filter] at hsub'
  simp only [Bool.and_self] at hsub'
  exact (hsub'.eq_of_length hperm.length_eq.symm).symm

/-- Of two edits with the same offset, the one that the sort puts first is listed first. -/
lemma pair_sublist_of_sublist_sort {edits : List Edit} {e f : Edit}
    (h : [e, f].Sublist (edits.mergeSort startsBefore)) (heq : e.start = f.start) :
    [e, f].Sublist edits := by
  have hfilter := h.filter fun g => g.start == e.start
  rw [filter_sort] at hfilter
  have hself : ([e, f].filter fun g => g.start == e.start) = [e, f] := by simp [heq]
  rw [hself] at hfilter
  exact hfilter.trans List.filter_sublist

/-- Two edits, the first listed before the second, that do not get in each other's way: one ends
before the other begins, and the second is in front only if it begins at a smaller offset. -/
def Apart (e f : Edit) : Prop :=
  e.stop ≤ f.start ∨ (f.stop ≤ e.start ∧ f.start < e.start)

/-- Two edits with different offsets, of which the one with the smaller offset ends before the other
begins. -/
def DifferApart (e f : Edit) : Prop :=
  (e.start < f.start → e.stop ≤ f.start) ∧ (f.start < e.start → f.stop ≤ e.start)

/-- Sorted edits that can be told apart follow each other. -/
lemma pairwise_sort {edits : List Edit} (hapart : edits.Pairwise Apart)
    (hle : ∀ e ∈ edits, e.start ≤ e.stop) :
    (edits.mergeSort startsBefore).Pairwise fun e f => e.stop ≤ f.start := by
  rw [List.pairwise_iff_forall_sublist]
  intro e f hef
  have horder : e.start ≤ f.start := by
    have hsorted := edits.pairwise_mergeSort startsBefore_trans startsBefore_total
    simpa [startsBefore] using List.pairwise_iff_forall_sublist.1 hsorted hef
  by_cases heq : e.start = f.start
  · have hlisted := pair_sublist_of_sublist_sort hef heq
    rcases List.pairwise_iff_forall_sublist.1 hapart hlisted with h | ⟨-, h⟩
    · exact h
    · omega
  · -- the sort may have turned the two around, but their offsets differ
    have hdiffer : edits.Pairwise DifferApart := by
      refine hapart.imp_of_mem fun {e f} he hf h => ?_
      have := hle e he
      have := hle f hf
      rcases h with h | ⟨h, -⟩
      · exact ⟨fun _ => h, fun _ => by omega⟩
      · exact ⟨fun _ => by omega, fun _ => h⟩
    have hsorted := (edits.mergeSort_perm startsBefore).symm.pairwise hdiffer
      fun h => ⟨h.2, h.1⟩
    exact (List.pairwise_iff_forall_sublist.1 hsorted hef).1 (by omega)

/-- **Making edits is a splice.**  Edits in range that can be told apart are all made, and the result
is one pass over the text that takes out and puts in what each of them says. -/
theorem applyAll_eq_splice {edits : List Edit} {t : Text} (hapart : edits.Pairwise Apart)
    (hrange : ∀ e ∈ edits, InRange t e) :
    applyAll edits t = .ok (Text.splice (takesOut edits) (putsIn edits) 0 t) := by
  have hpair := pairwise_sort hapart fun e he => (hrange e he).le
  have hmade := foldlM_reverse_eq_splice (a := []) (b := t) hpair
    (fun e he => hrange e (List.mem_mergeSort.1 he)) (fun e _ => Nat.zero_le e.start)
  have hout : takesOut (edits.mergeSort startsBefore) = takesOut edits := by
    funext o
    exact (edits.mergeSort_perm startsBefore).any_eq
  have hin : putsIn (edits.mergeSort startsBefore) = putsIn edits := by
    funext o
    rw [putsIn, filter_sort, putsIn]
  rw [hout, hin] at hmade
  exact hmade

end AsyncPeer.Source.Edit
