/-
# Boundaries of a text

Cutting a text at byte offsets, described by the parts instead of the cuts.  An offset is a boundary
when some beginning of the text has that size; the beginning is then unique, and two boundaries in
order split the text in three.  The main statements are

* `Text.isBoundary_iff`: the boundaries are the sizes of the beginnings;
* `Text.slice?_eq_some_iff`: a slice is the middle part of such a split;
* `Text.exists_append_of_le`: of two beginnings of a text the one with fewer bytes is a beginning of
  the other.

At the end stand the characters at an offset, `Text.StandsAt`, for statements about what surrounds a
position in a source.
-/
import Mathlib.Data.List.Basic
import AsyncPeer.Text.Slice

namespace AsyncPeer.Text

/-- The offset does not fall inside a character or behind the end. -/
def IsBoundary (t : Text) (o : Nat) : Prop :=
  (t.splitAt? o).isSome

instance (t : Text) (o : Nat) : Decidable (t.IsBoundary o) :=
  inferInstanceAs (Decidable ((t.splitAt? o).isSome = true))

/-! ### Sizes of beginnings -/

@[simp] lemma byteSize_nil : byteSize [] = 0 := rfl

@[simp] lemma byteSize_cons (c : Char) (t : Text) : byteSize (c :: t) = c.utf8Size + byteSize t := rfl

lemma byteSize_pos {t : Text} (h : t ≠ []) : 0 < byteSize t := by
  cases t with
  | nil => exact absurd rfl h
  | cons c t =>
    have := c.utf8Size_pos
    rw [byteSize_cons]
    omega

/-- Of two beginnings of a text, the one with fewer bytes is a beginning of the other. -/
lemma exists_append_of_le {a b c d : Text} (h : a ++ b = c ++ d) (hle : byteSize a ≤ byteSize c) :
    ∃ m, c = a ++ m ∧ b = m ++ d := by
  rcases List.append_eq_append_iff.1 h with ⟨m, hc, hb⟩ | ⟨m, ha, hd⟩
  · exact ⟨m, hc, hb⟩
  · -- then `a` is the longer one, so both are the same
    have hm : m = [] := by
      by_contra hne
      have hpos := byteSize_pos hne
      rw [ha, byteSize_append] at hle
      omega
    subst hm
    exact ⟨[], by simpa using ha.symm, by simpa using hd.symm⟩

/-- A beginning of a text is determined by its size. -/
lemma append_inj_of_byteSize {a b c d : Text} (h : a ++ b = c ++ d)
    (hsize : byteSize a = byteSize c) : a = c ∧ b = d := by
  obtain ⟨m, hc, hb⟩ := exists_append_of_le h (Nat.le_of_eq hsize)
  have hm : m = [] := by
    by_contra hne
    have hpos := byteSize_pos hne
    rw [hc, byteSize_append] at hsize
    omega
  subst hm
  exact ⟨by simpa using hc.symm, by simpa using hb⟩

/-! ### Cuts -/

lemma splitAt?_eq_some_iff {n : Nat} {t before rest : Text} :
    t.splitAt? n = some (before, rest) ↔ t = before ++ rest ∧ byteSize before = n := by
  constructor
  · exact splitAt?_eq_some
  · rintro ⟨rfl, rfl⟩
    exact splitAt?_append before rest

/-- The boundaries of a text are the sizes of its beginnings. -/
lemma isBoundary_iff {t : Text} {o : Nat} :
    t.IsBoundary o ↔ ∃ before rest, t = before ++ rest ∧ byteSize before = o := by
  rw [IsBoundary, Option.isSome_iff_exists]
  constructor
  · rintro ⟨⟨before, rest⟩, h⟩
    exact ⟨before, rest, splitAt?_eq_some_iff.1 h⟩
  · rintro ⟨before, rest, h⟩
    exact ⟨(before, rest), splitAt?_eq_some_iff.2 h⟩

lemma upTo?_append (a b : Text) : upTo? (byteSize a) (a ++ b) = some a := by
  rw [upTo?, splitAt?_append]
  rfl

lemma from?_append (a b : Text) : from? (byteSize a) (a ++ b) = some b := by
  rw [from?, splitAt?_append]
  rfl

/-- Two boundaries in order split a text in three. -/
lemma exists_split {t : Text} {o p : Nat} (ho : t.IsBoundary o) (hp : t.IsBoundary p)
    (hle : o ≤ p) :
    ∃ a m b, t = a ++ (m ++ b) ∧ byteSize a = o ∧ byteSize a + byteSize m = p := by
  obtain ⟨a, r, hr, rfl⟩ := isBoundary_iff.1 ho
  obtain ⟨c, b, hb, rfl⟩ := isBoundary_iff.1 hp
  obtain ⟨m, rfl, rfl⟩ := exists_append_of_le (hr.symm.trans hb) hle
  exact ⟨a, m, b, hr, rfl, (byteSize_append a m).symm⟩

lemma slice?_eq_some_iff {t m : Text} {o p : Nat} :
    t.slice? o p = some m ↔
      ∃ a b, t = a ++ (m ++ b) ∧ byteSize a = o ∧ byteSize a + byteSize m = p := by
  constructor
  · intro h
    rw [slice?] at h
    split at h
    · next hle =>
      split at h
      · next rest hrest =>
        obtain ⟨⟨a, r⟩, hsplit, rfl⟩ := Option.map_eq_some_iff.1 hrest
        obtain ⟨rfl, hsize⟩ := splitAt?_eq_some hsplit
        obtain ⟨⟨m', b⟩, hsplit', rfl⟩ := Option.map_eq_some_iff.1 h
        obtain ⟨rfl, hsize'⟩ := splitAt?_eq_some hsplit'
        exact ⟨a, b, rfl, hsize, by dsimp only; omega⟩
      · exact absurd h (by simp)
    · exact absurd h (by simp)
  · rintro ⟨a, b, rfl, rfl, rfl⟩
    exact slice?_append a m b

/-! ### Characters at an offset -/

/-- The character `c` stands at the byte offset `o`. -/
def StandsAt (t : Text) (o : Nat) (c : Char) : Prop :=
  ∃ before rest, t = before ++ c :: rest ∧ byteSize before = o

/-- Where a character stands, no boundary falls inside of it. -/
lemma StandsAt.le_or_le {t : Text} {o p : Nat} {c : Char} (h : t.StandsAt o c)
    (hp : t.IsBoundary p) : p ≤ o ∨ o + c.utf8Size ≤ p := by
  obtain ⟨a, r, hr, rfl⟩ := h
  obtain ⟨b, s, hs, rfl⟩ := isBoundary_iff.1 hp
  by_cases hle : byteSize b ≤ byteSize a
  · exact Or.inl hle
  · right
    obtain ⟨m, rfl, hm⟩ := exists_append_of_le (hr.symm.trans hs) (by omega)
    cases m with
    | nil => simp at hle
    | cons d m =>
      rw [List.cons_append, List.cons.injEq] at hm
      rw [hm.1, byteSize_append, byteSize_cons]
      omega

/-- Only one character stands at an offset. -/
lemma StandsAt.unique {t : Text} {o : Nat} {c d : Char} (hc : t.StandsAt o c)
    (hd : t.StandsAt o d) : c = d := by
  obtain ⟨a, r, hr, rfl⟩ := hc
  obtain ⟨b, s, hs, hsize⟩ := hd
  have h := (append_inj_of_byteSize (hr.symm.trans hs) hsize.symm).2
  exact (List.cons.injEq _ _ _ _ ▸ h).1

end AsyncPeer.Text
