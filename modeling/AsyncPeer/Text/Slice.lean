/-
# Byte offsets

Positions in a text are offsets into its UTF-8 form.  An offset is a *boundary* of a text when it
does not fall inside a character or behind the end; only boundaries can be cut at, so each of the
cuts here says `none` at any other offset.
-/
import AsyncPeer.Text.Basic

namespace AsyncPeer.Text

/-- The number of bytes of the UTF-8 form. -/
def byteSize : Text → Nat
  | [] => 0
  | c :: cs => c.utf8Size + byteSize cs

/-- The parts before and after a byte offset, if it is a boundary. -/
def splitAt? : Nat → Text → Option (Text × Text)
  | 0, t => some ([], t)
  | _ + 1, [] => none
  | n + 1, c :: cs =>
    if c.utf8Size ≤ n + 1 then
      (splitAt? (n + 1 - c.utf8Size) cs).map fun (before, rest) => (c :: before, rest)
    else none

/-- The part from a byte offset on, if it is a boundary. -/
def from? (start : Nat) (t : Text) : Option Text :=
  (t.splitAt? start).map (·.2)

/-- The part up to a byte offset, if it is a boundary. -/
def upTo? (stop : Nat) (t : Text) : Option Text :=
  (t.splitAt? stop).map (·.1)

/-- The part between two byte offsets, if they are boundaries in this order. -/
def slice? (start stop : Nat) (t : Text) : Option Text :=
  if start ≤ stop then
    match t.from? start with
    | some rest => rest.upTo? (stop - start)
    | none => none
  else none

@[simp] theorem byteSize_append (s t : Text) : byteSize (s ++ t) = byteSize s + byteSize t := by
  induction s with
  | nil => simp [byteSize]
  | cons c cs ih => simp [byteSize, ih, Nat.add_assoc]

/-- The end of a beginning is a boundary, and cutting there gives the beginning back. -/
theorem splitAt?_append (s t : Text) : splitAt? (byteSize s) (s ++ t) = some (s, t) := by
  induction s with
  | nil => simp [byteSize, splitAt?]
  | cons c cs ih =>
    obtain ⟨k, hk⟩ : ∃ k, c.utf8Size + byteSize cs = k + 1 :=
      ⟨c.utf8Size + byteSize cs - 1, by have := c.utf8Size_pos; omega⟩
    have hle : c.utf8Size ≤ k + 1 := by omega
    have hsub : k + 1 - c.utf8Size = byteSize cs := by omega
    simp [byteSize, hk, splitAt?, hle, hsub, ih]

/-- Cutting loses nothing, and the first part has the size that was asked for. -/
theorem splitAt?_eq_some {n : Nat} {t before rest : Text}
    (h : splitAt? n t = some (before, rest)) : t = before ++ rest ∧ byteSize before = n := by
  induction t generalizing n before rest with
  | nil =>
    cases n with
    | zero => simp_all [splitAt?, byteSize]
    | succ n => simp [splitAt?] at h
  | cons c cs ih =>
    cases n with
    | zero =>
      simp only [splitAt?, Option.some.injEq, Prod.mk.injEq] at h
      obtain ⟨rfl, rfl⟩ := h
      exact ⟨rfl, rfl⟩
    | succ n =>
      rw [splitAt?] at h
      split at h
      · obtain ⟨⟨b, r⟩, hb, heq⟩ := Option.map_eq_some_iff.1 h
        obtain ⟨rfl, rfl⟩ := heq
        obtain ⟨rfl, hn⟩ := ih hb
        exact ⟨rfl, by simp only [byteSize]; omega⟩
      · simp at h

/-- The part between the ends of two beginnings is what the longer one adds. -/
theorem slice?_append (s m t : Text) :
    slice? (byteSize s) (byteSize s + byteSize m) (s ++ (m ++ t)) = some m := by
  have hm : byteSize s + byteSize m - byteSize s = byteSize m := by omega
  simp [slice?, from?, upTo?, splitAt?_append, hm]

end AsyncPeer.Text
