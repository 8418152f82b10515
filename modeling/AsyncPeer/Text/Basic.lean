/-
# Texts

A text is the list of its characters.  This file holds the operations on whole texts that the rest
of the library is written with: trimming, cutting a text at the characters of a class, words and
lines, and the removal of a given beginning.  All of them are total; the ones that look for
something answer with an `Option`.
-/
import AsyncPeer.Text.Character

namespace AsyncPeer

/-- A text, as the list of its characters. -/
abbrev Text := List Char

namespace Text

/-! ### Trimming -/

/-- The text without the blanks at its beginning. -/
def trimStart (t : Text) : Text :=
  t.dropWhile isBlank

/-- The text without the characters of the class `p` at its end. -/
def dropEndWhile (p : Char → Bool) (t : Text) : Text :=
  (t.reverse.dropWhile p).reverse

/-- The text without the blanks at its end. -/
def trimEnd (t : Text) : Text :=
  t.dropEndWhile isBlank

/-- The text without the blanks at its two ends. -/
def trim (t : Text) : Text :=
  trimEnd (trimStart t)

/-- The text has no characters but blanks. -/
def blank (t : Text) : Bool :=
  t.all isBlank

/-! ### Pieces, words and lines -/

/-- The pieces of a text between its characters of the class `p`.  There is one piece more than
there are such characters. -/
def fields (p : Char → Bool) : Text → List Text
  | [] => [[]]
  | c :: cs =>
    if p c then [] :: fields p cs
    else
      match fields p cs with
      | [] => [[c]]
      | piece :: pieces => (c :: piece) :: pieces

/-- The words of a text: its longest runs of characters that are not blank. -/
def words (t : Text) : List Text :=
  (t.fields isBlank).filter fun w => !w.isEmpty

/-- The texts one after the other, with `sep` between neighbours. -/
def join (sep : Text) : List Text → Text
  | [] => []
  | [t] => t
  | t :: rest => t ++ sep ++ join sep rest

/-- The words of a text with one space between neighbours. -/
def squeeze (t : Text) : Text :=
  join [' '] t.words

/-- The lines of a text without their ends.  A line ends at a line feed, together with one carriage
return directly before it; after the last line feed there is a line only if text follows. -/
def lines : Text → List Text
  | [] => []
  | '\n' :: cs => [] :: lines cs
  | '\r' :: '\n' :: cs => [] :: lines cs
  | c :: cs =>
    match lines cs with
    | [] => [[c]]
    | line :: rest => (c :: line) :: rest

/-! ### Beginnings -/

/-- What follows the beginning `lead`, if the text begins so. -/
def after? : (t lead : Text) → Option Text
  | t, [] => some t
  | [], _ :: _ => none
  | c :: cs, l :: lead => if c = l then after? cs lead else none

/-- The text begins with `lead`. -/
def startsWith (t lead : Text) : Bool :=
  (t.after? lead).isSome

/-- The text before and the text after the first occurrence of `mark`. -/
def cut? (t mark : Text) : Option (Text × Text) :=
  match t.after? mark with
  | some rest => some ([], rest)
  | none =>
    match t with
    | [] => none
    | c :: cs => (cut? cs mark).map fun (before, rest) => (c :: before, rest)

/-- The text between two backquotes, as messages show a part of the input. -/
def quoted (t : Text) : Text :=
  '`' :: t ++ ['`']

/-! ### Small facts -/

@[simp] theorem after?_append (lead t : Text) : after? (lead ++ t) lead = some t := by
  induction lead with
  | nil => cases t <;> rfl
  | cons l lead ih => simp [after?, ih]

theorem eq_append_of_after? {lead t rest : Text} (h : t.after? lead = some rest) :
    t = lead ++ rest := by
  induction lead generalizing t with
  | nil => simpa [after?] using h
  | cons l lead ih =>
    cases t with
    | nil => simp [after?] at h
    | cons c cs =>
      by_cases hc : c = l
      · subst hc
        simp only [after?, if_true] at h
        simp [ih h]
      · simp [after?, hc] at h

theorem length_dropWhile_le (p : Char → Bool) (t : Text) : (t.dropWhile p).length ≤ t.length := by
  induction t with
  | nil => simp
  | cons c cs ih =>
    rw [List.dropWhile_cons]
    split
    · exact Nat.le_succ_of_le ih
    · exact Nat.le_refl _

theorem length_trimStart_le (t : Text) : t.trimStart.length ≤ t.length :=
  length_dropWhile_le isBlank t

theorem length_trimEnd_le (t : Text) : t.trimEnd.length ≤ t.length := by
  have h := length_dropWhile_le isBlank t.reverse
  simpa [trimEnd, dropEndWhile] using h

theorem length_trim_le (t : Text) : t.trim.length ≤ t.length :=
  Nat.le_trans (length_trimEnd_le _) (length_trimStart_le _)

theorem fields_ne_nil (p : Char → Bool) (t : Text) : fields p t ≠ [] := by
  cases t with
  | nil => simp [fields]
  | cons c cs =>
    simp only [fields]
    split
    · simp
    · split <;> simp

/-- The pieces together have the length of the text, and the separators make up the rest. -/
theorem length_join_fields (p : Char → Bool) (x : Char) (t : Text) :
    (join [x] (t.fields p)).length = t.length := by
  induction t with
  | nil => rfl
  | cons c cs ih =>
    obtain ⟨f, fs, hf⟩ := List.exists_cons_of_ne_nil (fields_ne_nil p cs)
    rw [hf] at ih
    simp only [fields, hf]
    split
    · simp [join, ih]
    · cases fs with
      | nil => simpa [join] using ih
      | cons g gs => simp only [join, List.length_append, List.length_cons] at ih ⊢; omega

theorem length_join_filter_le (x : Char) (ts : List Text) :
    (join [x] (ts.filter fun w => !w.isEmpty)).length ≤ (join [x] ts).length := by
  induction ts with
  | nil => simp
  | cons t rest ih =>
    have hle : ∀ l : List Text, (join [x] l).length ≤ (join [x] (t :: l)).length := by
      intro l
      cases l with
      | nil => simp [join]
      | cons u us => simp [join]; omega
    by_cases ht : t.isEmpty
    · rw [List.filter_cons_of_neg (by simp [ht])]
      exact Nat.le_trans ih (hle rest)
    · rw [List.filter_cons_of_pos (by simp [ht])]
      cases hr : rest.filter fun w => !w.isEmpty with
      | nil =>
        cases rest with
        | nil => simp [join]
        | cons u us => simp [join]
      | cons u us =>
        cases rest with
        | nil => simp at hr
        | cons v vs =>
          rw [hr] at ih
          simp only [join, List.length_append] at ih ⊢
          omega

/-- Squeezing never makes a text longer. -/
theorem length_squeeze_le (t : Text) : t.squeeze.length ≤ t.length := by
  have h := length_join_filter_le ' ' (t.fields isBlank)
  rw [length_join_fields] at h
  exact h

end Text

end AsyncPeer
