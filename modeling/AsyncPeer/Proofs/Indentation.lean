/-
# Lines and indentation

What a block of text looks like behind an indentation, said without cutting the text up.  `HasLines` lists
the lines of a text as they follow each other: each line ends at a line feed, to which a carriage return
directly before it belongs, and only the last one may be without an end.  `IsIndented` says that a block
shows these lines, those that are not empty behind the indentation.

Both are what the program computes, and nothing else is: `hasLines_iff` and `isIndented_iff`.
-/
import AsyncPeer.Source.Expansion
import Mathlib.Data.List.Forall2

namespace AsyncPeer

/-! ### The lines of a text -/

/-- The text has these lines.  A line ends at a line feed, to whose end a carriage return directly before
it belongs; behind the last line feed there is a line if something stands there. -/
inductive HasLines : Text → List Text → Prop
  | nil : HasLines [] []
  | last {line : Text} (hne : line ≠ []) (hfeed : '\n' ∉ line) : HasLines line [line]
  | feed {line rest : Text} {lines : List Text} (hfeed : '\n' ∉ line)
      (hreturn : line.getLast? ≠ some '\r') (h : HasLines rest lines) :
    HasLines (line ++ '\n' :: rest) (line :: lines)
  | returnFeed {line rest : Text} {lines : List Text} (hfeed : '\n' ∉ line) (h : HasLines rest lines) :
    HasLines (line ++ '\r' :: '\n' :: rest) (line :: lines)

namespace Text

/-- A character that does not belong to the end of a line is the first one of a line. -/
lemma lines_cons {c : Char} {cs : Text} (hc : c ≠ '\n') (hcs : c = '\r' → cs.head? ≠ some '\n') :
    lines (c :: cs) = (c :: (lines cs).headD []) :: (lines cs).tail := by
  rw [lines]
  · cases lines cs <;> rfl
  · exact hc
  · rintro cs' rfl rfl
    exact hcs rfl rfl

/-- A beginning without line feeds belongs to the first line. -/
lemma lines_append {line tail : Text} (hne : line ≠ []) (hfeed : '\n' ∉ line)
    (htail : line.getLast? = some '\r' → tail.head? ≠ some '\n') :
    lines (line ++ tail) = (line ++ (lines tail).headD []) :: (lines tail).tail := by
  induction line with
  | nil => exact absurd rfl hne
  | cons c line ih =>
    rw [List.mem_cons, not_or] at hfeed
    obtain ⟨hc, hline⟩ := hfeed
    cases line with
    | nil =>
      refine lines_cons (Ne.symm hc) ?_
      rintro rfl
      exact htail rfl
    | cons d line =>
      have hd : d ≠ '\n' := fun heq => hline (heq ▸ List.mem_cons_self)
      have hrest := ih (by simp) hline (by simpa using htail)
      rw [List.cons_append, lines_cons (Ne.symm hc) (by simp [hd]), hrest]
      rfl

end Text

/-- The lines that are listed are those that the text has. -/
lemma HasLines.eq {t : Text} {lines : List Text} (h : HasLines t lines) : t.lines = lines := by
  induction h with
  | nil => rfl
  | @last line hne hfeed =>
    have hlines : Text.lines (line ++ []) = _ := Text.lines_append hne hfeed (by simp)
    simpa [Text.lines] using hlines
  | @feed line rest lines hfeed hreturn _ ih =>
    by_cases hne : line = []
    · subst hne
      rw [List.nil_append, Text.lines, ih]
    · rw [Text.lines_append hne hfeed fun h => absurd h hreturn, Text.lines, ih]
      simp
  | @returnFeed line rest lines hfeed _ ih =>
    by_cases hne : line = []
    · subst hne
      rw [List.nil_append, Text.lines, ih]
    · rw [Text.lines_append hne hfeed (by simp), Text.lines, ih]
      simp

/-- A character in front of the first line of a text. -/
lemma HasLines.cons {c : Char} {cs line : Text} {lines : List Text} (h : HasLines cs (line :: lines))
    (hc : c ≠ '\n') (hcs : c = '\r' → cs.head? ≠ some '\n') :
    HasLines (c :: cs) ((c :: line) :: lines) := by
  have hmem : ∀ {line : Text}, '\n' ∉ line → '\n' ∉ c :: line := fun hfeed =>
    List.not_mem_cons_of_ne_of_not_mem (Ne.symm hc) hfeed
  cases h with
  | last hne hfeed => exact .last (by simp) (hmem hfeed)
  | returnFeed hfeed h => exact .returnFeed (hmem hfeed) h
  | feed hfeed hreturn h =>
    refine .feed (hmem hfeed) ?_ h
    cases line with
    | nil =>
      intro hlast
      exact hcs (by simpa using hlast) rfl
    | cons d line => simpa using hreturn

/-- Every text has the lines that are listed. -/
lemma hasLines_lines (t : Text) : HasLines t t.lines := by
  have hempty : '\n' ∉ ([] : Text) := List.not_mem_nil
  fun_induction Text.lines t with
  | case1 => exact .nil
  | case2 cs ih => exact .feed hempty (by simp) ih
  | case3 cs ih => exact .returnFeed hempty ih
  | case4 c cs hfeed _ hnil ih =>
    rw [hnil] at ih
    cases ih
    exact .last (by simp) (by simpa using Ne.symm hfeed)
  | case5 c cs hfeed hreturn line rest hcons ih =>
    rw [hcons] at ih
    refine ih.cons hfeed fun hc hhead => ?_
    obtain ⟨cs', rfl⟩ := List.head?_eq_some_iff.1 hhead
    exact hreturn cs' hc rfl

lemma hasLines_iff {t : Text} {lines : List Text} : HasLines t lines ↔ lines = t.lines := by
  constructor
  · exact fun h => h.eq.symm
  · rintro rfl
    exact hasLines_lines t

/-! ### Texts behind an indentation -/

/-- A line behind an indentation.  An empty line stays empty. -/
inductive IsBehind (indent : Text) : Text → Text → Prop
  | empty : IsBehind indent [] []
  | line {line : Text} (hne : line ≠ []) : IsBehind indent line (indent ++ line)

/-- The block shows the lines of the text, each behind the indentation, with a line feed between
neighbours and none at the end. -/
def IsIndented (indent t block : Text) : Prop :=
  ∃ lines shown, HasLines t lines ∧ List.Forall₂ (IsBehind indent) lines shown ∧
    block = List.intercalate ['\n'] shown

namespace Text

lemma join_eq_intercalate (sep : Text) (ts : List Text) : join sep ts = List.intercalate sep ts := by
  induction ts with
  | nil => rfl
  | cons t ts ih =>
    cases ts with
    | nil => simp [join]
    | cons u us =>
      rw [join, ih, List.intercalate_cons_cons, List.append_assoc]
      simp

end Text

lemma isBehind_iff {indent line shown : Text} :
    IsBehind indent line shown ↔ (if line.isEmpty then [] else indent ++ line) = shown := by
  constructor
  · rintro (_ | hne)
    · rfl
    · rw [List.isEmpty_eq_false_iff.2 hne]
      rfl
  · rintro rfl
    cases line with
    | nil => exact .empty
    | cons c cs => exact .line (by simp)

/-- Indenting gives the one block that shows the text behind the indentation. -/
lemma isIndented_iff {indent t block : Text} :
    IsIndented indent t block ↔ block = Source.indentLines indent t := by
  have hshown : ∀ lines shown : List Text, List.Forall₂ (IsBehind indent) lines shown ↔
      lines.map (fun line => if line.isEmpty then [] else indent ++ line) = shown := by
    intro lines shown
    rw [← List.forall₂_eq_eq_eq, List.forall₂_map_left_iff]
    exact ⟨List.Forall₂.imp fun _ _ => isBehind_iff.1, List.Forall₂.imp fun _ _ => isBehind_iff.2⟩
  simp only [IsIndented, hasLines_iff, hshown, Source.indentLines, Text.join_eq_intercalate]
  constructor
  · rintro ⟨_, _, rfl, rfl, rfl⟩
    rfl
  · rintro rfl
    exact ⟨_, _, rfl, rfl, rfl⟩

example : Source.indentLines "  ".toList "a\r\n\nb\n".toList = "  a\n\n  b".toList := by decide

end AsyncPeer
