/-
# Bracket trees

Two scans look at brackets, and neither of them builds a tree.  `positions` keeps two counters, one for
the three kinds of brackets that it counts together and one for generic argument lists, and
`closingOffset` counts the brackets of one kind and takes the other kinds for ordinary characters.
Here the tree is written down first.  `Items` is a text with its brackets matched: ordinary characters,
arrows, string literals and groups, one after the other.  Where its characters stand and where each of
its groups closes is read off the tree (`Items.outer`, `Items.groups`), and the two scans find exactly
this in the flattened text (`Items.scans_agree`).

The items are put down with two conditions.  A generic argument list stands directly behind a name, for
otherwise its `<` is an operator, and it does not end in a dash, which would make an arrow of its
closing bracket.
-/
import AsyncPeer.Proofs.Balanced
import AsyncPeer.Proofs.Boundary

namespace AsyncPeer.Spelling

/-- A character that is no bracket and no quote.  It can be a dash. -/
def isOrdinary (c : Char) : Bool :=
  !(c == '"' || isOpening c || isClosing c || c == '<' || c == '>')

lemma not_ordinary {c : Char} (h : isOrdinary c = true) :
    c ≠ '"' ∧ isOpening c = false ∧ isClosing c = false ∧ c ≠ '<' ∧ c ≠ '>' := by
  simpa [isOrdinary, and_assoc] using h

lemma Bracket.ne_of_ordinary {c : Char} (h : isOrdinary c = true) (b : Bracket) :
    c ≠ b.opening ∧ c ≠ b.closing := by
  constructor
  · rintro rfl
    cases b <;> exact absurd h (by decide)
  · rintro rfl
    cases b <;> exact absurd h (by decide)

/-- One element of the inside of a string literal. -/
inductive LiteralPart where
  | plain (c : Char) (h : c ≠ '"' ∧ c ≠ '\\')
  /-- A backslash and the character whose meaning it takes away. -/
  | escaped (c : Char)

/-- The text of an element. -/
def LiteralPart.text : LiteralPart → Text
  | plain c _ => [c]
  | escaped c => ['\\', c]

lemma staysInside_parts (parts : List LiteralPart) :
    staysInside .inside (parts.flatMap LiteralPart.text) = true := by
  induction parts with
  | nil => rfl
  | cons part parts ih =>
    cases part with
    | plain c h =>
      have hstep : Quote.inside.step c = .inside := by simp [Quote.step, h.1, h.2]
      simpa [LiteralPart.text, staysInside, hstep, Quote.isInside] using ih
    | escaped c => simpa [LiteralPart.text, staysInside, Quote.step, Quote.isInside] using ih

/-- A text as a list of items: each constructor is an item and the items behind it. -/
inductive Items where
  | nil
  | char (c : Char) (h : isOrdinary c = true) (rest : Items)
  | arrow (rest : Items)
  /-- A string literal, given by what stands between its quotes. -/
  | literal (parts : List LiteralPart) (rest : Items)
  /-- A group, given by its brackets and the items between them. -/
  | group (b : Bracket) (inside : Items) (rest : Items)

namespace Items

/-- The flattened items. -/
def text : Items → Text
  | nil => []
  | char c _ rest => c :: rest.text
  | arrow rest => '-' :: '>' :: rest.text
  | literal parts rest => '"' :: (parts.flatMap LiteralPart.text ++ '"' :: rest.text)
  | group b inside rest => b.opening :: (inside.text ++ b.closing :: rest.text)

/-- The ordinary character that the items end in, if they end in one.  If there are no items, this is
what stands in front. -/
def last? (before : Option Char) : Items → Option Char
  | nil => before
  | char c _ rest => rest.last? (some c)
  | arrow rest => rest.last? none
  | literal _ rest => rest.last? none
  | group _ _ rest => rest.last? none

/-- Generic argument lists stand directly behind a name and do not end in a dash. -/
def wellPlaced (before : Option Char) : Items → Bool
  | nil => true
  | char c _ rest => rest.wellPlaced (some c)
  | arrow rest => rest.wellPlaced none
  | literal _ rest => rest.wellPlaced none
  | group b inside rest =>
    (b != .angle || before.any isNameChar && inside.last? none != some '-') &&
      inside.wellPlaced none && rest.wellPlaced none

/-- The ordinary characters outside every group, with their byte offsets. -/
def outer (start : Nat) : Items → List (Nat × Char)
  | nil => []
  | char c _ rest => (start, c) :: rest.outer (start + c.utf8Size)
  | arrow rest => rest.outer (start + 2)
  | literal parts rest => rest.outer (start + (Text.byteSize (parts.flatMap LiteralPart.text) + 2))
  | group _ inside rest => rest.outer (start + (inside.text.byteSize + 2))

/-- The byte offsets of the two brackets of every group, at any depth. -/
def groups (start : Nat) : Items → List (Nat × Nat)
  | nil => []
  | char c _ rest => rest.groups (start + c.utf8Size)
  | arrow rest => rest.groups (start + 2)
  | literal parts rest => rest.groups (start + (Text.byteSize (parts.flatMap LiteralPart.text) + 2))
  | group _ inside rest =>
    (start, start + 1 + inside.text.byteSize) ::
      (inside.groups (start + 1) ++ rest.groups (start + (inside.text.byteSize + 2)))

end Items

/-! ### Outermost characters -/

/-- Marks that are not set only move the offsets. -/
lemma positionsFrom_hidden {ms : List (Char × Bool)} (h : ∀ m ∈ ms, m.2 = false)
    (ns : List (Char × Bool)) (start : Nat) :
    positionsFrom start (ms ++ ns) = positionsFrom (start + Text.byteSize (ms.map (·.1))) ns := by
  induction ms generalizing start with
  | nil => rfl
  | cons m ms ih =>
    obtain ⟨c, marked⟩ := m
    obtain rfl : marked = false := h (c, marked) (by simp)
    have hms := ih (fun m hm => h m (List.mem_cons_of_mem _ hm)) (start + c.utf8Size)
    rw [List.cons_append, positionsFrom, hms, List.map_cons, Text.byteSize_cons, Nat.add_assoc]

namespace Nesting

lemma step_ordinary {s : Nesting} {c : Char} (hs : s.quote = .outside) (hc : isOrdinary c = true) :
    s.step c = { s with behindName := isNameChar c } := by
  obtain ⟨hquote, hopening, hclosing, hless, hgreater⟩ := not_ordinary hc
  simp [step, hs, Quote.step, Quote.isInside, hquote, hopening, hclosing, hless, hgreater]

lemma keeps_ordinary (s : Nesting) {c : Char} (hc : isOrdinary c = true) : s.keeps c = s.isTop := by
  obtain ⟨hquote, hopening, hclosing, hless, -⟩ := not_ordinary hc
  simp [keeps, hquote, hopening, hclosing, hless]

/-- Reading a bracket that opens a group: from the state inside the group, whatever stood last in it, the
closing bracket leads back. -/
lemma step_bracket {s : Nesting} (hs : s.quote = .outside) {b : Bracket}
    (hb : b = .angle → s.behindName = true) :
    s.keeps b.opening = false ∧ (s.step b.opening).quote = .outside ∧
      (s.step b.opening).behindName = false ∧ (s.step b.opening).isTop = false ∧
      ∀ behindName, step { s.step b.opening with behindName } b.closing =
        { s with behindName := false } := by
  by_cases hangle : b = .angle
  · subst hangle
    have hstep : s.step Bracket.angle.opening = { s with angles := s.angles + 1, behindName := false } :=
      step_less hs (hb rfl)
    refine ⟨by simp [keeps, Bracket.opening, hb], ?_⟩
    rw [hstep]
    refine ⟨hs, rfl, isTop_eq_false (Or.inr (Or.inr (Nat.succ_ne_zero _))), fun behindName => ?_⟩
    exact step_greater hs
  · refine ⟨keeps_opening s hangle, ?_⟩
    rw [step_opening hs hangle]
    refine ⟨hs, rfl, isTop_eq_false (Or.inr (Or.inl (Nat.succ_ne_zero _))), fun behindName => ?_⟩
    exact step_closing hs hangle

end Nesting

namespace Items

lemma wellPlaced_group {b : Bracket} {inside items : Items} {before : Option Char} :
    (group b inside items).wellPlaced before = true ↔
      (b = .angle → before.any isNameChar = true ∧ inside.last? none ≠ some '-') ∧
        inside.wellPlaced none = true ∧ items.wellPlaced none = true := by
  by_cases hb : b = .angle <;> simp [wellPlaced, hb, and_assoc]

lemma byteSize_arrow (items : Items) : (arrow items).text.byteSize = 2 + items.text.byteSize := by
  have hsize : '-'.utf8Size = 1 ∧ '>'.utf8Size = 1 := by decide
  rw [text, Text.byteSize_cons, Text.byteSize_cons]
  omega

lemma byteSize_literal (parts : List LiteralPart) (items : Items) :
    (literal parts items).text.byteSize =
      Text.byteSize (parts.flatMap LiteralPart.text) + 2 + items.text.byteSize := by
  have hsize : '"'.utf8Size = 1 := by decide
  rw [text, Text.byteSize_cons, Text.byteSize_append, Text.byteSize_cons]
  omega

lemma byteSize_group (b : Bracket) (inside items : Items) :
    (group b inside items).text.byteSize = inside.text.byteSize + 2 + items.text.byteSize := by
  have hsize := And.intro b.utf8Size_opening b.utf8Size_closing
  rw [text, Text.byteSize_cons, Text.byteSize_append, Text.byteSize_cons]
  omega

/-- No item begins with a `>`, so a dash makes an arrow only with what stands behind the items. -/
lemma head?_ne (items : Items) {rest : Text}
    (h : items.last? (some '-') = some '-' → rest.head? ≠ some '>') :
    (items.text ++ rest).head? ≠ some '>' := by
  cases items with
  | nil => exact h rfl
  | char c hc => simpa [text] using (not_ordinary hc).2.2.2.2
  | arrow => simp [text]
  | literal => simp [text]
  | group b => cases b <;> simp [text, Bracket.opening]

/-- A scan for outermost characters that reads well-placed items finds those outside the groups, unless
something is open already, and then goes on as before. -/
lemma positionsFrom_marks {items : Items} {before : Option Char}
    (h : items.wellPlaced before = true) {s : Nesting} (hs : s.quote = .outside)
    (hname : s.behindName = before.any isNameChar) {rest : Text}
    (hrest : items.last? before = some '-' → rest.head? ≠ some '>') (start : Nat) :
    positionsFrom start (s.marks (items.text ++ rest)) =
      (if s.isTop then items.outer start else []) ++
        positionsFrom (start + items.text.byteSize)
          (Nesting.marks { s with behindName := (items.last? before).any isNameChar } rest) := by
  induction items generalizing before s rest start with
  | nil =>
    have hs' : s = { s with behindName := before.any isNameChar } := by rw [← hname]
    simp only [text, outer, last?, ite_self, List.nil_append, ← hs']
    rfl
  | char c hc items ih =>
    have hih := ih h (s := { s with behindName := isNameChar c }) hs rfl hrest (start + c.utf8Size)
    have hmarks : s.marks (c :: (items.text ++ rest)) =
        (c, s.isTop) :: Nesting.marks { s with behindName := isNameChar c } (items.text ++ rest) := by
      have harrow : ¬(c = '-' ∧ (items.text ++ rest).head? = some '>') := by
        rintro ⟨rfl, hhead⟩
        exact items.head?_ne hrest hhead
      rw [s.marks_cons_of_head harrow, s.keeps_ordinary hc, Nesting.step_ordinary hs hc]
    have htop : Nesting.isTop { s with behindName := isNameChar c } = s.isTop := rfl
    rw [htop] at hih
    rw [text, List.cons_append, hmarks, Text.byteSize_cons, ← Nat.add_assoc]
    cases hs' : s.isTop with
    | false =>
      rw [hs'] at hih
      exact hih
    | true =>
      rw [hs'] at hih
      exact congrArg ((start, c) :: ·) hih
  | arrow items ih =>
    have hih := ih h (s := { s with behindName := false }) hs rfl hrest (start + 2)
    rw [byteSize_arrow, ← Nat.add_assoc, text, List.cons_append, List.cons_append, Nesting.marks,
      Nesting.stepArrow_outside hs]
    exact hih
  | literal parts items ih =>
    have hih := ih h (s := { s with behindName := false }) hs rfl hrest
      (start + (Text.byteSize (parts.flatMap LiteralPart.text) + 2))
    obtain ⟨ms, hms, htext, hhidden⟩ :=
      @Nesting.marks_literal { s with quote := .inside, behindName := false } _ rfl
        (staysInside_parts parts) (items.text ++ rest)
    have hkeeps : s.keeps '"' = false := by simp [Nesting.keeps]
    have hsize : start + '"'.utf8Size + Text.byteSize (ms.map (·.1)) =
        start + (Text.byteSize (parts.flatMap LiteralPart.text) + 2) := by
      have : '"'.utf8Size = 1 := by decide
      rw [htext, Text.byteSize_append, Text.byteSize_cons, Text.byteSize_nil]
      omega
    rw [byteSize_literal, ← Nat.add_assoc, text, List.cons_append, List.append_assoc, List.cons_append,
      Nesting.marks_cons (by decide), hkeeps, positionsFrom, Nesting.step_quote hs, hms,
      positionsFrom_hidden hhidden, hsize]
    rw [← hs]
    exact hih
  | group b inside items ihi ih =>
    obtain ⟨hangle, hinside, hitems⟩ := wellPlaced_group.1 h
    obtain ⟨hkeeps, hquote, hbehind, hopen, hback⟩ :=
      Nesting.step_bracket hs fun hb => hname.trans (hangle hb).1
    have hclosing : inside.last? none = some '-' →
        (b.closing :: (items.text ++ rest)).head? ≠ some '>' := by
      intro hdash
      cases b with
      | angle => exact absurd hdash (hangle rfl).2
      | round => simp [Bracket.closing]
      | square => simp [Bracket.closing]
      | curly => simp [Bracket.closing]
    have hsize := And.intro b.utf8Size_opening b.utf8Size_closing
    have hin := ihi hinside hquote hbehind hclosing (start + 1)
    have hih := ih hitems (s := { s with behindName := false }) hs rfl hrest
      (start + (inside.text.byteSize + 2))
    have hstart : start + 1 + inside.text.byteSize + 1 = start + (inside.text.byteSize + 2) := by omega
    rw [hopen, if_neg (by decide), List.nil_append] at hin
    rw [byteSize_group, ← Nat.add_assoc, text, List.cons_append, List.append_assoc, List.cons_append,
      Nesting.marks_cons (by cases b <;> decide), hkeeps, positionsFrom, hsize.1, hin,
      Nesting.marks_cons (by cases b <;> decide), Nesting.keeps_of_not_top (by exact hopen),
      positionsFrom, hback, hsize.2, hstart]
    exact hih

end Items

/-! ### Closing brackets -/

namespace Items

/-- The search for a closing bracket passes over well-placed items. -/
lemma untilClosed_text {items : Items} {before : Option Char} (h : items.wellPlaced before = true)
    (b : Bracket) (inner : Nat) (rest : Text) :
    b.untilClosed inner .outside (before == some '-') (items.text ++ rest) =
      Bracket.behindText items.text
        (b.untilClosed inner .outside (items.last? before == some '-') rest) := by
  induction items generalizing before inner rest with
  | nil => exact (Bracket.behindText_nil _).symm
  | char c hc items ih =>
    obtain ⟨hopening, hclosing⟩ := Bracket.ne_of_ordinary hc b
    have hdash : (c == '-') = (some c == some '-') := rfl
    rw [text, List.cons_append, Bracket.untilClosed_other (not_ordinary hc).1 hopening (Or.inl hclosing),
      hdash, ih h, ← Bracket.behindText_append]
    rfl
  | arrow items ih =>
    rw [text, List.cons_append, List.cons_append,
      Bracket.untilClosed_other (by decide) (by cases b <;> decide) (Or.inl (by cases b <;> decide)),
      beq_self_eq_true,
      Bracket.untilClosed_other (by decide) (by cases b <;> decide) (Or.inr ⟨rfl, rfl⟩)]
    have hih := @ih none h inner rest
    have hdash : ('>' == '-') = ((none : Option Char) == some '-') := rfl
    rw [hdash, hih, ← Bracket.behindText_append, ← Bracket.behindText_append]
    rfl
  | literal parts items ih =>
    have hih := @ih none h inner rest
    have hdash : false = ((none : Option Char) == some '-') := rfl
    rw [text, List.cons_append, List.append_assoc, List.cons_append, Bracket.untilClosed_cons,
      if_neg (by decide), if_pos rfl, Bracket.untilClosed_literal rfl (staysInside_parts parts),
      hdash, hih, ← Bracket.behindText_append, ← Bracket.behindText_append]
    simp [last?]
  | group k inside items ihi ih =>
    obtain ⟨hangle, hinside, hitems⟩ := wellPlaced_group.1 h
    obtain ⟨inner', hopening, hclosing⟩ := b.untilClosed_bracket k inner (before == some '-')
    have hin := @ihi none hinside inner' (k.closing :: (items.text ++ rest))
    have hih := @ih none hitems inner rest
    rw [Option.none_beq_some] at hin hih
    rw [text, List.cons_append, List.append_assoc, List.cons_append, hopening, hin,
      hclosing _ fun hk => beq_false_of_ne (hangle hk).2, hih, ← Bracket.behindText_append,
      ← Bracket.behindText_append, ← Bracket.behindText_append]
    simp [last?]

/-- A group is closed by its own bracket. -/
lemma group?_text {inside : Items} (h : inside.wellPlaced none = true) {b : Bracket}
    (hb : b = .angle → inside.last? none ≠ some '-') (rest : Text) :
    group? (b.opening :: (inside.text ++ b.closing :: rest)) = some (inside.text, rest) := by
  have hkind : Bracket.ofOpening? b.opening = some b := by cases b <;> rfl
  have hin := untilClosed_text h b 0 (b.closing :: rest)
  rw [Option.none_beq_some] at hin
  simp only [group?, hkind]
  rw [hin, Bracket.untilClosed_closing_of fun hangle => beq_false_of_ne (hb hangle),
    Bracket.untilClosed_closing]
  simp [Bracket.behindText]

/-- Every group of items that stand somewhere in a text is closed by its own bracket. -/
lemma closingOffset_of_mem {items : Items} {before : Option Char} (h : items.wellPlaced before = true)
    (front rest : Text) {g : Nat × Nat} (hg : g ∈ items.groups front.byteSize) :
    closingOffset g.1 (front ++ (items.text ++ rest)) = .ok (some g.2) := by
  induction items generalizing before front rest with
  | nil => cases hg
  | char c hc items ih =>
    have hfront : Text.byteSize (front ++ [c]) = front.byteSize + c.utf8Size := by simp
    have hih := ih h (front ++ [c]) rest (by rw [hfront]; exact hg)
    rwa [List.append_assoc] at hih
  | arrow items ih =>
    have hfront : Text.byteSize (front ++ ['-', '>']) = front.byteSize + 2 := by
      rw [Text.byteSize_append]
      rfl
    have hih := ih h (front ++ ['-', '>']) rest (by rw [hfront]; exact hg)
    rwa [List.append_assoc] at hih
  | literal parts items ih =>
    have hfront : Text.byteSize (front ++ '"' :: (parts.flatMap LiteralPart.text ++ ['"'])) =
        front.byteSize + (Text.byteSize (parts.flatMap LiteralPart.text) + 2) := by
      have : '"'.utf8Size = 1 := by decide
      simp only [Text.byteSize_append, Text.byteSize_cons, Text.byteSize_nil]
      omega
    have hih := ih h (front ++ '"' :: (parts.flatMap LiteralPart.text ++ ['"'])) rest
      (by rw [hfront]; exact hg)
    simpa [text] using hih
  | group b inside items ihi ih =>
    obtain ⟨hangle, hinside, hitems⟩ := wellPlaced_group.1 h
    have hsize := And.intro b.utf8Size_opening b.utf8Size_closing
    rw [groups, List.mem_cons, List.mem_append] at hg
    rcases hg with rfl | hg | hg
    · have hgroup := group?_text hinside (fun hb => (hangle hb).2) (items.text ++ rest)
      rw [text, List.cons_append, List.append_assoc, List.cons_append, closingOffset,
        Text.from?_append]
      exact congrArg (fun g => Except.ok (Option.map _ g)) hgroup
    · have hfront : Text.byteSize (front ++ [b.opening]) = front.byteSize + 1 := by simp [hsize.1]
      have hih := ihi hinside (front ++ [b.opening]) (b.closing :: (items.text ++ rest))
        (by rw [hfront]; exact hg)
      simpa [text] using hih
    · have hfront : Text.byteSize (front ++ b.opening :: (inside.text ++ [b.closing])) =
          front.byteSize + (inside.text.byteSize + 2) := by
        simp only [Text.byteSize_append, Text.byteSize_cons, Text.byteSize_nil]
        omega
      have hih := ih hitems (front ++ b.opening :: (inside.text ++ [b.closing])) rest
        (by rw [hfront]; exact hg)
      simpa [text] using hih

/-- **The two scans agree with the bracket tree.**  In the flattened text of well-placed items, the
outermost characters are exactly the ordinary characters outside every group, in order and with their
byte offsets, and for every group, however deep, the bracket that closes it is its own. -/
theorem scans_agree (items : Items) (h : items.wellPlaced none = true) :
    positions items.text = items.outer 0 ∧
      ∀ g ∈ items.groups 0, closingOffset g.1 items.text = .ok (some g.2) := by
  constructor
  · have hmarks := @positionsFrom_marks items none h {} rfl rfl [] (by simp) 0
    rw [List.append_nil] at hmarks
    exact hmarks.trans (List.append_nil _)
  · intro g hg
    have hclosing := closingOffset_of_mem h [] [] hg
    simpa using hclosing

/-- Ordinary characters in front of the items. -/
def chars : (t : Text) → t.all isOrdinary = true → Items → Items
  | [], _, rest => rest
  | c :: t, h, rest =>
    char c (by simp at h; exact h.1) (chars t (by simp at h ⊢; exact h.2) rest)

/-- The items of `é<(a) -> b[">\""]> - {é}`: a wide character, all kinds of groups, an arrow inside an
argument list, and a literal with a bracket and a quote in it. -/
def wideName : Items :=
  chars "é".toList (by decide) <|
    group .angle
      (group .round (chars "a".toList (by decide) nil) <|
        chars " ".toList (by decide) <| arrow <| chars " b".toList (by decide) <|
          group .square (literal [.plain '>' (by decide), .escaped '"'] nil) nil) <|
    chars " - ".toList (by decide) <| group .curly (chars "é".toList (by decide) nil) nil

theorem scans_agree_wideName :
    wideName.text = "é<(a) -> b[\">\\\"\"]> - \x7bé\x7d".toList ∧
      positions wideName.text = [(0, 'é'), (19, ' '), (20, '-'), (21, ' ')] ∧
      ∀ g ∈ [(2, 18), (3, 5), (11, 17), (22, 25)], closingOffset g.1 wideName.text = .ok (some g.2) := by
  have hagree := scans_agree wideName (by decide +kernel)
  have houter : wideName.outer 0 = [(0, 'é'), (19, ' '), (20, '-'), (21, ' ')] := by decide +kernel
  have hgroups : wideName.groups 0 = [(2, 18), (3, 5), (11, 17), (22, 25)] := by decide +kernel
  rw [houter, hgroups] at hagree
  exact ⟨by decide +kernel, hagree⟩

end Items

end AsyncPeer.Spelling
