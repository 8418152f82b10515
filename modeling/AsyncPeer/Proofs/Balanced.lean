/-
# Balanced texts

Two scans look at brackets.  `Nesting.marks` counts what is open in order to tell the outermost
characters, and `Bracket.untilClosed` looks for the bracket that closes a group.  They count different
things, but there is a class of texts that both of them pass over without noticing: the balanced
texts, which close exactly the brackets that they open.

This file defines the class, together with a class of characters to which the outermost characters of
a text belong, and proves that

* behind a balanced text the marks go on as in front of it (`Balanced.passes`);
* so does the search for a closing bracket (`Balanced.untilClosed_append`).

So only the separators that are written between balanced texts are seen: a list of texts comes apart
where it was joined (`pieces_join`), and a group is closed by its own bracket (`Balanced.group?_eq`).
-/
import AsyncPeer.Proofs.Layout
import AsyncPeer.Spelling.Group
import AsyncPeer.Spelling.Nesting

namespace AsyncPeer.Spelling

/-- A character that means nothing to the scans: no quote, no bracket and no part of an arrow. -/
def isPlain (c : Char) : Bool :=
  !(c == '"' || isOpening c || isClosing c || c == '<' || c == '>' || c == '-')

lemma not_plain {c : Char} (h : isPlain c = true) :
    c ≠ '"' ∧ isOpening c = false ∧ isClosing c = false ∧ c ≠ '<' ∧ c ≠ '>' ∧ c ≠ '-' := by
  simpa [isPlain, and_assoc] using h

lemma Bracket.utf8Size_opening (b : Bracket) : b.opening.utf8Size = 1 := by
  cases b <;> decide

lemma Bracket.utf8Size_closing (b : Bracket) : b.closing.utf8Size = 1 := by
  cases b <;> decide

/-- A scan that stands inside a string literal reads the text and stays inside. -/
def staysInside : Quote → Text → Bool
  | quote, [] => quote == .inside
  | quote, c :: cs => (quote.step c).isInside && staysInside (quote.step c) cs

/-- The text closes the brackets that it opens, and its outermost characters are in the class `q`. -/
inductive Balanced : (q : Char → Prop) → Text → Prop
  | nil {q : Char → Prop} : Balanced q []
  | plain {q : Char → Prop} {c : Char} (hplain : isPlain c = true) (hc : q c) : Balanced q [c]
  | arrow {q : Char → Prop} : Balanced q ['-', '>']
  /-- A string literal. -/
  | literal {q : Char → Prop} {x : Text} (hx : staysInside .inside x = true) :
      Balanced q ('"' :: (x ++ ['"']))
  /-- A group in round, square or curly brackets. -/
  | group {q : Char → Prop} {b : Bracket} {x : Text} (hb : b ≠ .angle)
      (hx : Balanced (fun _ => True) x) : Balanced q (b.opening :: (x ++ [b.closing]))
  /-- A generic argument list, directly behind a name. -/
  | angle {q : Char → Prop} {x y : Text} (hx : Balanced q x)
      (hname : x.getLast?.any isNameChar = true) (hy : Balanced (fun _ => True) y) :
      Balanced q (x ++ '<' :: (y ++ ['>']))
  | append {q : Char → Prop} {x y : Text} (hx : Balanced q x) (hy : Balanced q y) :
      Balanced q (x ++ y)

namespace Balanced

variable {q : Char → Prop}

lemma mono {x : Text} (h : Balanced q x) : ∀ {q' : Char → Prop}, (∀ c, q c → q' c) → Balanced q' x := by
  induction h with
  | nil => exact fun _ => .nil
  | plain hplain hc => exact fun hq => .plain hplain (hq _ hc)
  | arrow => exact fun _ => .arrow
  | literal hx => exact fun _ => .literal hx
  | group hb hx => exact fun _ => .group hb hx
  | angle _ hname hy ihx => exact fun hq => .angle (ihx hq) hname hy
  | append _ _ ihx ihy => exact fun hq => .append (ihx hq) (ihy hq)

lemma of_forall {x : Text} (h : ∀ c ∈ x, isPlain c = true ∧ q c) : Balanced q x := by
  induction x with
  | nil => exact .nil
  | cons c x ih =>
    obtain ⟨hplain, hc⟩ := h c (by simp)
    exact .append (.plain hplain hc) (ih fun d hd => h d (List.mem_cons_of_mem c hd))

lemma of_all {x : Text} [DecidablePred q] (h : x.all (fun c => isPlain c && q c) = true) :
    Balanced q x :=
  of_forall fun c hc => by simpa using List.all_eq_true.1 h c hc

lemma round {x : Text} (hx : Balanced (fun _ => True) x) : Balanced q ('(' :: (x ++ [')'])) :=
  .group (b := .round) (by decide) hx

lemma join {xs : List Text} {sep : Text} (hsep : Balanced q sep) (h : ∀ x ∈ xs, Balanced q x) :
    Balanced q (Text.join sep xs) := by
  induction xs with
  | nil => exact .nil
  | cons x xs ih =>
    cases xs with
    | nil => exact h x (by simp)
    | cons y xs =>
      exact .append (.append (h x (by simp)) hsep) (ih fun z hz => h z (List.mem_cons_of_mem x hz))

end Balanced

/-! ### Marks -/

namespace Nesting

/-- A character that does not begin an arrow. -/
lemma marks_cons_of_head (s : Nesting) {c : Char} {cs : Text}
    (h : ¬(c = '-' ∧ cs.head? = some '>')) :
    s.marks (c :: cs) = (c, s.keeps c) :: (s.step c).marks cs := by
  rw [marks]
  rintro rest rfl rfl
  exact h ⟨rfl, rfl⟩

lemma marks_cons {s : Nesting} {c : Char} (hc : c ≠ '-') (cs : Text) :
    s.marks (c :: cs) = (c, s.keeps c) :: (s.step c).marks cs :=
  s.marks_cons_of_head fun harrow => hc harrow.1

lemma step_plain {s : Nesting} {c : Char} (hs : s.quote = .outside) (hc : isPlain c = true) :
    s.step c = { s with behindName := isNameChar c } := by
  obtain ⟨hquote, hopening, hclosing, hless, hgreater, -⟩ := not_plain hc
  simp [step, hs, Quote.step, Quote.isInside, hquote, hopening, hclosing, hless, hgreater]

lemma step_quote {s : Nesting} (hs : s.quote = .outside) :
    s.step '"' = { s with quote := .inside, behindName := false } := by
  simp [step, hs, Quote.step, Quote.isInside, isOpening, isClosing]
  decide

lemma step_opening {s : Nesting} {b : Bracket} (hs : s.quote = .outside) (hb : b ≠ .angle) :
    s.step b.opening = { s with brackets := s.brackets + 1, behindName := false } := by
  cases b with
  | angle => exact absurd rfl hb
  | round => simp [step, hs, Quote.step, Quote.isInside, Bracket.opening, isOpening]; decide
  | square => simp [step, hs, Quote.step, Quote.isInside, Bracket.opening, isOpening]; decide
  | curly => simp [step, hs, Quote.step, Quote.isInside, Bracket.opening, isOpening]; decide

lemma step_closing {s : Nesting} {b : Bracket} (hs : s.quote = .outside) (hb : b ≠ .angle) :
    s.step b.closing = { s with brackets := s.brackets - 1, behindName := false } := by
  cases b with
  | angle => exact absurd rfl hb
  | round => simp [step, hs, Quote.step, Quote.isInside, Bracket.closing, isOpening, isClosing]; decide
  | square => simp [step, hs, Quote.step, Quote.isInside, Bracket.closing, isOpening, isClosing]; decide
  | curly => simp [step, hs, Quote.step, Quote.isInside, Bracket.closing, isOpening, isClosing]; decide

lemma step_less {s : Nesting} (hs : s.quote = .outside) (hname : s.behindName = true) :
    s.step '<' = { s with angles := s.angles + 1, behindName := false } := by
  simp [step, hs, hname, Quote.step, Quote.isInside, isOpening, isClosing]
  decide

lemma step_greater {s : Nesting} (hs : s.quote = .outside) :
    s.step '>' = { s with angles := s.angles - 1, behindName := false } := by
  simp [step, hs, Quote.step, Quote.isInside, isOpening, isClosing]
  decide

lemma stepArrow_outside {s : Nesting} (hs : s.quote = .outside) :
    s.stepArrow = { s with behindName := false } := by
  rw [stepArrow, hs]
  rfl

lemma isTop_eq_false {s : Nesting} (h : s.quote.isInside = true ∨ s.brackets ≠ 0 ∨ s.angles ≠ 0) :
    s.isTop = false := by
  rcases h with h | h | h <;> simp [isTop, h]

lemma keeps_of_not_top {s : Nesting} (h : s.isTop = false) (c : Char) : s.keeps c = false := by
  rw [keeps, h, Bool.false_and]

lemma keeps_opening (s : Nesting) {b : Bracket} (hb : b ≠ .angle) : s.keeps b.opening = false := by
  cases b with
  | angle => exact absurd rfl hb
  | round => simp [keeps, Bracket.opening, isOpening]
  | square => simp [keeps, Bracket.opening, isOpening]
  | curly => simp [keeps, Bracket.opening, isOpening]

lemma keeps_plain {s : Nesting} {c : Char} (hs : s.isTop = true) (hc : isPlain c = true) :
    s.keeps c = true := by
  obtain ⟨hquote, hopening, hclosing, hless, -⟩ := not_plain hc
  simp [keeps, hs, hquote, hopening, hclosing, hless]

/-- Inside a string literal the scan goes on character by character, also through arrows. -/
lemma marks_cons_inside {s : Nesting} (hs : s.quote.isInside = true) (c : Char) (cs : Text) :
    s.marks (c :: cs) = (c, false) :: (s.step c).marks cs := by
  have hkeeps := keeps_of_not_top (isTop_eq_false (Or.inl hs))
  by_cases hc : c = '-'
  · subst hc
    have hdash : (s.step '-').quote.isInside = true := by
      have hstep : (s.step '-').quote = s.quote.step '-' := by simp [step, hs]
      rw [hstep]
      cases hq : s.quote with
      | outside => rw [hq] at hs; cases hs
      | inside => rfl
      | escaped => rfl
    by_cases hcs : ∃ ds, cs = '>' :: ds
    · obtain ⟨ds, rfl⟩ := hcs
      rw [marks, marks_cons (by decide), keeps_of_not_top (isTop_eq_false (Or.inl hdash)), stepArrow,
        if_pos hs]
    · rw [marks, hkeeps]
      intro ds _ hds
      exact hcs ⟨ds, hds⟩
  · rw [marks_cons hc, hkeeps]

/-- The rest of a string literal is passed over. -/
lemma marks_literal {s : Nesting} {x : Text} (hs : s.quote.isInside = true)
    (hx : staysInside s.quote x = true) (rest : Text) :
    ∃ ms, s.marks (x ++ '"' :: rest) =
        ms ++ marks { s with quote := .outside, behindName := false } rest ∧
      ms.map (·.1) = x ++ ['"'] ∧ ∀ m ∈ ms, m.2 = false := by
  induction x generalizing s with
  | nil =>
    have hquote : s.quote = .inside := by simpa [staysInside] using hx
    refine ⟨[('"', false)], ?_, rfl, by simp⟩
    have hstep : s.step '"' = { s with quote := .outside, behindName := false } := by
      simp [step, hquote, Quote.isInside, Quote.step]
      decide
    rw [List.nil_append, marks_cons_inside hs, hstep]
    rfl
  | cons c x ih =>
    rw [staysInside, Bool.and_eq_true] at hx
    have hstep : s.step c = { s with quote := s.quote.step c, behindName := isNameChar c } := by
      simp [step, hs]
    obtain ⟨ms, hms, htext, hfalse⟩ := @ih (s.step c) (by rw [hstep]; exact hx.1)
      (by rw [hstep]; exact hx.2)
    refine ⟨(c, false) :: ms, ?_, by simp [htext], by simpa using hfalse⟩
    rw [List.cons_append, marks_cons_inside hs, hms, hstep]
    rfl

end Nesting

/-- Whether a scan that has read the text stands behind a name. -/
def endsInName (before : Bool) (x : Text) : Bool :=
  (x.getLast?.map isNameChar).getD before

lemma endsInName_append (before : Bool) (x y : Text) :
    endsInName before (x ++ y) = endsInName (endsInName before x) y := by
  rw [endsInName, endsInName, endsInName, List.getLast?_append]
  cases y.getLast? with
  | none => cases x.getLast? <;> rfl
  | some c => rfl

lemma endsInName_concat (before : Bool) (x : Text) (c : Char) :
    endsInName before (x ++ [c]) = isNameChar c := by
  rw [endsInName, List.getLast?_concat]
  rfl

lemma endsInName_of_any {x : Text} (h : x.getLast?.any isNameChar = true) (before : Bool) :
    endsInName before x = true := by
  rw [endsInName]
  cases hx : x.getLast? with
  | none => simp [hx] at h
  | some c => simpa [hx] using h

/-- The scan passes over the text and comes back to its state.  Of the characters of the text, only those
are outermost that are in the class, and none is if something is open. -/
def Nesting.Passes (q : Char → Prop) (x : Text) : Prop :=
  ∀ s : Nesting, s.quote = .outside → ∀ rest : Text,
    ∃ ms, s.marks (x ++ rest) =
        ms ++ Nesting.marks { s with behindName := endsInName s.behindName x } rest ∧
      ms.map (·.1) = x ∧ ∀ m ∈ ms, m.2 = true → s.isTop = true ∧ q m.1

namespace Nesting.Passes

variable {q p : Char → Prop} {x y : Text}

lemma plain {c : Char} (hplain : isPlain c = true) (hc : q c) : Passes q [c] := by
  intro s hs rest
  refine ⟨[(c, s.keeps c)], ?_, rfl, ?_⟩
  · rw [List.singleton_append, marks_cons (not_plain hplain).2.2.2.2.2, step_plain hs hplain]
    rfl
  · intro m hm hmark
    obtain rfl := List.mem_singleton.1 hm
    rw [keeps, Bool.and_eq_true] at hmark
    exact ⟨hmark.1, hc⟩

lemma arrow : Passes q ['-', '>'] := by
  intro s hs rest
  refine ⟨[('-', false), ('>', false)], ?_, rfl, by simp⟩
  have hstep := stepArrow_outside hs
  rw [List.cons_append, List.cons_append, List.nil_append, marks, hstep]
  rfl

lemma literal (hx : staysInside .inside x = true) : Passes q ('"' :: (x ++ ['"'])) := by
  intro s hs rest
  obtain ⟨ms, hms, htext, hfalse⟩ :=
    @marks_literal { s with quote := .inside, behindName := false } x rfl hx rest
  refine ⟨('"', false) :: ms, ?_, by simp [htext], ?_⟩
  · have hkeeps : s.keeps '"' = false := by simp [keeps]
    have hend : endsInName s.behindName ('"' :: (x ++ ['"'])) = false :=
      (endsInName_concat s.behindName ('"' :: x) '"').trans (by decide)
    rw [List.cons_append, List.append_assoc, List.singleton_append, marks_cons (by decide), hkeeps,
      step_quote hs, hms, hend, hs]
    rfl
  · intro m hm hmark
    rcases List.mem_cons.1 hm with rfl | hm
    · cases hmark
    · rw [hfalse m hm] at hmark
      cases hmark

/-- Where something is open, nothing that the scan passes over is outermost. -/
lemma hidden (hx : Passes p x) {s : Nesting} (hs : s.quote = .outside) (hopen : s.isTop = false)
    (rest : Text) :
    ∃ ms, s.marks (x ++ rest) =
        ms ++ Nesting.marks { s with behindName := endsInName s.behindName x } rest ∧
      ms.map (·.1) = x ∧ ∀ m ∈ ms, m.2 = false := by
  obtain ⟨ms, hms, htext, hmark⟩ := hx s hs rest
  refine ⟨ms, hms, htext, fun m hm => ?_⟩
  by_contra htop
  have := (hmark m hm (by simpa using htop)).1
  rw [hopen] at this
  cases this

lemma group {b : Bracket} (hb : b ≠ .angle) (hx : Passes p x) :
    Passes q (b.opening :: (x ++ [b.closing])) := by
  intro s hs rest
  have hopen : isTop { s with brackets := s.brackets + 1, behindName := false } = false :=
    isTop_eq_false (Or.inr (Or.inl (Nat.succ_ne_zero _)))
  obtain ⟨ms, hms, htext, hfalse⟩ := hx.hidden
    (s := { s with brackets := s.brackets + 1, behindName := false }) hs hopen (b.closing :: rest)
  refine ⟨(b.opening, false) :: (ms ++ [(b.closing, false)]), ?_, by simp [htext], ?_⟩
  · have hend : endsInName s.behindName (b.opening :: (x ++ [b.closing])) = false :=
      (endsInName_concat s.behindName (b.opening :: x) b.closing).trans (by cases b <;> decide)
    rw [List.cons_append, List.append_assoc, List.singleton_append, marks_cons (by cases b <;> decide),
      keeps_opening s hb, step_opening hs hb, hms, marks_cons (by cases b <;> decide),
      keeps_of_not_top (by exact hopen), step_closing (by exact hs) hb, hend]
    simp
  · intro m hm hmark
    rw [List.mem_cons, List.mem_append, List.mem_singleton] at hm
    rcases hm with rfl | hm | rfl
    · cases hmark
    · rw [hfalse m hm] at hmark
      cases hmark
    · cases hmark

/-- The list opens because a name stands in front of it. -/
lemma angle (hx : Passes q x) (hname : x.getLast?.any isNameChar = true) (hy : Passes p y) :
    Passes q (x ++ '<' :: (y ++ ['>'])) := by
  intro s hs rest
  have hopen : isTop { s with angles := s.angles + 1, behindName := false } = false :=
    isTop_eq_false (Or.inr (Or.inr (Nat.succ_ne_zero _)))
  obtain ⟨ms, hms, htext, hmark⟩ := hx s hs ('<' :: (y ++ '>' :: rest))
  obtain ⟨ns, hns, htext', hfalse⟩ := hy.hidden
    (s := { s with angles := s.angles + 1, behindName := false }) hs hopen ('>' :: rest)
  rw [endsInName_of_any hname] at hms
  refine ⟨ms ++ (('<', false) :: (ns ++ [('>', false)])), ?_, by simp [htext, htext'], ?_⟩
  · have hend : endsInName s.behindName (x ++ '<' :: (y ++ ['>'])) = false := by
      rw [endsInName_append]
      exact (endsInName_concat _ ('<' :: y) '>').trans (by decide)
    have hless : keeps { s with behindName := true } '<' = false := by
      simp [keeps]
    rw [List.append_assoc, List.cons_append, List.append_assoc, List.singleton_append, hms,
      marks_cons (by decide), hless, step_less (by exact hs) rfl, hns, marks_cons (by decide),
      keeps_of_not_top (by exact hopen), step_greater (by exact hs), hend]
    simp
  · intro m hm hm'
    rw [List.mem_append, List.mem_cons, List.mem_append, List.mem_singleton] at hm
    rcases hm with hm | rfl | hm | rfl
    · exact hmark m hm hm'
    · cases hm'
    · rw [hfalse m hm] at hm'
      cases hm'
    · cases hm'

lemma append (hx : Passes q x) (hy : Passes q y) : Passes q (x ++ y) := by
  intro s hs rest
  obtain ⟨ms, hms, htext, hmark⟩ := hx s hs (y ++ rest)
  obtain ⟨ns, hns, htext', hmark'⟩ :=
    hy { s with behindName := endsInName s.behindName x } hs rest
  refine ⟨ms ++ ns, ?_, by rw [List.map_append, htext, htext'], ?_⟩
  · rw [List.append_assoc, hms, hns, List.append_assoc, endsInName_append]
  · intro m hm
    rcases List.mem_append.1 hm with hm | hm
    · exact hmark m hm
    · exact hmark' m hm

end Nesting.Passes

/-- A scan for outermost characters passes over a balanced text. -/
theorem Balanced.passes {q : Char → Prop} {x : Text} (h : Balanced q x) : Nesting.Passes q x := by
  induction h with
  | nil => exact fun _ _ _ => ⟨[], rfl, rfl, by simp⟩
  | plain hplain hc => exact .plain hplain hc
  | arrow => exact .arrow
  | literal hx => exact .literal hx
  | group hb _ ih => exact .group hb ih
  | angle _ hname _ ihx ihy => exact .angle ihx hname ihy
  | append _ _ ihx ihy => exact .append ihx ihy

/-! ### Closing brackets -/

namespace Bracket

/-- What a scan finds behind the text `x`, with `x` in front of the group. -/
def behindText (x : Text) (found : Option (Text × Text)) : Option (Text × Text) :=
  found.map fun group => (x ++ group.1, group.2)

lemma behindText_nil (found : Option (Text × Text)) : behindText [] found = found := by
  cases found <;> rfl

lemma behindText_append (x y : Text) (found : Option (Text × Text)) :
    behindText (x ++ y) found = behindText x (behindText y found) := by
  cases found with
  | none => rfl
  | some group => simp [behindText]

variable {b : Bracket} {inner : Nat} {dash : Bool}

lemma untilClosed_cons (quote : Quote) (c : Char) (cs : Text) :
    b.untilClosed inner quote dash (c :: cs) =
      if quote.isInside then behindText [c] (b.untilClosed inner (quote.step c) dash cs)
      else if c = '"' then behindText [c] (b.untilClosed inner .inside false cs)
      else if c = b.opening then behindText [c] (b.untilClosed (inner + 1) .outside false cs)
      else if c = b.closing ∧ ¬(c = '>' ∧ dash) then
        match inner with
        | 0 => some ([], cs)
        | inner + 1 => behindText [c] (b.untilClosed inner .outside false cs)
      else behindText [c] (b.untilClosed inner .outside (c == '-') cs) := by
  rw [untilClosed.eq_def]
  rfl

/-- A character that is neither a quote nor a bracket of the kind that is looked for. -/
lemma untilClosed_other {c : Char} (hquote : c ≠ '"') (hopening : c ≠ b.opening)
    (hclosing : c ≠ b.closing ∨ c = '>' ∧ dash = true) (cs : Text) :
    b.untilClosed inner .outside dash (c :: cs) =
      behindText [c] (b.untilClosed inner .outside (c == '-') cs) := by
  have hclose : ¬(c = b.closing ∧ ¬(c = '>' ∧ dash = true)) := by
    rintro ⟨h, h'⟩
    rcases hclosing with hne | harrow
    · exact hne h
    · exact h' harrow
  rw [untilClosed_cons, if_neg (by decide), if_neg hquote, if_neg hopening, if_neg hclose]

lemma untilClosed_opening (cs : Text) :
    b.untilClosed inner .outside dash (b.opening :: cs) =
      behindText [b.opening] (b.untilClosed (inner + 1) .outside false cs) := by
  rw [untilClosed_cons, if_neg (by decide), if_neg (by cases b <;> decide), if_pos rfl]

lemma untilClosed_closing (cs : Text) :
    b.untilClosed inner .outside false (b.closing :: cs) =
      match inner with
      | 0 => some ([], cs)
      | inner + 1 => behindText [b.closing] (b.untilClosed inner .outside false cs) := by
  rw [untilClosed_cons, if_neg (by decide), if_neg (by cases b <;> decide),
    if_neg (by cases b <;> decide), if_pos ⟨rfl, by simp⟩]

lemma untilClosed_literal {quote : Quote} {x : Text} (hquote : quote.isInside = true)
    (hx : staysInside quote x = true) (rest : Text) :
    b.untilClosed inner quote dash (x ++ '"' :: rest) =
      behindText (x ++ ['"']) (b.untilClosed inner .outside dash rest) := by
  induction x generalizing quote with
  | nil =>
    obtain rfl : quote = .inside := by simpa [staysInside] using hx
    rw [List.nil_append, untilClosed_cons, if_pos rfl]
    rfl
  | cons c x ih =>
    rw [staysInside, Bool.and_eq_true] at hx
    rw [List.cons_append, untilClosed_cons, if_pos hquote, ih hx.1 hx.2, ← behindText_append]
    rfl

/-- Only the closing bracket of an argument list can be the end of an arrow. -/
lemma untilClosed_closing_of {b : Bracket} {dash : Bool} (h : b = .angle → dash = false)
    (inner : Nat) (cs : Text) :
    b.untilClosed inner .outside dash (b.closing :: cs) =
      b.untilClosed inner .outside false (b.closing :: cs) := by
  cases dash with
  | false => rfl
  | true =>
    have hclosing : b.closing ≠ '>' := by
      cases b with
      | angle => cases h rfl
      | round => decide
      | square => decide
      | curly => decide
    rw [untilClosed_cons, untilClosed_cons]
    simp [hclosing, Quote.isInside]

/-- Reading a bracket that opens a group of any kind: from the state inside the group, the closing bracket
leads back, unless it is the end of an arrow. -/
lemma untilClosed_bracket (b k : Bracket) (inner : Nat) (dash : Bool) :
    ∃ inner', (∀ cs, b.untilClosed inner .outside dash (k.opening :: cs) =
        behindText [k.opening] (b.untilClosed inner' .outside false cs)) ∧
      ∀ dash', (k = .angle → dash' = false) → ∀ cs,
        b.untilClosed inner' .outside dash' (k.closing :: cs) =
          behindText [k.closing] (b.untilClosed inner .outside false cs) := by
  by_cases hb : k = b
  · subst hb
    refine ⟨inner + 1, untilClosed_opening, fun dash' hdash cs => ?_⟩
    rw [untilClosed_closing_of hdash, untilClosed_closing]
  · -- the brackets of another kind are like any other characters
    have hopening : k.opening ≠ '"' ∧ k.opening ≠ b.opening ∧ k.opening ≠ b.closing ∧
        (k.opening == '-') = false := by
      cases b <;> cases k <;> first | exact absurd rfl hb | decide
    have hclosing : k.closing ≠ '"' ∧ k.closing ≠ b.opening ∧ k.closing ≠ b.closing ∧
        (k.closing == '-') = false := by
      cases b <;> cases k <;> first | exact absurd rfl hb | decide
    refine ⟨inner, fun cs => ?_, fun dash' _ cs => ?_⟩
    · rw [untilClosed_other hopening.1 hopening.2.1 (Or.inl hopening.2.2.1), hopening.2.2.2]
    · rw [untilClosed_other hclosing.1 hclosing.2.1 (Or.inl hclosing.2.2.1), hclosing.2.2.2]

/-- A group of any kind is passed over if what it encloses is. -/
lemma untilClosed_group {k : Bracket} {x : Text}
    (hx : ∀ inner rest, b.untilClosed inner .outside false (x ++ rest) =
      behindText x (b.untilClosed inner .outside false rest)) (inner : Nat) (rest : Text) :
    b.untilClosed inner .outside false (k.opening :: (x ++ [k.closing]) ++ rest) =
      behindText (k.opening :: (x ++ [k.closing])) (b.untilClosed inner .outside false rest) := by
  obtain ⟨inner', hopening, hclosing⟩ := b.untilClosed_bracket k inner false
  rw [List.cons_append, List.append_assoc, List.singleton_append, hopening, hx,
    hclosing false (fun _ => rfl), ← behindText_append, ← behindText_append]
  rfl

end Bracket

/-- Behind a balanced text the search for a closing bracket goes on as in front of it. -/
theorem Balanced.untilClosed_append {q : Char → Prop} {x : Text} (h : Balanced q x) (b : Bracket)
    (inner : Nat) (rest : Text) :
    b.untilClosed inner .outside false (x ++ rest) =
      Bracket.behindText x (b.untilClosed inner .outside false rest) := by
  induction h generalizing inner rest with
  | nil => exact (Bracket.behindText_nil _).symm
  | @plain q c hplain hc =>
    obtain ⟨hquote, hopening, hclosing, hless, hgreater, hdash⟩ := not_plain hplain
    have hother : c ≠ b.opening ∧ c ≠ b.closing := by
      constructor
      · rintro rfl
        cases b <;> simp_all [isOpening, Bracket.opening]
      · rintro rfl
        cases b <;> simp_all [isClosing, Bracket.closing]
    rw [List.singleton_append, Bracket.untilClosed_other hquote hother.1 (Or.inl hother.2),
      beq_false_of_ne hdash]
  | arrow =>
    rw [List.cons_append, List.cons_append, List.nil_append,
      Bracket.untilClosed_other (by decide) (by cases b <;> decide) (Or.inl (by cases b <;> decide)),
      beq_self_eq_true,
      Bracket.untilClosed_other (by decide) (by cases b <;> decide) (Or.inr ⟨rfl, rfl⟩),
      ← Bracket.behindText_append]
    rfl
  | @literal q x hx =>
    rw [List.cons_append, List.append_assoc, List.singleton_append, Bracket.untilClosed_cons,
      if_neg (by decide), if_pos rfl, Bracket.untilClosed_literal rfl hx, ← Bracket.behindText_append]
    rfl
  | @group q k x hb hx ih =>
    exact Bracket.untilClosed_group ih inner rest
  | @angle q x y hx hname hy ihx ihy =>
    rw [List.append_assoc, ihx, Bracket.behindText_append]
    exact congrArg (Bracket.behindText x) (Bracket.untilClosed_group (k := .angle) ihy inner rest)
  | @append q x y hx hy ihx ihy =>
    rw [List.append_assoc, ihx, ihy, Bracket.behindText_append]

/-- A group is closed by its own bracket. -/
lemma Balanced.group?_eq {q : Char → Prop} {x : Text} (h : Balanced q x) (b : Bracket) (rest : Text) :
    group? (b.opening :: (x ++ b.closing :: rest)) = some (x, rest) := by
  have hkind : Bracket.ofOpening? b.opening = some b := by cases b <;> rfl
  simp only [group?, hkind]
  rw [h.untilClosed_append, Bracket.untilClosed_closing]
  simp [Bracket.behindText]

lemma Balanced.group?_round {q : Char → Prop} {x : Text} (h : Balanced q x) (rest : Text) :
    group? ('(' :: (x ++ ')' :: rest)) = some (x, rest) :=
  h.group?_eq .round rest

/-! ### Pieces -/

lemma not_marked {m : Char × Bool} {c : Char} (h : m.2 = true → m.1 ≠ c) :
    (m.2 && m.1 == c) = false := by
  rw [Bool.and_eq_false_imp]
  intro hm
  exact beq_false_of_ne (h hm)

/-- Marks without the separator stay in one segment. -/
lemma segments_append {sep : Char} {ms : List (Char × Bool)} (hms : ∀ m ∈ ms, m.2 = true → m.1 ≠ sep)
    {ns : List (Char × Bool)} {s : Text} {ss : List Text} (hns : segments sep ns = s :: ss) :
    segments sep (ms ++ ns) = (ms.map (·.1) ++ s) :: ss := by
  induction ms with
  | nil => exact hns
  | cons m ms ih =>
    have hrest := ih fun n hn => hms n (List.mem_cons_of_mem m hn)
    rw [List.cons_append, segments, not_marked (hms m (by simp)), hrest]
    rfl

/-- Balanced texts come apart where they were joined. -/
lemma segments_join {sep : Char} (hsep : isPlain sep = true) {s : Nesting} (hs : s.isTop = true)
    {x : Text} {xs : List Text} (h : ∀ y ∈ x :: xs, Balanced (· ≠ sep) y) :
    segments sep (s.marks (Text.join [sep] (x :: xs))) = x :: xs := by
  have hquote : s.quote = .outside := by
    cases hq : s.quote with
    | outside => rfl
    | inside => simp [Nesting.isTop, hq, Quote.isInside] at hs
    | escaped => simp [Nesting.isTop, hq, Quote.isInside] at hs
  induction xs generalizing x s with
  | nil =>
    obtain ⟨ms, hms, htext, hmark⟩ := (h x (by simp)).passes s hquote []
    rw [List.append_nil] at hms
    rw [Text.join_singleton, hms, segments_append (fun m hm hm' => (hmark m hm hm').2) rfl, htext]
    simp
  | cons y xs ih =>
    obtain ⟨ms, hms, htext, hmark⟩ :=
      (h x (by simp)).passes s hquote (sep :: Text.join [sep] (y :: xs))
    have hrest := @ih { s with behindName := isNameChar sep } hs y
      (fun z hz => h z (List.mem_cons_of_mem x hz)) hquote
    have hfirst : segments sep (Nesting.marks { s with behindName := endsInName s.behindName x }
        (sep :: Text.join [sep] (y :: xs))) = [] :: y :: xs := by
      rw [Nesting.marks_cons (not_plain hsep).2.2.2.2.2, Nesting.keeps_plain (by exact hs) hsep,
        Nesting.step_plain (by exact hquote) hsep, segments]
      simp [hrest]
    have hjoin : Text.join [sep] (x :: y :: xs) = x ++ sep :: Text.join [sep] (y :: xs) := by
      rw [Text.join_cons_cons, List.append_assoc]
      rfl
    rw [hjoin, hms, segments_append (fun m hm hm' => (hmark m hm hm').2) hfirst, htext,
      List.append_nil]

lemma join_comma (x : Text) (xs : List Text) :
    Text.join ", ".toList (x :: xs) = Text.join [','] (x :: xs.map ([' '] ++ ·)) := by
  induction xs generalizing x with
  | nil => rfl
  | cons y xs ih =>
    rw [Text.join_cons_cons, ih, List.map_cons, Text.join_cons_cons, List.append_assoc,
      List.append_assoc]
    cases xs <;> rfl

/-- A list of balanced texts comes apart where it was joined. -/
theorem pieces_join {xs : List Text}
    (h : ∀ x ∈ xs, Balanced (· ≠ ',') x ∧ x.trim = x ∧ x ≠ []) :
    pieces ',' (Text.join ", ".toList xs) = xs := by
  cases xs with
  | nil => rfl
  | cons x xs =>
    obtain ⟨hx, htrim, hne⟩ := h x (by simp)
    have hblank : (Text.join ", ".toList (x :: xs)).blank = false := by
      obtain ⟨c, u, rfl⟩ := List.exists_cons_of_ne_nil hne
      have hc := Text.head?_of_trimmed htrim c rfl
      cases xs <;> simp [Text.join, Text.blank, hc]
    have hspace : ∀ y ∈ xs, Text.trim ([' '] ++ y) = y := by
      intro y hy
      rw [Text.trim_space_append, (h y (List.mem_cons_of_mem x hy)).2.1]
    have hsegments : segments ',' (outermost (Text.join [','] (x :: xs.map ([' '] ++ ·)))) =
        x :: xs.map ([' '] ++ ·) := by
      refine segments_join (by decide) rfl ?_
      intro y hy
      rcases List.mem_cons.1 hy with rfl | hy
      · exact hx
      · obtain ⟨z, hz, rfl⟩ := List.mem_map.1 hy
        exact .append (.plain (by decide) (by decide)) (h z (List.mem_cons_of_mem x hz)).1
    rw [pieces, hblank, join_comma, hsegments, List.map_cons, htrim, List.map_map]
    simp only [Bool.false_eq_true, if_false, List.cons.injEq, true_and]
    exact (List.map_congr_left hspace).trans (List.map_id xs)

/-! ### Searching behind a separator -/

lemma map_fst_marks (s : Nesting) (t : Text) : (s.marks t).map (·.1) = t := by
  fun_induction Nesting.marks s t with
  | case1 => rfl
  | case2 s cs ih => simp [ih]
  | case3 s c cs h ih => simp [ih]

lemma behind?_append {c : Char} {ms : List (Char × Bool)} (hms : ∀ m ∈ ms, m.2 = true → m.1 ≠ c)
    (ns : List (Char × Bool)) : behind? c (ms ++ ns) = behind? c ns := by
  induction ms with
  | nil => rfl
  | cons m ms ih =>
    rw [List.cons_append, behind?, not_marked (hms m (by simp))]
    exact ih fun n hn => hms n (List.mem_cons_of_mem m hn)

/-- A balanced text hides a character that is not in its class. -/
lemma Balanced.behind?_eq_none {c : Char} {x : Text} (h : Balanced (· ≠ c) x) :
    behind? c (outermost x) = none := by
  obtain ⟨ms, hms, -, hmark⟩ := h.passes {} rfl []
  rw [List.append_nil] at hms
  rw [outermost, hms, behind?_append fun m hm hm' => (hmark m hm hm').2]
  rfl

/-- Behind a balanced text, a character that is not in its class is found. -/
lemma Balanced.behind?_eq_some {c : Char} {x : Text} (h : Balanced (· ≠ c) x)
    (hc : isPlain c = true) (rest : Text) : behind? c (outermost (x ++ c :: rest)) = some rest := by
  obtain ⟨ms, hms, -, hmark⟩ := h.passes {} rfl (c :: rest)
  rw [outermost, hms, behind?_append fun m hm hm' => (hmark m hm hm').2,
    Nesting.marks_cons (not_plain hc).2.2.2.2.2, Nesting.keeps_plain rfl hc, behind?, map_fst_marks]
  simp

end AsyncPeer.Spelling
