/-
# Blocks of a body

A body is a flat list of lines.  This file reads it as code in blocks.  A line that ends in an
opening brace, or in an opening brace with the parameter of a closure behind it, opens a block; a
line with nothing but a closing brace closes one; and a `case` line begins an arm of the choice
around it.  Only the texts of the lines decide.  The depths, which a line carries beside its text,
are compared with the tree afterwards, by `Code.PlacedAt`.

`Code.read?` goes from the last line to the first, so that what stands behind a line is already a
tree.  It has no answer if a block is left open or closed twice, or if a label has no choice around
it.  The main statement is `Code.read?_lines`: the lines of a tree are read back as that tree.

At the end stand the blocks of a tree and the paths through it.
-/
import AsyncPeer.Body
import AsyncPeer.Proofs.Qualifiers
import AsyncPeer.Settings

namespace AsyncPeer

namespace Text

/-! ### Ends of a text -/

/-- What stands in front of the end `tail`, if the text ends so. -/
def before? (t tail : Text) : Option Text :=
  (after? t.reverse tail.reverse).map List.reverse

/-- The characters of the class `p` at the end of the text. -/
def takeEndWhile (p : Char → Bool) (t : Text) : Text :=
  (t.reverse.takeWhile p).reverse

@[simp] lemma before?_append (t tail : Text) : before? (t ++ tail) tail = some t := by
  simp [before?]

lemma eq_append_of_before? {t tail u : Text} (h : t.before? tail = some u) : t = u ++ tail := by
  obtain ⟨v, hv, rfl⟩ := Option.map_eq_some_iff.1 h
  have := congrArg List.reverse (eq_append_of_after? hv)
  simpa using this

/-- A text with another last character does not end so. -/
lemma before?_eq_none {t : Text} (tail : Text) {c d : Char} (hcd : c ≠ d) :
    before? (t ++ [c]) (tail ++ [d]) = none := by
  by_contra h
  obtain ⟨u, hu⟩ := Option.ne_none_iff_exists'.1 h
  have hlast := congrArg List.getLast? (eq_append_of_before? hu)
  rw [← List.append_assoc, List.getLast?_concat, List.getLast?_concat] at hlast
  exact hcd (Option.some.inj hlast)

lemma takeEndWhile_append {p : Char → Bool} {t w : Text} (ht : ∀ c ∈ t.getLast?, p c = false)
    (hw : ∀ c ∈ w, p c = true) : takeEndWhile p (t ++ w) = w := by
  rw [takeEndWhile, List.reverse_append,
    List.takeWhile_append_of_pos fun c hc => hw c (List.mem_reverse.1 hc)]
  have hnil : t.reverse.takeWhile p = [] := by
    cases h : t.reverse with
    | nil => rfl
    | cons c u =>
      have hc : t.getLast? = some c := by
        rw [← List.head?_reverse, h]
        rfl
      exact List.takeWhile_cons_of_neg (by simp [ht c hc])
  rw [hnil, List.append_nil, List.reverse_reverse]

end Text

lemma isWordChar_of_isIdentifier {t : Text} (h : isIdentifier t = true) :
    ∀ c ∈ t, Text.isWordChar c = true := by
  cases t with
  | nil => cases h
  | cons d t =>
    rw [isIdentifier, Bool.and_eq_true] at h
    intro c hc
    rcases List.mem_cons.1 hc with rfl | hc
    · rcases Bool.or_eq_true_iff.1 h.1 with hletter | hunderscore
      · simp [Text.isWordChar, Text.isLetterOrNumeral, hletter]
      · simp [Text.isWordChar, hunderscore]
    · exact List.all_eq_true.1 h.2 c hc

lemma ne_nil_of_isIdentifier {t : Text} (h : isIdentifier t = true) : t ≠ [] := by
  rintro rfl
  cases h

namespace Line

/-! ### What a line does -/

/-- What a line does to the blocks around it. -/
inductive Role where
  /-- It closes a block. -/
  | closing
  /-- It opens the block of a choice by the value `subject`. -/
  | choice (subject : Text)
  /-- It opens any other block, which is a closure if there is a parameter. -/
  | opening (head : Text) (parameter : Option Text)
  /-- It begins an arm of the choice around it. -/
  | label (pattern : Text)
  /-- It does none of these. -/
  | plain
deriving DecidableEq, Repr

/-- The text in front of the brace and the parameter of a closure that the text opens. -/
def closure? (t : Text) : Option (Text × Text) :=
  (t.before? " in".toList).bind fun u =>
    let parameter := u.takeEndWhile Text.isWordChar
    ((u.dropEndWhile Text.isWordChar).before? " \x7b ".toList).bind fun head =>
      if isIdentifier parameter then some (head, parameter) else none

/-- The pattern of a label. -/
def pattern? (t : Text) : Option Text :=
  (t.after? "case ".toList).bind fun u => u.before? [':']

/-- What a line with the given text does. -/
def roleOf (t : Text) : Role :=
  if t = ['\x7d'] then .closing
  else
    match closure? t with
    | some (head, parameter) => .opening head (some parameter)
    | none =>
      match t.before? ['\x7b'] with
      | some head =>
        match head.trimEnd.after? "switch ".toList with
        | some subject => .choice subject
        | none => .opening head.trimEnd none
      | none =>
        match pattern? t with
        | some pattern => .label pattern
        | none => .plain

/-- What the line does. -/
def role (l : Line) : Role :=
  roleOf l.text

lemma closure?_append (head : Text) {x : Text} (hx : isIdentifier x = true) :
    closure? (head ++ Body.closure x) = some (head, x) := by
  have hsplit : head ++ Body.closure x = head ++ " \x7b ".toList ++ x ++ " in".toList := by
    simp [Body.closure]
  have hword := isWordChar_of_isIdentifier hx
  have hlast : ∀ c ∈ (head ++ " \x7b ".toList).getLast?, Text.isWordChar c = false := by
    intro c hc
    rw [List.getLast?_append_of_ne_nil _ (by decide)] at hc
    obtain rfl : ' ' = c := by simpa using hc
    decide
  rw [closure?, hsplit, Text.before?_append, Option.bind_some,
    Text.takeEndWhile_append hlast hword,
    Text.dropEndWhile_append_of_all (List.all_eq_true.2 hword), Text.dropEndWhile_eq_self hlast,
    Text.before?_append, Option.bind_some, if_pos hx]

lemma closure?_eq_none {t : Text} {c : Char} (hc : c ≠ 'n') : closure? (t ++ [c]) = none := by
  have h : Text.before? (t ++ [c]) " in".toList = none :=
    Text.before?_eq_none " i".toList hc
  rw [closure?, h, Option.bind_none]

/-- A line with a closure at its end opens it. -/
lemma roleOf_closure (head : Text) {x : Text} (hx : isIdentifier x = true) :
    roleOf (head ++ Body.closure x) = .opening head (some x) := by
  have hne : head ++ Body.closure x ≠ ['\x7d'] := by
    intro h
    have hlast := congrArg List.getLast? h
    rw [Body.closure, List.getLast?_append_of_ne_nil _ (by simp),
      List.getLast?_append_of_ne_nil _ (by decide)] at hlast
    exact absurd hlast (by decide)
  rw [roleOf, if_neg hne, closure?_append head hx]

/-- A line that switches on a name opens a choice. -/
lemma roleOf_switch {x : Text} (hx : isIdentifier x = true) :
    roleOf ("switch ".toList ++ x ++ " \x7b".toList) = .choice x := by
  have hsplit : "switch ".toList ++ x ++ " \x7b".toList =
      "switch ".toList ++ x ++ [' '] ++ ['\x7b'] := by
    simp
  have hne : "switch ".toList ++ x ++ [' '] ++ ['\x7b'] ≠ ['\x7d'] := by
    intro h
    have hlast := congrArg List.getLast? h
    rw [List.getLast?_concat] at hlast
    exact absurd hlast (by decide)
  have hlast : ∀ c ∈ ("switch ".toList ++ x).getLast?, Text.isBlank c = false := by
    intro c hc
    rw [List.getLast?_append_of_ne_nil _ (ne_nil_of_isIdentifier hx)] at hc
    exact Text.isBlank_of_isWordChar (isWordChar_of_isIdentifier hx c (List.mem_of_getLast? hc))
  have htrim : Text.trimEnd ("switch ".toList ++ x ++ [' ']) = "switch ".toList ++ x := by
    rw [Text.trimEnd, Text.dropEndWhile_append_of_all (by decide), Text.dropEndWhile_eq_self hlast]
  simp only [roleOf, hsplit, if_neg hne, closure?_eq_none (by decide : '\x7b' ≠ 'n'),
    Text.before?_append, htrim, Text.after?_append]

/-- A line that ends in a closing parenthesis neither opens nor closes anything. -/
lemma roleOf_of_parenthesis (t : Text) : roleOf (t ++ [')']) = .plain := by
  have hne : t ++ [')'] ≠ ['\x7d'] := by
    intro h
    have hlast := congrArg List.getLast? h
    rw [List.getLast?_concat] at hlast
    exact absurd hlast (by decide)
  have hbrace : Text.before? (t ++ [')']) ['\x7b'] = none :=
    Text.before?_eq_none [] (by decide)
  have hpattern : pattern? (t ++ [')']) = none := by
    by_contra h
    obtain ⟨u, hu⟩ := Option.ne_none_iff_exists'.1 h
    obtain ⟨v, hv, hu⟩ := Option.bind_eq_some_iff.1 hu
    have heq := (Text.eq_append_of_after? hv).trans (congrArg _ (Text.eq_append_of_before? hu))
    have hlast := congrArg List.getLast? heq
    rw [← List.append_assoc, List.getLast?_concat, List.getLast?_concat] at hlast
    exact absurd hlast (by decide)
  simp only [roleOf, if_neg hne, closure?_eq_none (by decide : ')' ≠ 'n'), hbrace, hpattern]

end Line

/-! ### Code in blocks -/

mutual

/-- Lines and blocks that follow each other. -/
inductive Code where
  | done
  /-- A line of its own. -/
  | line (l : Line) (rest : Code)
  /-- A block with its opening and its closing line. -/
  | block (opening : Line) (inner : Code) (closing : Line) (rest : Code)
  /-- A choice with its opening and its closing line. -/
  | choice (opening : Line) (arms : Arms) (closing : Line) (rest : Code)

/-- The arms of a choice. -/
inductive Arms where
  | none
  /-- An arm with its label. -/
  | arm (label : Line) (inner : Code) (rest : Arms)

end

mutual

/-- The lines in order. -/
def Code.lines : Code → List Line
  | .done => []
  | .line l rest => l :: rest.lines
  | .block opening inner closing rest => opening :: (inner.lines ++ closing :: rest.lines)
  | .choice opening arms closing rest => opening :: (arms.lines ++ closing :: rest.lines)

/-- The lines in order. -/
def Arms.lines : Arms → List Line
  | .none => []
  | .arm label inner rest => label :: (inner.lines ++ rest.lines)

end

mutual

/-- Each line does what its place in the tree asks for. -/
def Code.Fits : Code → Prop
  | .done => True
  | .line l rest => l.role = .plain ∧ rest.Fits
  | .block opening inner closing rest =>
    (∃ head parameter, opening.role = .opening head parameter) ∧ inner.Fits ∧
      closing.role = .closing ∧ rest.Fits
  | .choice opening arms closing rest =>
    (∃ subject, opening.role = .choice subject) ∧ arms.Fits ∧ closing.role = .closing ∧ rest.Fits

/-- Each line does what its place in the tree asks for. -/
def Arms.Fits : Arms → Prop
  | .none => True
  | .arm label inner rest => (∃ pattern, label.role = .label pattern) ∧ inner.Fits ∧ rest.Fits

end

mutual

/-- The depth of each line is the number of blocks around it, beyond `n`.  Closing lines and labels
stand at the depth of the line that opened their block. -/
def Code.PlacedAt (n : Nat) : Code → Prop
  | .done => True
  | .line l rest => l.depth = n ∧ rest.PlacedAt n
  | .block opening inner closing rest =>
    opening.depth = n ∧ inner.PlacedAt (n + 1) ∧ closing.depth = n ∧ rest.PlacedAt n
  | .choice opening arms closing rest =>
    opening.depth = n ∧ arms.PlacedAt n ∧ closing.depth = n ∧ rest.PlacedAt n

/-- The labels stand at the depth `n`, and the arms are one level deeper. -/
def Arms.PlacedAt (n : Nat) : Arms → Prop
  | .none => True
  | .arm label inner rest => label.depth = n ∧ inner.PlacedAt (n + 1) ∧ rest.PlacedAt n

end

/-! ### Reading -/

/-- What is known when the lines behind some point have been read. -/
structure Reading where
  /-- The code up to the next label or the end of the innermost block. -/
  inner : Code
  /-- The arms behind it in the innermost block. -/
  arms : Arms
  /-- The blocks that are closed behind this point and opened before it, the innermost first: the
  closing line, and the code and the arms that follow it. -/
  pending : List (Line × Code × Arms)

/-- One more line in front. -/
def Reading.push (r : Reading) (l : Line) : Option Reading :=
  match l.role with
  | .closing => some ⟨.done, .none, (l, r.inner, r.arms) :: r.pending⟩
  | .choice _ =>
    match r with
    | ⟨.done, arms, (closing, rest, outer) :: pending⟩ =>
      some ⟨.choice l arms closing rest, outer, pending⟩
    | _ => none
  | .opening _ _ =>
    match r with
    | ⟨inner, .none, (closing, rest, outer) :: pending⟩ =>
      some ⟨.block l inner closing rest, outer, pending⟩
    | _ => none
  | .label _ => some ⟨.done, .arm l r.inner r.arms, r.pending⟩
  | .plain => some ⟨.line l r.inner, r.arms, r.pending⟩

/-- The lines read from the last to the first. -/
def Reading.ofLines : List Line → Option Reading
  | [] => some ⟨.done, .none, []⟩
  | l :: ls => (ofLines ls).bind fun r => r.push l

/-- The code in blocks that the lines are, if every block is opened and closed once. -/
def Code.read? (ls : List Line) : Option Code :=
  match Reading.ofLines ls with
  | some ⟨code, .none, []⟩ => some code
  | _ => none

namespace Reading

variable {l : Line} {rest : List Line} {inner code : Code} {arms outer : Arms}
  {pending : List (Line × Code × Arms)} {closing : Line}

lemma ofLines_plain (hl : l.role = .plain) (h : ofLines rest = some ⟨inner, arms, pending⟩) :
    ofLines (l :: rest) = some ⟨.line l inner, arms, pending⟩ := by
  simp only [ofLines, h, Option.bind_some, push, hl]

lemma ofLines_closing (hl : l.role = .closing) (h : ofLines rest = some ⟨inner, arms, pending⟩) :
    ofLines (l :: rest) = some ⟨.done, .none, (l, inner, arms) :: pending⟩ := by
  simp only [ofLines, h, Option.bind_some, push, hl]

lemma ofLines_opening (hl : ∃ head parameter, l.role = .opening head parameter)
    (h : ofLines rest = some ⟨inner, .none, (closing, code, outer) :: pending⟩) :
    ofLines (l :: rest) = some ⟨.block l inner closing code, outer, pending⟩ := by
  obtain ⟨head, parameter, hl⟩ := hl
  simp only [ofLines, h, Option.bind_some, push, hl]

lemma ofLines_choice (hl : ∃ subject, l.role = .choice subject)
    (h : ofLines rest = some ⟨.done, arms, (closing, code, outer) :: pending⟩) :
    ofLines (l :: rest) = some ⟨.choice l arms closing code, outer, pending⟩ := by
  obtain ⟨subject, hl⟩ := hl
  simp only [ofLines, h, Option.bind_some, push, hl]

lemma ofLines_label (hl : ∃ pattern, l.role = .label pattern)
    (h : ofLines rest = some ⟨inner, arms, pending⟩) :
    ofLines (l :: rest) = some ⟨.done, .arm l inner arms, pending⟩ := by
  obtain ⟨pattern, hl⟩ := hl
  simp only [ofLines, h, Option.bind_some, push, hl]

end Reading

-- The induction follows the tree, for any lines behind it: they have been read already, up to a point
-- where no code of the innermost block has been found yet.
mutual

theorem Code.ofLines_lines : ∀ {code : Code} {rest : List Line} {arms : Arms}
    {pending : List (Line × Code × Arms)}, code.Fits →
    Reading.ofLines rest = some ⟨.done, arms, pending⟩ →
    Reading.ofLines (code.lines ++ rest) = some ⟨code, arms, pending⟩
  | .done, _, _, _, _, h => h
  | .line _ _, _, _, _, hfits, h => by
    rw [Code.Fits] at hfits
    exact Reading.ofLines_plain hfits.1 (Code.ofLines_lines hfits.2 h)
  | .block _ _ _ _, _, _, _, hfits, h => by
    rw [Code.Fits] at hfits
    obtain ⟨hopening, hinner, hclosing, hrest⟩ := hfits
    rw [Code.lines, List.cons_append, List.append_assoc, List.cons_append]
    exact Reading.ofLines_opening hopening (Code.ofLines_lines hinner
      (Reading.ofLines_closing hclosing (Code.ofLines_lines hrest h)))
  | .choice _ _ _ _, _, _, _, hfits, h => by
    rw [Code.Fits] at hfits
    obtain ⟨hopening, harms, hclosing, hrest⟩ := hfits
    rw [Code.lines, List.cons_append, List.append_assoc, List.cons_append]
    exact Reading.ofLines_choice hopening (Arms.ofLines_lines harms
      (Reading.ofLines_closing hclosing (Code.ofLines_lines hrest h)))

theorem Arms.ofLines_lines : ∀ {arms : Arms} {rest : List Line}
    {pending : List (Line × Code × Arms)}, arms.Fits →
    Reading.ofLines rest = some ⟨.done, .none, pending⟩ →
    Reading.ofLines (arms.lines ++ rest) = some ⟨.done, arms, pending⟩
  | .none, _, _, _, h => h
  | .arm _ _ _, _, _, hfits, h => by
    rw [Arms.Fits] at hfits
    obtain ⟨hlabel, hinner, hrest⟩ := hfits
    rw [Arms.lines, List.cons_append, List.append_assoc]
    exact Reading.ofLines_label hlabel (Code.ofLines_lines hinner (Arms.ofLines_lines hrest h))

end

/-- The lines of a tree are read back as the tree. -/
theorem Code.read?_lines {code : Code} (h : code.Fits) : Code.read? code.lines = some code := by
  have hread := Code.ofLines_lines h (rfl : Reading.ofLines [] = some ⟨.done, .none, []⟩)
  rw [List.append_nil] at hread
  rw [Code.read?, hread]

-- a block that is left open, a block that is closed twice, and a label outside of any choice
example : (Code.read? [⟨0, "f \x7b".toList⟩]).isNone ∧ (Code.read? [⟨0, "\x7d".toList⟩]).isNone ∧
    (Code.read? [⟨0, "f \x7b x in".toList⟩, ⟨0, "case .a:".toList⟩, ⟨0, "\x7d".toList⟩]).isNone := by
  decide +kernel

/-! ### Blocks and paths -/

/-- A block, by its opening line and the code in it. -/
structure Block where
  opening : Line
  inner : Code

namespace Block

/-- What is written in front of the brace. -/
def head? (b : Block) : Option Text :=
  match b.opening.role with
  | .opening head _ => some head
  | _ => none

/-- The parameter, if the block is a closure. -/
def parameter? (b : Block) : Option Text :=
  match b.opening.role with
  | .opening _ parameter => parameter
  | _ => none

end Block

mutual

/-- The blocks at any depth, in the order of their opening lines. -/
def Code.blocks : Code → List Block
  | .done => []
  | .line _ rest => rest.blocks
  | .block opening inner _ rest => ⟨opening, inner⟩ :: (inner.blocks ++ rest.blocks)
  | .choice _ arms _ rest => arms.blocks ++ rest.blocks

/-- The blocks at any depth, in the order of their opening lines. -/
def Arms.blocks : Arms → List Block
  | .none => []
  | .arm _ inner rest => inner.blocks ++ rest.blocks

end

/-- The blocks that stand in the code itself, and not inside of another block or of an arm. -/
def Code.outerBlocks : Code → List Block
  | .done => []
  | .line _ rest => rest.outerBlocks
  | .block opening inner _ rest => ⟨opening, inner⟩ :: rest.outerBlocks
  | .choice _ _ _ rest => rest.outerBlocks

mutual

/-- The ways to go through the code, each with the lines that it comes by.  A block is gone through
once, and of a choice one arm is taken. -/
def Code.paths : Code → List (List Line)
  | .done => [[]]
  | .line l rest => rest.paths.map (l :: ·)
  | .block opening inner _ rest =>
    inner.paths.flatMap fun path => rest.paths.map (opening :: path ++ ·)
  | .choice opening arms _ rest =>
    arms.paths.flatMap fun path => rest.paths.map (opening :: path ++ ·)

/-- The ways to go through one of the arms. -/
def Arms.paths : Arms → List (List Line)
  | .none => []
  | .arm label inner rest => inner.paths.map (label :: ·) ++ rest.paths

end

end AsyncPeer
