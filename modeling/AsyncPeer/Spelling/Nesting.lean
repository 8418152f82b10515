/-
# The outermost characters of a spelling

A separator counts only where it is not nested: outside round, square and curly brackets, outside
generic argument lists, and outside string literals.  `outermost` marks each character of a text
with whether it stands there; positions, pieces and searches are all read off these marks.

Brackets are counted, not matched: an opening bracket of any of the three kinds is closed by a
closing bracket of any kind, and a closing bracket too many is passed over.  A `<` opens an argument
list only directly behind a name, so that `a < b` does not.  The two characters of an arrow `->` are
never outermost, and its `>` closes nothing.

Brackets and separators inside a string literal mean nothing, so every scan keeps track of where it
stands with respect to the double quotes.
-/
import AsyncPeer.Text.Slice

namespace AsyncPeer.Spelling

/-! ### String literals -/

/-- Where a scan stands with respect to string literals. -/
inductive Quote where
  /-- Between literals. -/
  | outside
  /-- Inside a literal. -/
  | inside
  /-- Inside a literal, directly behind a backslash. -/
  | escaped
deriving DecidableEq, Repr

namespace Quote

/-- The scan stands inside a literal. -/
def isInside : Quote → Bool
  | outside => false
  | inside => true
  | escaped => true

/-- Reading one character.  A backslash takes away the meaning of the character behind it. -/
def step : Quote → Char → Quote
  | outside, c => if c = '"' then inside else outside
  | inside, c => if c = '\\' then escaped else if c = '"' then outside else inside
  | escaped, _ => inside

end Quote

/-- A character that can end a name or the spelling of a type: letters, numerals, the underscore,
the two marks of optional types, and the dot of a member. -/
def isNameChar (c : Char) : Bool :=
  Text.isWordChar c || c == '?' || c == '!' || c == '.'

/-! ### Outermost characters -/

/-- The state of a scan for outermost characters. -/
structure Nesting where
  /-- The number of open round, square and curly brackets. -/
  brackets : Nat := 0
  /-- The number of open generic argument lists. -/
  angles : Nat := 0
  /-- The position with respect to string literals. -/
  quote : Quote := .outside
  /-- The scan stands directly behind a name. -/
  behindName : Bool := false
deriving DecidableEq, Repr

/-- One of the opening brackets that are counted together. -/
def isOpening (c : Char) : Bool :=
  c == '(' || c == '[' || c == '{'

/-- One of the closing brackets that are counted together. -/
def isClosing (c : Char) : Bool :=
  c == ')' || c == ']' || c == '}'

namespace Nesting

/-- Nothing is open. -/
def isTop (s : Nesting) : Bool :=
  !s.quote.isInside && s.brackets == 0 && s.angles == 0

/-- The character is outermost when it is read in this state. -/
def keeps (s : Nesting) (c : Char) : Bool :=
  s.isTop && !(c == '"' || isOpening c || isClosing c || (c == '<' && s.behindName))

/-- Reading one character that is not the beginning of an arrow. -/
def step (s : Nesting) (c : Char) : Nesting :=
  let s' := { s with quote := s.quote.step c, behindName := isNameChar c }
  if s.quote.isInside then s'
  else if isOpening c then { s' with brackets := s.brackets + 1 }
  else if isClosing c then { s' with brackets := s.brackets - 1 }
  else if c = '<' ∧ s.behindName then { s' with angles := s.angles + 1 }
  else if c = '>' then { s' with angles := s.angles - 1 }
  else s'

/-- Reading an arrow outside string literals. -/
def stepArrow (s : Nesting) : Nesting :=
  if s.quote.isInside then (s.step '-').step '>' else { s with behindName := false }

/-- Each character of a text with whether it is outermost. -/
def marks (s : Nesting) : Text → List (Char × Bool)
  | [] => []
  | '-' :: '>' :: cs => ('-', false) :: ('>', false) :: marks s.stepArrow cs
  | c :: cs => (c, s.keeps c) :: marks (s.step c) cs

end Nesting

/-- Each character of a text with whether it is outermost. -/
def outermost (t : Text) : List (Char × Bool) :=
  Nesting.marks {} t

/-- The marked characters with their byte offsets, counted from `start`. -/
def positionsFrom (start : Nat) : List (Char × Bool) → List (Nat × Char)
  | [] => []
  | (c, true) :: ms => (start, c) :: positionsFrom (start + c.utf8Size) ms
  | (c, false) :: ms => positionsFrom (start + c.utf8Size) ms

/-- The outermost characters of a text with their byte offsets, from left to right. -/
def positions (t : Text) : List (Nat × Char) :=
  positionsFrom 0 (outermost t)

/-- The byte offset of the first outermost occurrence of a character. -/
def position? (c : Char) (t : Text) : Option Nat :=
  ((positions t).find? fun p => p.2 == c).map (·.1)

/-- The segments of a marked text between the marked occurrences of `sep`. -/
def segments (sep : Char) : List (Char × Bool) → List Text
  | [] => [[]]
  | (c, marked) :: ms =>
    if marked && c == sep then [] :: segments sep ms
    else
      match segments sep ms with
      | [] => [[c]]
      | s :: rest => (c :: s) :: rest

/-- The trimmed pieces of a text between the outermost occurrences of `sep`.  A text without
characters other than blanks has no pieces. -/
def pieces (sep : Char) (t : Text) : List Text :=
  if t.blank then [] else (segments sep (outermost t)).map Text.trim

/-- What follows the first marked occurrence of a character. -/
def behind? (c : Char) : List (Char × Bool) → Option Text
  | [] => none
  | (d, marked) :: ms => if marked && d == c then some (ms.map (·.1)) else behind? c ms

end AsyncPeer.Spelling
