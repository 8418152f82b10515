/-
# TOML tokens

The lexical grammar of TOML 1.1: punctuation, blanks, line ends, the four kinds of strings, and words,
which are runs of all other characters.  What a word means depends on its place: it is a key, or a
part of a number, a truth value or a date.  Comments are passed over.
-/
import AsyncPeer.Number

namespace AsyncPeer.Toml

/-- The tokens of TOML. -/
inductive Token where
  /-- A run of spaces and tabs, by its length. -/
  | blank (width : Nat)
  /-- The end of a line. -/
  | newline
  | equals
  | dot
  | comma
  | squareOpen
  | squareClose
  | curlyOpen
  | curlyClose
  /-- A string; only one that is written on one line can be a key. -/
  | string (text : Text) (oneLine : Bool)
  /-- A run of other characters. -/
  | word (text : Text)
deriving DecidableEq, Repr

/-- The blanks inside a line. -/
def isSpace (c : Char) : Bool :=
  c == ' ' || c == '\t'

/-- A character that may stand in a comment or a string: a tab, or anything that is not a control
character. -/
def isPlain (c : Char) : Bool :=
  c == '\t' || (0x20 ≤ c.toNat && c.toNat != 0x7F)

/-- A character that ends a word. -/
def endsWord (c : Char) : Bool :=
  isSpace c || ".=,[]\x7b\x7d#\r\n".toList.contains c

/-! ### Escapes -/

/-- The character whose code point is written with the given number of hexadecimal digits. -/
def readCode? (count : Nat) (t : Text) : Option (Char × Text) :=
  if (t.take count).length = count then
    match Number.read? 16 (t.take count) with
    | some n => if n.isValidChar then some (Char.ofNat n, t.drop count) else none
    | none => none
  else none

/-- The character that an escape stands for, read from behind its backslash. -/
def readEscape? : Text → Option (Char × Text)
  | 'b' :: cs => some ('\x08', cs)
  | 't' :: cs => some ('\t', cs)
  | 'n' :: cs => some ('\n', cs)
  | 'f' :: cs => some ('\x0c', cs)
  | 'r' :: cs => some ('\r', cs)
  | 'e' :: cs => some ('\x1b', cs)
  | '"' :: cs => some ('"', cs)
  | '\\' :: cs => some ('\\', cs)
  | 'x' :: cs => readCode? 2 cs
  | 'u' :: cs => readCode? 4 cs
  | 'U' :: cs => readCode? 8 cs
  | _ => none

theorem length_of_readCode? {count : Nat} {t rest : Text} {c : Char}
    (h : readCode? count t = some (c, rest)) : rest.length ≤ t.length := by
  unfold readCode? at h
  split at h
  · split at h
    · split at h
      · simp only [Option.some.injEq, Prod.mk.injEq] at h
        obtain ⟨-, rfl⟩ := h
        simp
      · simp at h
    · simp at h
  · simp at h

theorem length_of_readEscape? {t rest : Text} {c : Char} (h : readEscape? t = some (c, rest)) :
    rest.length < t.length := by
  unfold readEscape? at h
  split at h
  case h_9 | h_10 | h_11 =>
    have := length_of_readCode? h
    simp only [List.length_cons]
    omega
  case h_12 => simp at h
  all_goals
    simp only [Option.some.injEq, Prod.mk.injEq] at h
    obtain ⟨-, rfl⟩ := h
    simp

/-! ### Strings -/

/-- What follows a line end. -/
def afterNewline? : Text → Option Text
  | '\n' :: cs => some cs
  | '\r' :: '\n' :: cs => some cs
  | _ => none

/-- The text without the spaces, tabs and line ends at its beginning. -/
def skipLayout : Text → Text
  | [] => []
  | c :: cs =>
    if isSpace c || c == '\n' || (c == '\r' && cs.head? == some '\n') then skipLayout cs
    else c :: cs

/-- What follows an escaped line end, read from behind the backslash: the rest of the line, which is
blank, and all blanks and line ends after it. -/
def afterEscapedNewline? (t : Text) : Option Text :=
  (afterNewline? (t.dropWhile isSpace)).map skipLayout

theorem length_of_afterNewline? {t rest : Text} (h : afterNewline? t = some rest) :
    rest.length < t.length := by
  unfold afterNewline? at h
  split at h
  · simp only [Option.some.injEq] at h
    subst h
    simp
  · simp only [Option.some.injEq] at h
    subst h
    simp only [List.length_cons]
    omega
  · simp at h

theorem length_skipLayout_le (t : Text) : (skipLayout t).length ≤ t.length := by
  fun_induction skipLayout t with
  | case1 => simp
  | case2 c cs _ ih => exact Nat.le_succ_of_le ih
  | case3 => simp

theorem length_of_afterEscapedNewline? {t rest : Text} (h : afterEscapedNewline? t = some rest) :
    rest.length < t.length := by
  obtain ⟨r, hr, rfl⟩ := Option.map_eq_some_iff.1 h
  have h1 := length_of_afterNewline? hr
  have h2 := Text.length_dropWhile_le isSpace t
  have h3 := length_skipLayout_le r
  omega

/-- A string in double quotes on one line, read from behind its opening quote. -/
def readBasic? : Text → Option (Text × Text)
  | [] => none
  | c :: cs =>
    if c = '"' then some ([], cs)
    else if c = '\\' then
      match _h : readEscape? cs with
      | some (d, rest) => (readBasic? rest).map fun (t, rest) => (d :: t, rest)
      | none => none
    else if isPlain c then (readBasic? cs).map fun (t, rest) => (c :: t, rest)
    else none
termination_by t => t.length
decreasing_by
  · have := length_of_readEscape? _h
    simp only [List.length_cons]
    omega
  · simp

/-- A string in single quotes on one line, read from behind its opening quote. -/
def readLiteral? : Text → Option (Text × Text)
  | [] => none
  | c :: cs =>
    if c = '\'' then some ([], cs)
    else if isPlain c then (readLiteral? cs).map fun (t, rest) => (c :: t, rest)
    else none

/-- The end of a string in three quotes: of up to five quotes in a row the last three close it. -/
def closeThree? (q : Char) : Text → Option (Text × Text)
  | a :: b :: c :: rest =>
    if a = q ∧ b = q ∧ c = q then
      match rest with
      | d :: e :: rest' =>
        if d = q ∧ e = q then some ([q, q], rest')
        else if d = q then some ([q], e :: rest')
        else some ([], rest)
      | [d] => if d = q then some ([q], []) else some ([], rest)
      | [] => some ([], [])
    else none
  | _ => none

/-- A string in three double quotes, read from behind the opening quotes and the line end that may
follow them. -/
def readLongBasic? (t : Text) : Option (Text × Text) :=
  match closeThree? '"' t with
  | some closed => some closed
  | none =>
    match t with
    | [] => none
    | c :: cs =>
      if c = '\\' then
        match _h : afterEscapedNewline? cs with
        | some rest => readLongBasic? rest
        | none =>
          match _h : readEscape? cs with
          | some (d, rest) => (readLongBasic? rest).map fun (t, rest) => (d :: t, rest)
          | none => none
      else if isPlain c || c == '\n' || (c == '\r' && cs.head? == some '\n') then
        (readLongBasic? cs).map fun (t, rest) => (c :: t, rest)
      else none
termination_by t.length
decreasing_by
  · have := length_of_afterEscapedNewline? _h
    simp only [List.length_cons]
    omega
  · have := length_of_readEscape? _h
    simp only [List.length_cons]
    omega
  · simp

/-- A string in three single quotes, read from behind the opening quotes and the line end that may
follow them. -/
def readLongLiteral? (t : Text) : Option (Text × Text) :=
  match closeThree? '\'' t with
  | some closed => some closed
  | none =>
    match t with
    | [] => none
    | c :: cs =>
      if isPlain c || c == '\n' || (c == '\r' && cs.head? == some '\n') then
        (readLongLiteral? cs).map fun (t, rest) => (c :: t, rest)
      else none

/-- The string at the beginning of a text, and the rest. -/
def readString? : Text → Option (Token × Text)
  | '"' :: '"' :: '"' :: cs =>
    (readLongBasic? ((afterNewline? cs).getD cs)).map fun (t, rest) => (.string t false, rest)
  | '"' :: cs => (readBasic? cs).map fun (t, rest) => (.string t true, rest)
  | '\'' :: '\'' :: '\'' :: cs =>
    (readLongLiteral? ((afterNewline? cs).getD cs)).map fun (t, rest) => (.string t false, rest)
  | '\'' :: cs => (readLiteral? cs).map fun (t, rest) => (.string t true, rest)
  | _ => none

theorem length_of_readBasic? {t text rest : Text} (h : readBasic? t = some (text, rest)) :
    rest.length < t.length := by
  fun_induction readBasic? t generalizing text with
  | case1 => simp at h
  | case2 cs =>
    simp only [Option.some.injEq, Prod.mk.injEq] at h
    obtain ⟨-, rfl⟩ := h
    simp
  | case3 cs d r hr _ ih =>
    obtain ⟨⟨t', r'⟩, hr', heq⟩ := Option.map_eq_some_iff.1 h
    simp only [Prod.mk.injEq] at heq
    obtain ⟨-, rfl⟩ := heq
    have h1 := ih hr'
    have h2 := length_of_readEscape? hr
    simp only [List.length_cons]
    omega
  | case4 => simp at h
  | case5 c cs _ _ _ ih =>
    obtain ⟨⟨t', r'⟩, hr', heq⟩ := Option.map_eq_some_iff.1 h
    simp only [Prod.mk.injEq] at heq
    obtain ⟨-, rfl⟩ := heq
    have h1 := ih hr'
    simp only [List.length_cons]
    omega
  | case6 => simp at h

theorem length_of_readLiteral? {t text rest : Text} (h : readLiteral? t = some (text, rest)) :
    rest.length < t.length := by
  fun_induction readLiteral? t generalizing text with
  | case1 => simp at h
  | case2 cs =>
    simp only [Option.some.injEq, Prod.mk.injEq] at h
    obtain ⟨-, rfl⟩ := h
    simp
  | case3 c cs _ _ ih =>
    obtain ⟨⟨t', r'⟩, hr', heq⟩ := Option.map_eq_some_iff.1 h
    simp only [Prod.mk.injEq] at heq
    obtain ⟨-, rfl⟩ := heq
    have h1 := ih hr'
    simp only [List.length_cons]
    omega
  | case4 => simp at h

theorem length_of_closeThree? {q : Char} {t text rest : Text}
    (h : closeThree? q t = some (text, rest)) : rest.length < t.length := by
  unfold closeThree? at h
  split at h
  · split at h
    · split at h
      · split at h
        · simp only [Option.some.injEq, Prod.mk.injEq] at h
          obtain ⟨-, rfl⟩ := h
          simp only [List.length_cons]
          omega
        · split at h
          · simp only [Option.some.injEq, Prod.mk.injEq] at h
            obtain ⟨-, rfl⟩ := h
            simp only [List.length_cons]
            omega
          · simp only [Option.some.injEq, Prod.mk.injEq] at h
            obtain ⟨-, rfl⟩ := h
            simp only [List.length_cons]
            omega
      · split at h <;>
        · simp only [Option.some.injEq, Prod.mk.injEq] at h
          obtain ⟨-, rfl⟩ := h
          simp
      · simp only [Option.some.injEq, Prod.mk.injEq] at h
        obtain ⟨-, rfl⟩ := h
        simp
    · simp at h
  · simp at h

theorem length_of_readLongBasic? {t text rest : Text} (h : readLongBasic? t = some (text, rest)) :
    rest.length < t.length := by
  fun_induction readLongBasic? t generalizing text with
  | case1 t closed hc =>
    simp only [Option.some.injEq] at h
    subst h
    exact length_of_closeThree? hc
  | case2 => simp at h
  | case3 cs r hr _ ih =>
    have h1 := ih h
    have h2 := length_of_afterEscapedNewline? hr
    simp only [List.length_cons]
    omega
  | case4 cs _ d r hr _ ih =>
    obtain ⟨⟨t', r'⟩, hr', heq⟩ := Option.map_eq_some_iff.1 h
    simp only [Prod.mk.injEq] at heq
    obtain ⟨-, rfl⟩ := heq
    have h1 := ih hr'
    have h2 := length_of_readEscape? hr
    simp only [List.length_cons]
    omega
  | case5 => simp at h
  | case6 c cs _ _ _ ih =>
    obtain ⟨⟨t', r'⟩, hr', heq⟩ := Option.map_eq_some_iff.1 h
    simp only [Prod.mk.injEq] at heq
    obtain ⟨-, rfl⟩ := heq
    have h1 := ih hr'
    simp only [List.length_cons]
    omega
  | case7 => simp at h

theorem length_of_readLongLiteral? {t text rest : Text}
    (h : readLongLiteral? t = some (text, rest)) : rest.length < t.length := by
  fun_induction readLongLiteral? t generalizing text with
  | case1 t closed hc =>
    simp only [Option.some.injEq] at h
    subst h
    exact length_of_closeThree? hc
  | case2 => simp at h
  | case3 c cs _ _ ih =>
    obtain ⟨⟨t', r'⟩, hr', heq⟩ := Option.map_eq_some_iff.1 h
    simp only [Prod.mk.injEq] at heq
    obtain ⟨-, rfl⟩ := heq
    have h1 := ih hr'
    simp only [List.length_cons]
    omega
  | case4 => simp at h

theorem length_afterNewline?_getD_le (t : Text) :
    List.length ((afterNewline? t).getD t) ≤ t.length := by
  cases h : afterNewline? t with
  | none => simp
  | some r => exact Nat.le_of_lt (length_of_afterNewline? h)

/-- Reading a string makes the text shorter. -/
theorem length_of_readString? {t rest : Text} {token : Token}
    (h : readString? t = some (token, rest)) : rest.length < t.length := by
  unfold readString? at h
  split at h
  · next cs =>
    obtain ⟨⟨t', r'⟩, hr', heq⟩ := Option.map_eq_some_iff.1 h
    simp only [Prod.mk.injEq] at heq
    obtain ⟨-, rfl⟩ := heq
    have h1 := length_of_readLongBasic? hr'
    have h2 := length_afterNewline?_getD_le cs
    simp only [List.length_cons]
    omega
  · obtain ⟨⟨t', r'⟩, hr', heq⟩ := Option.map_eq_some_iff.1 h
    simp only [Prod.mk.injEq] at heq
    obtain ⟨-, rfl⟩ := heq
    have h1 := length_of_readBasic? hr'
    simp only [List.length_cons]
    omega
  · next cs =>
    obtain ⟨⟨t', r'⟩, hr', heq⟩ := Option.map_eq_some_iff.1 h
    simp only [Prod.mk.injEq] at heq
    obtain ⟨-, rfl⟩ := heq
    have h1 := length_of_readLongLiteral? hr'
    have h2 := length_afterNewline?_getD_le cs
    simp only [List.length_cons]
    omega
  · obtain ⟨⟨t', r'⟩, hr', heq⟩ := Option.map_eq_some_iff.1 h
    simp only [Prod.mk.injEq] at heq
    obtain ⟨-, rfl⟩ := heq
    have h1 := length_of_readLiteral? hr'
    simp only [List.length_cons]
    omega
  · simp at h

/-! ### Token lists -/

/-- The punctuation that a character is. -/
def punctuation? : Char → Option Token
  | '=' => some .equals
  | '.' => some .dot
  | ',' => some .comma
  | '[' => some .squareOpen
  | ']' => some .squareClose
  | '{' => some .curlyOpen
  | '}' => some .curlyClose
  | '\n' => some .newline
  | _ => none

/-- The tokens of a text. -/
def tokens? : Text → Option (List Token)
  | [] => some []
  | c :: cs =>
    if isSpace c then
      (tokens? (cs.dropWhile isSpace)).map (.blank ((cs.takeWhile isSpace).length + 1) :: ·)
    else if c = '\r' then
      match cs with
      | '\n' :: rest => (tokens? rest).map (.newline :: ·)
      | _ => none
    else if c = '#' then
      -- a comment reaches to the end of its line
      let rest := cs.dropWhile isPlain
      if rest.head?.all fun d => d == '\n' || d == '\r' then tokens? rest else none
    else
      match punctuation? c with
      | some token => (tokens? cs).map (token :: ·)
      | none =>
        if c = '"' ∨ c = '\'' then
          match _h : readString? (c :: cs) with
          | some (token, rest) => (tokens? rest).map (token :: ·)
          | none => none
        else
          (tokens? (cs.dropWhile (!endsWord ·))).map
            (.word (c :: cs.takeWhile (!endsWord ·)) :: ·)
termination_by t => t.length
decreasing_by
  · have := Text.length_dropWhile_le isSpace cs
    simp only [List.length_cons]
    omega
  · simp only [List.length_cons]
    omega
  · have := Text.length_dropWhile_le isPlain cs
    simp only [List.length_cons]
    omega
  · simp
  · exact length_of_readString? _h
  · have := Text.length_dropWhile_le (!endsWord ·) cs
    simp only [List.length_cons]
    omega

end AsyncPeer.Toml
