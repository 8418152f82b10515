/-
# JSON tokens

The lexical grammar of JSON: punctuation, words, numbers and strings, with blanks between them.
-/
import AsyncPeer.Json.Numeral

namespace AsyncPeer.Json

/-- The tokens of JSON. -/
inductive Token where
  | arrayOpen
  | arrayClose
  | objectOpen
  | objectClose
  | colon
  | comma
  | null
  | bool (b : Bool)
  | number (lexeme : Text)
  | string (text : Text)
deriving DecidableEq, Repr

/-- The four blanks of JSON. -/
def isSpace (c : Char) : Bool :=
  c == ' ' || c == '\t' || c == '\n' || c == '\r'

/-- A character that occurs in numbers. -/
def isNumberChar (c : Char) : Bool :=
  c.isDigit || c == '-' || c == '+' || c == '.' || c == 'e' || c == 'E'

/-- The number written by four hexadecimal digits, and the rest. -/
def readHex? : Text → Option (Nat × Text)
  | a :: b :: c :: d :: rest => (Number.read? 16 [a, b, c, d]).map (·, rest)
  | _ => none

/-- The second unit of a surrogate pair, written as an escape. -/
def readLowSurrogate? : Text → Option (Nat × Text)
  | '\\' :: 'u' :: cs => (readHex? cs).filter fun (n, _) => 0xDC00 ≤ n && n ≤ 0xDFFF
  | _ => none

/-- The character that an escape stands for, read from behind its backslash.  A unit of a surrogate
pair stands for a character only together with the other one. -/
def readEscape? : Text → Option (Char × Text)
  | '"' :: cs => some ('"', cs)
  | '\\' :: cs => some ('\\', cs)
  | '/' :: cs => some ('/', cs)
  | 'b' :: cs => some ('\x08', cs)
  | 'f' :: cs => some ('\x0c', cs)
  | 'n' :: cs => some ('\n', cs)
  | 'r' :: cs => some ('\r', cs)
  | 't' :: cs => some ('\t', cs)
  | 'u' :: cs =>
    match readHex? cs with
    | some (n, rest) =>
      if 0xD800 ≤ n && n ≤ 0xDBFF then
        (readLowSurrogate? rest).map fun (m, rest) =>
          (Char.ofNat (0x10000 + (n - 0xD800) * 0x400 + (m - 0xDC00)), rest)
      else if 0xDC00 ≤ n && n ≤ 0xDFFF then none
      else some (Char.ofNat n, rest)
    | none => none
  | _ => none

theorem length_of_readHex? {t rest : Text} {n : Nat} (h : readHex? t = some (n, rest)) :
    rest.length < t.length := by
  unfold readHex? at h
  split at h
  · obtain ⟨m, -, hm⟩ := Option.map_eq_some_iff.1 h
    simp only [Prod.mk.injEq] at hm
    obtain ⟨-, rfl⟩ := hm
    simp only [List.length_cons]
    omega
  · simp at h

theorem length_of_readLowSurrogate? {t rest : Text} {n : Nat}
    (h : readLowSurrogate? t = some (n, rest)) : rest.length < t.length := by
  unfold readLowSurrogate? at h
  split at h
  · have := length_of_readHex? (Option.filter_eq_some_iff.1 h).1
    simp only [List.length_cons]
    omega
  · simp at h

theorem length_of_readEscape? {t rest : Text} {c : Char} (h : readEscape? t = some (c, rest)) :
    rest.length < t.length := by
  unfold readEscape? at h
  split at h
  case h_9 cs =>
    split at h
    · next n r hr =>
      have h1 := length_of_readHex? hr
      split at h
      · obtain ⟨⟨m, r'⟩, hm, heq⟩ := Option.map_eq_some_iff.1 h
        simp only [Prod.mk.injEq] at heq
        obtain ⟨-, rfl⟩ := heq
        have h2 := length_of_readLowSurrogate? hm
        simp only [List.length_cons]
        omega
      · split at h
        · simp at h
        · simp only [Option.some.injEq, Prod.mk.injEq] at h
          obtain ⟨-, rfl⟩ := h
          simp only [List.length_cons]
          omega
    · simp at h
  case h_10 => simp at h
  all_goals
    simp only [Option.some.injEq, Prod.mk.injEq] at h
    obtain ⟨-, rfl⟩ := h
    simp

/-- The text of a string, read from behind its opening quote, and what follows the closing one.
Control characters have to be escaped. -/
def readString? : Text → Option (Text × Text)
  | [] => none
  | c :: cs =>
    if c = '"' then some ([], cs)
    else if c = '\\' then
      match _h : readEscape? cs with
      | some (d, rest) => (readString? rest).map fun (t, rest) => (d :: t, rest)
      | none => none
    else if c.toNat < 0x20 then none
    else (readString? cs).map fun (t, rest) => (c :: t, rest)
termination_by t => t.length
decreasing_by
  · have := length_of_readEscape? _h
    simp only [List.length_cons]
    omega
  · simp

theorem length_of_readString? {t text rest : Text} (h : readString? t = some (text, rest)) :
    rest.length < t.length := by
  fun_induction readString? t generalizing text with
  | case1 => simp at h
  | case2 cs =>
    simp only [Option.some.injEq, Prod.mk.injEq] at h
    obtain ⟨-, rfl⟩ := h
    simp
  | case3 cs d r hr _ ih =>
    obtain ⟨⟨t', r'⟩, hr', heq⟩ := Option.map_eq_some_iff.1 h
    simp only [Prod.mk.injEq] at heq
    obtain ⟨-, rfl⟩ := heq
    have h1 := ih hr'
    have h2 := length_of_readEscape? hr
    simp only [List.length_cons]
    omega
  | case4 => simp at h
  | case5 => simp at h
  | case6 c cs _ _ _ ih =>
    obtain ⟨⟨t', r'⟩, hr', heq⟩ := Option.map_eq_some_iff.1 h
    simp only [Prod.mk.injEq] at heq
    obtain ⟨-, rfl⟩ := heq
    have h1 := ih hr'
    simp only [List.length_cons]
    omega

/-- The word or the number at the beginning of a text, and the rest. -/
def readAtom? (t : Text) : Option (Token × Text) :=
  if let some rest := t.after? "null".toList then some (.null, rest)
  else if let some rest := t.after? "true".toList then some (.bool true, rest)
  else if let some rest := t.after? "false".toList then some (.bool false, rest)
  else
    let lexeme := t.takeWhile isNumberChar
    match Numeral.read? lexeme with
    | some n => if n.inRange then some (.number lexeme, t.dropWhile isNumberChar) else none
    | none => none

/-- The token at the beginning of a text, and the rest. -/
def readToken? : Text → Option (Token × Text)
  | [] => none
  | '[' :: cs => some (.arrayOpen, cs)
  | ']' :: cs => some (.arrayClose, cs)
  | '{' :: cs => some (.objectOpen, cs)
  | '}' :: cs => some (.objectClose, cs)
  | ':' :: cs => some (.colon, cs)
  | ',' :: cs => some (.comma, cs)
  | '"' :: cs => (readString? cs).map fun (t, rest) => (.string t, rest)
  | c :: cs => readAtom? (c :: cs)

theorem length_of_after? {t lead rest : Text} (hl : lead ≠ []) (h : t.after? lead = some rest) :
    rest.length < t.length := by
  have ht := congrArg List.length (Text.eq_append_of_after? h)
  have hpos := List.length_pos_iff.2 hl
  rw [List.length_append] at ht
  omega

theorem length_of_readAtom? {c : Char} {cs rest : Text} {token : Token}
    (h : readAtom? (c :: cs) = some (token, rest)) : rest.length < (c :: cs).length := by
  unfold readAtom? at h
  split at h
  · next r hr =>
    simp only [Option.some.injEq, Prod.mk.injEq] at h
    obtain ⟨-, rfl⟩ := h
    exact length_of_after? (by decide) hr
  · split at h
    · next r hr =>
      simp only [Option.some.injEq, Prod.mk.injEq] at h
      obtain ⟨-, rfl⟩ := h
      exact length_of_after? (by decide) hr
    · split at h
      · next r hr =>
        simp only [Option.some.injEq, Prod.mk.injEq] at h
        obtain ⟨-, rfl⟩ := h
        exact length_of_after? (by decide) hr
      · dsimp only at h
        split at h
        · next n hn =>
          split at h
          · simp only [Option.some.injEq, Prod.mk.injEq] at h
            obtain ⟨-, rfl⟩ := h
            by_cases hc : isNumberChar c
            · rw [List.dropWhile_cons_of_pos hc]
              have := Text.length_dropWhile_le isNumberChar cs
              simp only [List.length_cons]
              omega
            · rw [List.takeWhile_cons_of_neg (by simpa using hc)] at hn
              simp [Numeral.read?, Numeral.readDigits?] at hn
          · simp at h
        · simp at h

/-- Reading a token makes the text shorter. -/
theorem length_of_readToken? {t rest : Text} {token : Token}
    (h : readToken? t = some (token, rest)) : rest.length < t.length := by
  unfold readToken? at h
  split at h
  case h_1 => simp at h
  case h_8 cs =>
    obtain ⟨⟨t', r'⟩, hr', heq⟩ := Option.map_eq_some_iff.1 h
    simp only [Prod.mk.injEq] at heq
    obtain ⟨-, rfl⟩ := heq
    have := length_of_readString? hr'
    simp only [List.length_cons]
    omega
  case h_9 => exact length_of_readAtom? h
  all_goals
    simp only [Option.some.injEq, Prod.mk.injEq] at h
    obtain ⟨-, rfl⟩ := h
    simp

/-- The tokens of a text. -/
def tokens? (t : Text) : Option (List Token) :=
  match t with
  | [] => some []
  | c :: cs =>
    if isSpace c then tokens? cs
    else
      match _h : readToken? (c :: cs) with
      | some (token, rest) => (tokens? rest).map (token :: ·)
      | none => none
termination_by t.length
decreasing_by
  · simp
  · exact length_of_readToken? _h

end AsyncPeer.Json
