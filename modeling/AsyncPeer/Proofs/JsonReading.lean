/-
# Reading written JSON

A value that is written comes back when it is read.  There is no other condition than that of the
reader itself: numbers are in range, and arrays and objects are not nested deeper than the limit
(`Fits`).  Texts are arbitrary; quotes, backslashes and control characters come back from their
escapes.

Both steps of the reader are followed along the tokens of a value (`Json.tokens`).  The scan of a
written value gives these tokens (`tokens?_renderAt`), with anything behind the value that does not go
on with a number; and the machine that reads them is left with the value (`run_tokens`), with anything
open around it.
-/
import Mathlib.Data.List.Basic
import AsyncPeer.Json.Basic
import AsyncPeer.Json.Parser

namespace AsyncPeer.Json

/-! ### Values and their tokens -/

/-- The text is that of a number in range. -/
structure IsNumber (lexeme : Text) : Prop where
  chars : ∀ c ∈ lexeme, isNumberChar c = true
  inRange : (Numeral.read? lexeme).any Numeral.inRange = true

/-- All numbers of the value are in range, and its arrays and objects are nested at most `n` deep. -/
inductive Fits : Nat → Json → Prop
  | null (n : Nat) : Fits n .null
  | bool (n : Nat) (b : Bool) : Fits n (.bool b)
  | number (n : Nat) {lexeme : Text} (h : IsNumber lexeme) : Fits n (.number lexeme)
  | string (n : Nat) (t : Text) : Fits n (.string t)
  | array {n : Nat} {items : List Json} (h : ∀ item ∈ items, Fits n item) : Fits (n + 1) (.array items)
  | object {n : Nat} {members : List (Text × Json)} (h : ∀ member ∈ members, Fits n member.2) :
    Fits (n + 1) (.object members)

mutual

/-- The tokens of a value. -/
def tokens : Json → List Token
  | .null => [.null]
  | .bool b => [.bool b]
  | .number lexeme => [.number lexeme]
  | .string t => [.string t]
  | .array [] => [.arrayOpen, .arrayClose]
  | .array (item :: items) => .arrayOpen :: tokens item ++ itemTokens items ++ [.arrayClose]
  | .object [] => [.objectOpen, .objectClose]
  | .object ((name, value) :: members) =>
    .objectOpen :: .string name :: .colon :: tokens value ++ memberTokens members ++ [.objectClose]

/-- The tokens of the items behind the first. -/
def itemTokens : List Json → List Token
  | [] => []
  | item :: items => .comma :: tokens item ++ itemTokens items

/-- The tokens of the members behind the first. -/
def memberTokens : List (Text × Json) → List Token
  | [] => []
  | (name, value) :: members =>
    .comma :: .string name :: .colon :: tokens value ++ memberTokens members

end

/-! ### Strings -/

lemma readString?_cons_plain {c : Char} (hquote : c ≠ '"') (hslash : c ≠ '\\')
    (hcontrol : ¬ c.toNat < 0x20) (rest : Text) :
    readString? (c :: rest) = (readString? rest).map fun (t, r) => (c :: t, r) := by
  rw [readString?, if_neg hquote, if_neg hslash, if_neg hcontrol]

lemma readString?_cons_escape {c : Char} {cs rest : Text} (h : readEscape? cs = some (c, rest)) :
    readString? ('\\' :: cs) = (readString? rest).map fun (t, r) => (c :: t, r) := by
  rw [readString?, if_neg (by decide), if_pos rfl]
  split
  · next d r hd =>
    obtain ⟨rfl, rfl⟩ : d = c ∧ r = rest := by simpa using hd.symm.trans h
    rfl
  · next hnone => exact absurd (hnone.symm.trans h) (by simp)

/-- A control character by its number. -/
lemma readEscape?_control {c : Char} (hc : c.toNat < 0x20) (rest : Text) :
    readEscape? ('u' :: '0' :: '0' :: Nat.digitChar (c.toNat / 16) :: Nat.digitChar (c.toNat % 16) ::
      rest) = some (c, rest) := by
  have hhex : ∀ n < 0x20, Number.read? 16
      ['0', '0', Nat.digitChar (n / 16), Nat.digitChar (n % 16)] = some n := by decide
  have hlow : ¬ (0xD800 ≤ c.toNat ∧ c.toNat ≤ 0xDBFF) := by omega
  have hhigh : ¬ (0xDC00 ≤ c.toNat ∧ c.toNat ≤ 0xDFFF) := by omega
  simp [readEscape?, readHex?, hhex c.toNat hc, hlow, hhigh, Char.ofNat_toNat]

/-- A character comes back from the way it is written inside a string. -/
lemma readString?_escape (c : Char) (rest : Text) :
    readString? (escape c ++ rest) = (readString? rest).map fun (t, r) => (c :: t, r) := by
  unfold escape
  split
  case h_8 hquote hslash _ _ _ _ _ =>
    split
    · next hcontrol => exact readString?_cons_escape (readEscape?_control hcontrol rest)
    · next hcontrol => exact readString?_cons_plain hquote hslash hcontrol rest
  all_goals exact readString?_cons_escape rfl

lemma readString?_flatMap_escape (t rest : Text) :
    readString? (t.flatMap escape ++ '"' :: rest) = some (t, rest) := by
  induction t with
  | nil => simp [readString?]
  | cons c cs ih => rw [List.flatMap_cons, List.append_assoc, readString?_escape, ih]; rfl

/-! ### The scan of a written value -/

/-- What follows does not go on with a number. -/
def EndsNumber (rest : Text) : Prop :=
  ∀ c ∈ rest.head?, isNumberChar c = false

lemma endsNumber_cons {c : Char} (h : isNumberChar c = false) (rest : Text) :
    EndsNumber (c :: rest) := by
  simpa [EndsNumber] using h

lemma tokens?_space {c : Char} (h : isSpace c = true) (cs : Text) :
    tokens? (c :: cs) = tokens? cs := by
  rw [tokens?, if_pos h]

lemma tokens?_token {c : Char} {cs rest : Text} {token : Token} (hc : isSpace c = false)
    (h : readToken? (c :: cs) = some (token, rest)) :
    tokens? (c :: cs) = (tokens? rest).map (token :: ·) := by
  rw [tokens?, if_neg (by simp [hc])]
  split
  · next t r ht =>
    obtain ⟨rfl, rfl⟩ : t = token ∧ r = rest := by simpa using ht.symm.trans h
    rfl
  · next hnone => exact absurd (hnone.symm.trans h) (by simp)

lemma tokens?_newline (level : Nat) (rest : Text) :
    tokens? (newline level ++ rest) = tokens? rest := by
  rw [newline, List.cons_append, tokens?_space (by decide)]
  generalize 2 * level = n
  induction n with
  | zero => rfl
  | succ n ih => rw [List.replicate_succ, List.cons_append, tokens?_space (by decide), ih]

lemma tokens?_quote (t rest : Text) :
    tokens? (quote t ++ rest) = (tokens? rest).map (.string t :: ·) := by
  have hread : readToken? ('"' :: (t.flatMap escape ++ '"' :: rest)) = some (.string t, rest) := by
    rw [readToken?, readString?_flatMap_escape]
    rfl
  rw [quote, List.cons_append, List.cons_append, List.append_assoc]
  exact tokens?_token (by decide) hread

/-- The name of a member with its colon. -/
lemma tokens?_name (name rest : Text) :
    tokens? (quote name ++ (": ".toList ++ rest)) =
      (tokens? rest).map fun ts => .string name :: .colon :: ts := by
  have hcolon : tokens? (": ".toList ++ rest) = (tokens? rest).map (.colon :: ·) := by
    rw [← tokens?_space (by decide : isSpace ' ' = true) rest]
    exact tokens?_token (by decide) rfl
  rw [tokens?_quote, hcolon, Option.map_map]
  rfl

/-- No character of a number has another meaning. -/
lemma readToken?_of_isNumberChar {c : Char} (h : isNumberChar c = true) (cs : Text) :
    readToken? (c :: cs) = readAtom? (c :: cs) := by
  unfold readToken?
  split
  case h_9 heq => rw [heq]
  all_goals simp_all [isNumberChar]

lemma isSpace_of_isNumberChar {c : Char} (h : isNumberChar c = true) : isSpace c = false := by
  cases hspace : isSpace c with
  | false => rfl
  | true =>
    simp only [isSpace, Bool.or_eq_true, beq_iff_eq] at hspace
    rcases hspace with ((rfl | rfl) | rfl) | rfl <;> exact absurd h (by decide)

/-- A number does not begin like a word. -/
lemma after?_of_isNumberChar {c d : Char} (hc : isNumberChar c = true) (hd : isNumberChar d = false)
    (cs lead : Text) : Text.after? (c :: cs) (d :: lead) = none := by
  have hne : c ≠ d := by
    rintro rfl
    simp [hc] at hd
  simp [Text.after?, hne]

lemma takeWhile_append_of_endsNumber {lexeme rest : Text} (h : ∀ c ∈ lexeme, isNumberChar c = true)
    (hrest : EndsNumber rest) : (lexeme ++ rest).takeWhile isNumberChar = lexeme := by
  rw [List.takeWhile_append_of_pos h]
  cases rest with
  | nil => simp
  | cons d rest => rw [List.takeWhile_cons_of_neg (by simp [hrest d rfl]), List.append_nil]

lemma readAtom?_number {lexeme rest : Text} (h : IsNumber lexeme) (hrest : EndsNumber rest) :
    readAtom? (lexeme ++ rest) = some (.number lexeme, rest) := by
  obtain ⟨n, hread, hrange⟩ := (Option.any_eq_true _ _).1 h.inRange
  have htake := takeWhile_append_of_endsNumber h.chars hrest
  have hdrop : (lexeme ++ rest).dropWhile isNumberChar = rest := by
    have hsplit := List.takeWhile_append_dropWhile (p := isNumberChar) (l := lexeme ++ rest)
    rw [htake] at hsplit
    exact List.append_cancel_left hsplit
  cases lexeme with
  | nil => simp [Numeral.read?, Numeral.readDigits?] at hread
  | cons c cs =>
    have hc := h.chars c List.mem_cons_self
    have hnull : Text.after? (c :: cs ++ rest) "null".toList = none :=
      after?_of_isNumberChar (d := 'n') hc (by decide) _ "ull".toList
    have htrue : Text.after? (c :: cs ++ rest) "true".toList = none :=
      after?_of_isNumberChar (d := 't') hc (by decide) _ "rue".toList
    have hfalse : Text.after? (c :: cs ++ rest) "false".toList = none :=
      after?_of_isNumberChar (d := 'f') hc (by decide) _ "alse".toList
    simp only [readAtom?, hnull, htrue, hfalse, htake, hdrop, hread, hrange, if_true]

lemma tokens?_number {lexeme rest : Text} (h : IsNumber lexeme) (hrest : EndsNumber rest) :
    tokens? (lexeme ++ rest) = (tokens? rest).map (.number lexeme :: ·) := by
  have hread := readAtom?_number h hrest
  cases lexeme with
  | nil => exact absurd h.inRange (by decide)
  | cons c cs =>
    have hc := h.chars c List.mem_cons_self
    rw [List.cons_append, ← readToken?_of_isNumberChar hc] at hread
    exact tokens?_token (isSpace_of_isNumberChar hc) hread

/-- Words are not mistaken for each other. -/
lemma tokens?_word (rest : Text) :
    tokens? ("null".toList ++ rest) = (tokens? rest).map (.null :: ·) ∧
      tokens? ("true".toList ++ rest) = (tokens? rest).map (.bool true :: ·) ∧
      tokens? ("false".toList ++ rest) = (tokens? rest).map (.bool false :: ·) := by
  refine ⟨?_, ?_, ?_⟩
  · change tokens? ('n' :: 'u' :: 'l' :: 'l' :: rest) = _
    exact tokens?_token (by decide) (by simp [readToken?, readAtom?, Text.after?])
  · change tokens? ('t' :: 'r' :: 'u' :: 'e' :: rest) = _
    exact tokens?_token (by decide) (by simp [readToken?, readAtom?, Text.after?])
  · change tokens? ('f' :: 'a' :: 'l' :: 's' :: 'e' :: rest) = _
    exact tokens?_token (by decide) (by simp [readToken?, readAtom?, Text.after?])

section Written

variable {level : Nat} {items : List Json} {members : List (Text × Json)} {rest : Text}

lemma endsNumber_renderItems (hrest : EndsNumber rest) :
    EndsNumber (renderItems level items ++ rest) := by
  cases items with
  | nil => exact hrest
  | cons item items =>
    rw [renderItems]
    exact endsNumber_cons (by decide) _

lemma endsNumber_renderMembers (hrest : EndsNumber rest) :
    EndsNumber (renderMembers level members ++ rest) := by
  cases members with
  | nil => exact hrest
  | cons member members =>
    rw [renderMembers]
    exact endsNumber_cons (by decide) _

/-- The text scans as the tokens, with anything behind it that does not go on with a number. -/
def ScansAs (t : Text) (ts : List Token) : Prop :=
  ∀ rest, EndsNumber rest → tokens? (t ++ rest) = (tokens? rest).map (ts ++ ·)

lemma tokens?_renderItems (hitems : ∀ item ∈ items, ScansAs (renderAt level item) item.tokens) :
    ScansAs (renderItems level items) (itemTokens items) := by
  induction items with
  | nil =>
    intro rest hrest
    simp [renderItems, itemTokens]
  | cons item items ih =>
    intro rest hrest
    obtain ⟨hitem, hitems⟩ := List.forall_mem_cons.1 hitems
    have hcomma : tokens? (renderItems level (item :: items) ++ rest) =
        (tokens? (newline level ++ (renderAt level item ++ (renderItems level items ++ rest)))).map
          (.comma :: ·) := by
      simp only [renderItems, List.cons_append, List.append_assoc]
      exact tokens?_token (by decide) rfl
    rw [hcomma, tokens?_newline, hitem _ (endsNumber_renderItems hrest), ih hitems rest hrest]
    simp only [Option.map_map, itemTokens, Function.comp_def, List.cons_append, List.append_assoc]

lemma tokens?_renderMembers
    (hmembers : ∀ member ∈ members, ScansAs (renderAt level member.2) member.2.tokens) :
    ScansAs (renderMembers level members) (memberTokens members) := by
  induction members with
  | nil =>
    intro rest hrest
    simp [renderMembers, memberTokens]
  | cons member members ih =>
    intro rest hrest
    obtain ⟨name, value⟩ := member
    obtain ⟨hvalue, hmembers⟩ := List.forall_mem_cons.1 hmembers
    have hcomma : tokens? (renderMembers level ((name, value) :: members) ++ rest) =
        (tokens? (newline level ++ (quote name ++ (": ".toList ++
          (renderAt level value ++ (renderMembers level members ++ rest)))))).map (.comma :: ·) := by
      simp only [renderMembers, List.cons_append, List.append_assoc]
      exact tokens?_token (by decide) rfl
    rw [hcomma, tokens?_newline level, tokens?_name name, hvalue _ (endsNumber_renderMembers hrest),
      ih hmembers rest hrest]
    simp only [Option.map_map, memberTokens, Function.comp_def, List.cons_append, List.append_assoc]

lemma scansAs_array (hitems : ∀ item ∈ items, ScansAs (renderAt (level + 1) item) item.tokens) :
    ScansAs (renderAt level (.array items)) (tokens (.array items)) := by
  intro rest _
  have hclose : tokens? (']' :: rest) = (tokens? rest).map (.arrayClose :: ·) :=
    tokens?_token (by decide) rfl
  cases items with
  | nil =>
    rw [renderAt]
    change tokens? ('[' :: ']' :: rest) = _
    rw [tokens?_token (by decide) rfl, hclose, Option.map_map]
    rfl
  | cons item items =>
    obtain ⟨hitem, hitems⟩ := List.forall_mem_cons.1 hitems
    have hend : EndsNumber (newline level ++ (']' :: rest)) := endsNumber_cons (by decide) _
    have hopen : tokens? (renderAt level (.array (item :: items)) ++ rest) =
        (tokens? (newline (level + 1) ++ (renderAt (level + 1) item ++
          (renderItems (level + 1) items ++ (newline level ++ (']' :: rest)))))).map
            (.arrayOpen :: ·) := by
      simp only [renderAt, List.cons_append, List.append_assoc, List.nil_append]
      exact tokens?_token (by decide) rfl
    rw [hopen, tokens?_newline, hitem _ (endsNumber_renderItems hend),
      tokens?_renderItems hitems _ hend, tokens?_newline, hclose]
    simp only [Option.map_map, tokens, Function.comp_def, List.cons_append, List.append_assoc,
      List.nil_append]

lemma scansAs_object
    (hmembers : ∀ member ∈ members, ScansAs (renderAt (level + 1) member.2) member.2.tokens) :
    ScansAs (renderAt level (.object members)) (tokens (.object members)) := by
  intro rest _
  have hclose : tokens? ('\x7d' :: rest) = (tokens? rest).map (.objectClose :: ·) :=
    tokens?_token (by decide) rfl
  cases members with
  | nil =>
    rw [renderAt]
    change tokens? ('\x7b' :: '\x7d' :: rest) = _
    rw [tokens?_token (by decide) rfl, hclose, Option.map_map]
    rfl
  | cons member members =>
    obtain ⟨name, value⟩ := member
    obtain ⟨hvalue, hmembers⟩ := List.forall_mem_cons.1 hmembers
    have hend : EndsNumber (newline level ++ ('\x7d' :: rest)) := endsNumber_cons (by decide) _
    have hopen : tokens? (renderAt level (.object ((name, value) :: members)) ++ rest) =
        (tokens? (newline (level + 1) ++ (quote name ++ (": ".toList ++
          (renderAt (level + 1) value ++
            (renderMembers (level + 1) members ++ (newline level ++ ('\x7d' :: rest)))))))).map
            (.objectOpen :: ·) := by
      simp only [renderAt, List.cons_append, List.append_assoc, List.nil_append]
      exact tokens?_token (by decide) rfl
    rw [hopen, tokens?_newline (level + 1), tokens?_name name, hvalue _ (endsNumber_renderMembers hend),
      tokens?_renderMembers hmembers _ hend, tokens?_newline level, hclose]
    simp only [Option.map_map, tokens, Function.comp_def, List.cons_append, List.append_assoc,
      List.nil_append]

lemma tokens?_renderAt {n : Nat} {j : Json} (h : Fits n j) (level : Nat) :
    ScansAs (renderAt level j) j.tokens := by
  induction h generalizing level with
  | null n => exact fun rest _ => (tokens?_word rest).1
  | bool n b =>
    cases b with
    | true => exact fun rest _ => (tokens?_word rest).2.1
    | false => exact fun rest _ => (tokens?_word rest).2.2
  | number n h => exact fun rest hrest => tokens?_number h hrest
  | string n t => exact fun rest _ => tokens?_quote t rest
  | array _ ih => exact scansAs_array fun item hitem => ih item hitem (level + 1)
  | object _ ih => exact scansAs_object fun member hmember => ih member hmember (level + 1)

end Written

/-! ### The machine -/

lemma run_cons (limit : Nat) (mode : Mode) (stack : List Frame) (token : Token) (ts : List Token) :
    mode.run limit stack (token :: ts) =
      (mode.step limit stack token).bind fun (mode, stack) => mode.run limit stack ts := by
  rw [Mode.run]
  cases mode.step limit stack token <;> rfl

/-- The machine reads the tokens as the value, with anything open around it and anything behind. -/
def RunsTo (limit : Nat) (stack : List Frame) (ts : List Token) (j : Json) : Prop :=
  ∀ rest, Mode.run limit .value stack (ts ++ rest) = Mode.run limit (.complete j) stack rest

section Machine

variable {limit : Nat} {stack : List Frame}

lemma run_itemTokens {items : List Json} {done : List Json}
    (hitems : ∀ item ∈ items, ∀ done, RunsTo limit (.array done :: stack) item.tokens item)
    (j : Json) (rest : List Token) :
    Mode.run limit (.complete j) (.array done :: stack) (itemTokens items ++ .arrayClose :: rest) =
      Mode.run limit (.complete (.array ((j :: done).reverse ++ items))) stack rest := by
  induction items generalizing j done with
  | nil => simp [itemTokens, run_cons, Mode.step]
  | cons item items ih =>
    obtain ⟨hitem, hitems⟩ := List.forall_mem_cons.1 hitems
    have hcomma : Mode.run limit (.complete j) (.array done :: stack)
        (itemTokens (item :: items) ++ .arrayClose :: rest) =
        Mode.run limit .value (.array (j :: done) :: stack)
          (item.tokens ++ (itemTokens items ++ .arrayClose :: rest)) := by
      simp [itemTokens, run_cons, Mode.step]
    rw [hcomma, hitem, ih hitems]
    simp

lemma run_memberTokens {members : List (Text × Json)} {done : List (Text × Json)}
    (hmembers : ∀ member ∈ members, ∀ done name,
      RunsTo limit (.object done name :: stack) member.2.tokens member.2)
    (j : Json) (name : Text) (rest : List Token) :
    Mode.run limit (.complete j) (.object done name :: stack)
        (memberTokens members ++ .objectClose :: rest) =
      Mode.run limit (.complete (.object (((name, j) :: done).reverse ++ members))) stack rest := by
  induction members generalizing j name done with
  | nil => simp [memberTokens, run_cons, Mode.step]
  | cons member members ih =>
    obtain ⟨hmember, hmembers⟩ := List.forall_mem_cons.1 hmembers
    have hcomma : Mode.run limit (.complete j) (.object done name :: stack)
        (memberTokens (member :: members) ++ .objectClose :: rest) =
        Mode.run limit .value (.object ((name, j) :: done) member.1 :: stack)
          (member.2.tokens ++ (memberTokens members ++ .objectClose :: rest)) := by
      simp [memberTokens, run_cons, Mode.step]
    rw [hcomma, hmember, ih hmembers]
    simp

/-- No value begins with the end of an array. -/
lemma run_item (j : Json) (rest : List Token) :
    Mode.run limit .item stack (j.tokens ++ rest) = Mode.run limit .value stack (j.tokens ++ rest) := by
  have hstep : ∀ token ts, token ≠ .arrayClose →
      Mode.run limit .item stack (token :: ts) = Mode.run limit .value stack (token :: ts) := by
    intro token ts hne
    have hsame : Mode.step limit .item stack token = Mode.step limit .value stack token := by
      simp [Mode.step, hne]
    rw [run_cons, run_cons, hsame]
  cases j with
  | array items => cases items <;> exact hstep _ _ (by simp)
  | object members =>
    cases members with
    | nil => exact hstep _ _ (by simp)
    | cons member members => exact hstep _ _ (by simp)
  | _ => exact hstep _ _ (by simp)

lemma runsTo_array {items : List Json} (hroom : stack.length < limit)
    (hitems : ∀ item ∈ items, ∀ done, RunsTo limit (.array done :: stack) item.tokens item) :
    RunsTo limit stack (tokens (.array items)) (.array items) := by
  intro rest
  cases items with
  | nil => simp [tokens, run_cons, Mode.step, Frame.enter, hroom]
  | cons item items =>
    obtain ⟨hitem, hitems⟩ := List.forall_mem_cons.1 hitems
    have hopen : Mode.run limit .value stack (tokens (.array (item :: items)) ++ rest) =
        Mode.run limit .item (.array [] :: stack)
          (item.tokens ++ (itemTokens items ++ .arrayClose :: rest)) := by
      simp [tokens, run_cons, Mode.step, Frame.enter, hroom]
    rw [hopen, run_item, hitem, run_itemTokens hitems]
    rfl

lemma runsTo_object {members : List (Text × Json)} (hroom : stack.length < limit)
    (hmembers : ∀ member ∈ members, ∀ done name,
      RunsTo limit (.object done name :: stack) member.2.tokens member.2) :
    RunsTo limit stack (tokens (.object members)) (.object members) := by
  intro rest
  cases members with
  | nil => simp [tokens, run_cons, Mode.step, Frame.enter, hroom]
  | cons member members =>
    obtain ⟨hmember, hmembers⟩ := List.forall_mem_cons.1 hmembers
    have hopen : Mode.run limit .value stack (tokens (.object (member :: members)) ++ rest) =
        Mode.run limit .value (.object [] member.1 :: stack)
          (member.2.tokens ++ (memberTokens members ++ .objectClose :: rest)) := by
      simp [tokens, run_cons, Mode.step, Frame.enter, hroom]
    rw [hopen, hmember, run_memberTokens hmembers]
    rfl

end Machine

/-- What is open around a value and what is nested in it count together. -/
lemma run_tokens {n limit : Nat} {j : Json} (h : Fits n j) {stack : List Frame}
    (hstack : stack.length + n ≤ limit) : RunsTo limit stack j.tokens j := by
  induction h generalizing stack with
  | null n => exact fun rest => by simp [tokens, run_cons, Mode.step, Frame.enter]
  | bool n b => exact fun rest => by simp [tokens, run_cons, Mode.step, Frame.enter]
  | number n h => exact fun rest => by simp [tokens, run_cons, Mode.step, Frame.enter]
  | string n t => exact fun rest => by simp [tokens, run_cons, Mode.step, Frame.enter]
  | array _ ih =>
    refine runsTo_array (by omega) fun item hitem done => ih item hitem ?_
    rw [List.length_cons]
    omega
  | object _ ih =>
    refine runsTo_object (by omega) fun member hmember done name => ih member hmember ?_
    rw [List.length_cons]
    omega

/-- A value that fits the limit comes back from the way it is written. -/
theorem parse?_render {limit : Nat} {j : Json} (h : Fits limit j) :
    parse? limit j.render = some j := by
  have hscan : tokens? j.render = some j.tokens := by
    have hempty : tokens? [] = some [] := by rw [tokens?]
    have hall := tokens?_renderAt h 0 [] (by simp [EndsNumber])
    simpa [render, hempty] using hall
  have hrun : RunsTo limit [] j.tokens j := run_tokens h (by simp)
  rw [parse?, hscan, ← List.append_nil j.tokens]
  exact hrun []

end AsyncPeer.Json
