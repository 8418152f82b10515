/-
# Qualifiers in front of a spelling

A qualifier is an attribute, with or without a closed argument list, or one of the specifiers.  It is
set off from what follows by blanks.  This file shows that any number of them is taken away
(`unqualified_leading`), and when a text has none (`afterQualifier?_of_head`, `afterQualifier?_of_word`).
-/
import AsyncPeer.Proofs.Balanced
import AsyncPeer.Spelling.Qualifier

namespace AsyncPeer.Spelling

/-! ### The qualifiers of the language -/

/-- The name of an attribute. -/
structure AttributeName where
  first : Char
  rest : Text
  starts : isAttributeStart first = true
  continues : ∀ c ∈ rest, isAttributeChar c = true

/-- What can stand in front of a type. -/
inductive Qualifier where
  /-- An attribute such as `@escaping`. -/
  | bare (name : AttributeName)
  /-- An attribute with an argument list, such as `@convention(c)`. -/
  | applied (name : AttributeName) (args : Text)
      (closed : group? ('(' :: (args ++ [')'])) = some (args, []))
  /-- A specifier such as `inout`. -/
  | specifier (word : Text) (known : word ∈ specifiers)

/-- The qualifier as it is written. -/
def Qualifier.text : Qualifier → Text
  | bare name => '@' :: name.first :: name.rest
  | applied name args _ => '@' :: name.first :: (name.rest ++ '(' :: (args ++ [')']))
  | specifier word _ => word

/-- A qualifier with the blanks that set it off. -/
structure Separated where
  qualifier : Qualifier
  gap : Text
  blank : gap.blank = true
  nonempty : gap ≠ []

/-- Qualifiers one after the other, each with its blanks. -/
def leading (qs : List Separated) : Text :=
  qs.flatMap fun q => q.qualifier.text ++ q.gap

/-! ### Taking qualifiers away -/

lemma dropWhile_append_of_head {p : Char → Bool} {x y : Text} (hx : ∀ c ∈ x, p c = true)
    (hy : ∀ c ∈ y.head?, p c = false) : (x ++ y).dropWhile p = y := by
  rw [List.dropWhile_append_of_pos hx]
  cases y with
  | nil => rfl
  | cons c y => exact List.dropWhile_cons_of_neg (by simp [hy c rfl])

/-- A closed group is closed whatever follows it. -/
lemma untilClosed_behind {b : Bracket} {inner : Nat} {quote : Quote} {dash : Bool}
    {t inside rest : Text} (h : b.untilClosed inner quote dash t = some (inside, rest)) (y : Text) :
    b.untilClosed inner quote dash (inside ++ b.closing :: y) = some (inside, y) := by
  induction t generalizing inner quote dash inside with
  | nil => simp [Bracket.untilClosed] at h
  | cons c cs ih =>
    -- wherever the scan goes on, it goes on with any text behind the group
    have step : ∀ {inner' quote' dash'},
        Bracket.behindText [c] (b.untilClosed inner' quote' dash' cs) = some (inside, rest) →
        ∃ i, inside = c :: i ∧
          Bracket.behindText [c] (b.untilClosed inner' quote' dash' (i ++ b.closing :: y)) =
            some (c :: i, y) := by
      intro inner' quote' dash' h
      obtain ⟨⟨i, r⟩, hi, heq⟩ := Option.map_eq_some_iff.1 h
      obtain ⟨rfl, rfl⟩ := Prod.mk.inj heq
      refine ⟨i, rfl, ?_⟩
      rw [ih hi]
      rfl
    rw [Bracket.untilClosed_cons] at h
    by_cases hinside : quote.isInside = true
    · rw [if_pos hinside] at h
      obtain ⟨i, rfl, hi⟩ := step h
      rwa [List.cons_append, Bracket.untilClosed_cons, if_pos hinside]
    rw [if_neg hinside] at h
    by_cases hquote : c = '"'
    · rw [if_pos hquote] at h
      obtain ⟨i, rfl, hi⟩ := step h
      rwa [List.cons_append, Bracket.untilClosed_cons, if_neg hinside, if_pos hquote]
    rw [if_neg hquote] at h
    by_cases hopening : c = b.opening
    · rw [if_pos hopening] at h
      obtain ⟨i, rfl, hi⟩ := step h
      rwa [List.cons_append, Bracket.untilClosed_cons, if_neg hinside, if_neg hquote,
        if_pos hopening]
    rw [if_neg hopening] at h
    by_cases hclosing : c = b.closing ∧ ¬(c = '>' ∧ dash = true)
    · rw [if_pos hclosing] at h
      cases inner with
      | zero =>
        obtain ⟨rfl, rfl⟩ := Prod.mk.inj (Option.some.inj h)
        rw [List.nil_append, ← hclosing.1, Bracket.untilClosed_cons, if_neg hinside, if_neg hquote,
          if_neg hopening, if_pos hclosing]
      | succ inner =>
        obtain ⟨i, rfl, hi⟩ := step h
        rwa [List.cons_append, Bracket.untilClosed_cons, if_neg hinside, if_neg hquote,
          if_neg hopening, if_pos hclosing]
    · rw [if_neg hclosing] at h
      obtain ⟨i, rfl, hi⟩ := step h
      rwa [List.cons_append, Bracket.untilClosed_cons, if_neg hinside, if_neg hquote,
        if_neg hopening, if_neg hclosing]

/-- What is behind a closed group does not matter for closing it. -/
lemma untilClosed_append_right {b : Bracket} {inner : Nat} {quote : Quote} {dash : Bool}
    {t inside rest : Text} (h : b.untilClosed inner quote dash t = some (inside, rest)) (y : Text) :
    b.untilClosed inner quote dash (t ++ y) = some (inside, rest ++ y) := by
  rw [Bracket.eq_of_untilClosed h, List.append_assoc, List.cons_append]
  exact untilClosed_behind h (rest ++ y)

lemma isAttributeChar_of_isBlank {c : Char} (h : Text.isBlank c = true) : isAttributeChar c = false := by
  have hall : (!isAttributeChar c) = true :=
    Text.forall_isBlank (p := fun c => !isAttributeChar c) (by decide +kernel) h
  simpa using hall

lemma afterAttribute?_attribute (name : AttributeName) {c : Char} (hc : Text.isBlank c = true)
    (rest : Text) :
    afterAttribute? ('@' :: name.first :: (name.rest ++ c :: rest)) = some (c :: rest) := by
  have hdrop : (name.rest ++ c :: rest).dropWhile isAttributeChar = c :: rest :=
    dropWhile_append_of_head name.continues fun d hd => by
      obtain rfl : c = d := by simpa using hd
      exact isAttributeChar_of_isBlank hc
  have hround : c ≠ '(' := by
    rintro rfl
    exact absurd hc (by decide)
  simp only [afterAttribute?, name.starts, hdrop, if_true]
  split
  · next args hargs =>
    exact absurd (List.cons.inj hargs).1 hround
  · rfl

lemma afterAttribute?_applied (name : AttributeName) {args : Text}
    (closed : group? ('(' :: (args ++ [')'])) = some (args, [])) (rest : Text) :
    afterAttribute? ('@' :: name.first :: (name.rest ++ '(' :: (args ++ [')']) ++ rest)) =
      some rest := by
  have hdrop : (name.rest ++ '(' :: (args ++ [')']) ++ rest).dropWhile isAttributeChar =
      '(' :: (args ++ [')'] ++ rest) := by
    rw [List.append_assoc]
    refine dropWhile_append_of_head name.continues ?_
    intro d hd
    obtain rfl : '(' = d := by simpa using hd
    decide
  have hgroup : group? ('(' :: (args ++ [')'] ++ rest)) = some (args, rest) :=
    untilClosed_append_right closed rest
  simp only [afterAttribute?, name.starts, hdrop, hgroup, if_true]
  rfl

lemma afterSpecifier?_specifier (word : Text) {c : Char} (hc : Text.isBlank c = true) (rest : Text) :
    afterSpecifier? word (word ++ c :: rest) = some (c :: rest) := by
  rw [afterSpecifier?, Text.after?_append]
  simp [hc]

/-- A specifier is the beginning of the text, and a blank follows it. -/
lemma exists_of_afterSpecifier? {s t rest : Text} (h : afterSpecifier? s t = some rest) :
    t = s ++ rest ∧ ∃ c u, rest = c :: u ∧ Text.isBlank c = true := by
  unfold afterSpecifier? at h
  split at h
  · next c u hu =>
    split at h
    · next hc =>
      obtain rfl := Option.some.inj h
      exact ⟨Text.eq_append_of_after? hu, c, u, rfl, hc⟩
    · cases h
  · cases h

/-- Where words are followed by other characters, equal texts have equal words. -/
lemma append_inj_of_word {w w' r r' : Text} (hw : ∀ c ∈ w, Text.isWordChar c = true)
    (hw' : ∀ c ∈ w', Text.isWordChar c = true) (hr : ∀ c ∈ r.head?, Text.isWordChar c = false)
    (hr' : ∀ c ∈ r'.head?, Text.isWordChar c = false) (h : w ++ r = w' ++ r') : w = w' ∧ r = r' := by
  have hrest : r = r' := by
    rw [← dropWhile_append_of_head hw hr, h, dropWhile_append_of_head hw' hr']
  subst hrest
  exact ⟨List.append_cancel_right h, rfl⟩

lemma isWordChar_of_specifier {word : Text} (h : word ∈ specifiers) :
    ∀ c ∈ word, Text.isWordChar c = true := by
  have hall : ∀ s ∈ specifiers, s.all Text.isWordChar = true := by decide +kernel
  exact List.all_eq_true.1 (hall word h)

lemma isWordChar_of_isBlank {c : Char} (h : Text.isBlank c = true) : Text.isWordChar c = false := by
  by_contra hc
  rw [Text.isBlank_of_isWordChar (by simpa using hc)] at h
  cases h

/-- A specifier is found only as the whole word in front of a blank. -/
lemma eq_of_afterSpecifier? {s w r rest : Text} (hs : s ∈ specifiers)
    (hw : ∀ c ∈ w, Text.isWordChar c = true) (hr : ∀ c ∈ r.head?, Text.isWordChar c = false)
    (h : afterSpecifier? s (w ++ r) = some rest) :
    r = rest ∧ ∃ c u, rest = c :: u ∧ Text.isBlank c = true := by
  obtain ⟨ht, c, u, rfl, hc⟩ := exists_of_afterSpecifier? h
  have hhead : ∀ d ∈ (c :: u).head?, Text.isWordChar d = false := by
    intro d hd
    obtain rfl : c = d := by simpa using hd
    exact isWordChar_of_isBlank hc
  obtain ⟨-, rfl⟩ := append_inj_of_word hw (isWordChar_of_specifier hs) hr hhead ht
  exact ⟨rfl, c, u, rfl, hc⟩

lemma afterAttribute?_of_head {t : Text} (h : t.head? ≠ some '@') : afterAttribute? t = none := by
  unfold afterAttribute?
  split
  · simp at h
  · rfl

/-- A qualifier is taken away together with the blanks behind it. -/
lemma afterQualifier?_text (q : Qualifier) {c : Char} (hc : Text.isBlank c = true) (rest : Text) :
    afterQualifier? (q.text ++ c :: rest) = some (Text.trimStart (c :: rest)) := by
  cases q with
  | bare name =>
    rw [afterQualifier?, Qualifier.text, List.cons_append, List.cons_append,
      afterAttribute?_attribute name hc]
    rfl
  | applied name args closed =>
    rw [afterQualifier?, Qualifier.text, List.cons_append, List.cons_append,
      afterAttribute?_applied name closed]
    rfl
  | specifier word known =>
    have hword := isWordChar_of_specifier known
    have hhead : ∀ d ∈ (c :: rest).head?, Text.isWordChar d = false := by
      intro d hd
      obtain rfl : c = d := by simpa using hd
      exact isWordChar_of_isBlank hc
    have hnone : afterAttribute? (word ++ c :: rest) = none := by
      refine afterAttribute?_of_head ?_
      obtain ⟨d, u, rfl⟩ := List.exists_cons_of_ne_nil (specifiers_ne_nil known)
      have hd := hword d (by simp)
      rw [List.cons_append, List.head?_cons]
      rintro ⟨⟩
      exact absurd hd (by decide)
    -- another specifier is found only where it is the same word
    have hfound : specifiers.findSome? (afterSpecifier? · (word ++ c :: rest)) = some (c :: rest) := by
      cases hf : specifiers.findSome? (afterSpecifier? · (word ++ c :: rest)) with
      | none =>
        have := List.findSome?_eq_none_iff.1 hf word known
        rw [afterSpecifier?_specifier word hc] at this
        cases this
      | some u =>
        obtain ⟨s, hs, hu⟩ := List.exists_of_findSome?_eq_some hf
        rw [(eq_of_afterSpecifier? hs hword hhead hu).1]
    rw [afterQualifier?, Qualifier.text, hnone, hfound]
    rfl

lemma Qualifier.head?_text (q : Qualifier) :
    ∃ c u, q.text = c :: u ∧ Text.isBlank c = false := by
  cases q with
  | bare name => exact ⟨'@', _, rfl, by decide⟩
  | applied name args closed => exact ⟨'@', _, rfl, by decide⟩
  | specifier word known =>
    obtain ⟨c, u, rfl⟩ := List.exists_cons_of_ne_nil (specifiers_ne_nil known)
    exact ⟨c, u, rfl, Text.isBlank_of_isWordChar (isWordChar_of_specifier known c (by simp))⟩

lemma head?_leading (qs : List Separated) {t : Text} (ht : ∀ c ∈ t.head?, Text.isBlank c = false) :
    ∀ c ∈ (leading qs ++ t).head?, Text.isBlank c = false := by
  cases qs with
  | nil => exact ht
  | cons q qs =>
    obtain ⟨c, u, htext, hc⟩ := q.qualifier.head?_text
    intro d hd
    rw [leading, List.flatMap_cons, htext] at hd
    obtain rfl : c = d := by simpa using hd
    exact hc

lemma dropQualifiers_of_some {t rest : Text} (h : afterQualifier? t = some rest) :
    dropQualifiers t = dropQualifiers rest := by
  rw [dropQualifiers]
  split
  · next u hu =>
    rw [h] at hu
    rw [Option.some.inj hu]
  · next hnone =>
    rw [h] at hnone
    cases hnone

lemma dropQualifiers_of_none {t : Text} (h : afterQualifier? t = none) : dropQualifiers t = t := by
  rw [dropQualifiers]
  split
  · next u hu =>
    rw [h] at hu
    cases hu
  · rfl

lemma dropQualifiers_leading (qs : List Separated) {t : Text}
    (ht : ∀ c ∈ t.head?, Text.isBlank c = false) :
    dropQualifiers (leading qs ++ t) = dropQualifiers t := by
  induction qs with
  | nil => rfl
  | cons q qs ih =>
    obtain ⟨c, g, hgap⟩ := List.exists_cons_of_ne_nil q.nonempty
    have hc : Text.isBlank c = true := by
      have := q.blank
      rw [hgap, Text.blank, List.all_cons, Bool.and_eq_true] at this
      exact this.1
    have hsplit : leading (q :: qs) ++ t = q.qualifier.text ++ c :: (g ++ (leading qs ++ t)) := by
      rw [leading, List.flatMap_cons, hgap]
      simp [leading]
    have hskip : Text.trimStart (c :: (g ++ (leading qs ++ t))) = leading qs ++ t := by
      rw [← List.cons_append, ← hgap, Text.trimStart_of_blank_append q.blank]
      exact Text.trimStart_eq_self (head?_leading qs ht)
    rw [hsplit, dropQualifiers_of_some (afterQualifier?_text q.qualifier hc _), hskip, ih]

/-- Qualifiers in front of a text are taken away. -/
theorem unqualified_leading (qs : List Separated) {t : Text} (ht : t.trim = t) (hne : t ≠ []) :
    unqualified (leading qs ++ t) = unqualified t := by
  have hhead := Text.head?_of_trimmed ht
  have htrim : Text.trim (leading qs ++ t) = leading qs ++ t := by
    refine Text.trim_eq_self (head?_leading qs hhead) ?_
    intro c hc
    rw [List.getLast?_append_of_ne_nil _ hne] at hc
    exact Text.getLast?_of_trimmed ht c hc
  rw [unqualified, htrim, dropQualifiers_leading qs hhead, unqualified, ht]

/-! ### Texts without qualifiers -/

lemma findSome?_specifiers_of_head {c : Char} (hs : ∀ s ∈ specifiers, s.head? ≠ some c) (t : Text) :
    specifiers.findSome? (afterSpecifier? · (c :: t)) = none := by
  refine List.findSome?_eq_none_iff.2 ?_
  intro s hmem
  obtain ⟨d, u, rfl⟩ := List.exists_cons_of_ne_nil (specifiers_ne_nil hmem)
  have hd : c ≠ d := fun h => hs _ hmem (by simp [h])
  simp [afterSpecifier?, Text.after?, hd]

lemma afterQualifier?_of_head {c : Char} (hc : c ≠ '@') (hs : ∀ s ∈ specifiers, s.head? ≠ some c)
    (t : Text) : afterQualifier? (c :: t) = none := by
  rw [afterQualifier?, afterAttribute?_of_head (by simpa using hc),
    findSome?_specifiers_of_head hs]
  rfl

/-- A word that is not followed by a blank is no qualifier. -/
lemma afterQualifier?_of_word {w r : Text} (hne : w ≠ []) (hw : ∀ c ∈ w, Text.isWordChar c = true)
    (hr : ∀ c ∈ r.head?, Text.isWordChar c = false ∧ Text.isBlank c = false) :
    afterQualifier? (w ++ r) = none := by
  have hhead : (w ++ r).head? ≠ some '@' := by
    obtain ⟨d, u, rfl⟩ := List.exists_cons_of_ne_nil hne
    have hd := hw d (by simp)
    rw [List.cons_append, List.head?_cons]
    rintro ⟨⟩
    exact absurd hd (by decide)
  have hnone : specifiers.findSome? (afterSpecifier? · (w ++ r)) = none := by
    refine List.findSome?_eq_none_iff.2 ?_
    intro s hs
    cases hf : afterSpecifier? s (w ++ r) with
    | none => rfl
    | some rest =>
      obtain ⟨rfl, c, u, rfl, hc⟩ := eq_of_afterSpecifier? hs hw (fun c hc => (hr c hc).1) hf
      rw [(hr c rfl).2] at hc
      cases hc
  rw [afterQualifier?, afterAttribute?_of_head hhead, hnone]
  rfl

end AsyncPeer.Spelling
