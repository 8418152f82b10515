/-
# Types without their qualifiers

Qualifiers say nothing about the shape of a type.  However many of them stand in front of a type, the
type that is read is the one behind them, and once they are taken away none is left
(`qualifiers_absorbed`).

A qualifier ends at a blank, or at the parenthesis that closes its argument list.  So an attribute
without arguments has to be set off from a type that begins with a parenthesis: without the blank the
parameter clause of a function type is taken for the argument list of the attribute, and what is left is
no function type (`read?_attached`).
-/
import AsyncPeer.Proofs.LayoutFree

namespace AsyncPeer

namespace Text

lemma trim_trim (t : Text) : t.trim.trim = t.trim := by
  obtain ⟨x, y, hx, hy, ht⟩ := exists_trim t
  have h := trim_blank_append_blank (t := t.trim) hx hy
  rw [← ht] at h
  exact h.symm

lemma blank_trim (t : Text) : t.trim.blank = t.blank := by
  rw [Bool.eq_iff_iff, ← trim_eq_nil_iff, trim_trim, trim_eq_nil_iff]

lemma blank_squeeze (t : Text) : t.squeeze.blank = t.blank := by
  rw [Bool.eq_iff_iff, ← words_eq_nil_iff, words_squeeze, words_eq_nil_iff]

lemma trimEnd_of_blank {t : Text} (ht : t.blank = true) : t.trimEnd = [] :=
  dropEndWhile_append_of_all (t := []) ht

/-- The two ends of a text are trimmed one after the other, in either order. -/
lemma trimStart_trimEnd (t : Text) : t.trimEnd.trimStart = t.trim := by
  by_cases hblank : t.blank = true
  · rw [trimEnd_of_blank hblank, trim_eq_nil_iff.2 hblank]
    rfl
  · have htrim : t.trim.trim = t.trim := trim_trim t
    obtain ⟨x, y, hx, hy, ht⟩ := exists_trim t
    have hinner : blank (t.trim ++ y) = false := by
      rw [← Bool.not_eq_true]
      intro hall
      rw [blank, List.all_append, Bool.and_eq_true] at hall
      rw [← trim_eq_nil_iff] at hblank
      exact hblank (htrim.symm.trans (trim_eq_nil_iff.2 hall.1))
    have hend : trimEnd (t.trim ++ y) = t.trim :=
      (dropEndWhile_append_of_all hy).trans (dropEndWhile_eq_self (getLast?_of_trimmed htrim))
    rw [ht, List.append_assoc, trimEnd_append_of_not_blank x hinner, hend,
      trimStart_of_blank_append hx, trimStart_eq_self (head?_of_trimmed htrim),
      ← List.append_assoc, ← ht]

/-- Behind a text without blanks at its ends only the end is trimmed. -/
lemma trim_append_of_trimmed {x : Text} (hx : x.trim = x) (hne : x ≠ []) (t : Text) :
    trim (x ++ t) = x ++ t.trimEnd := by
  have hstart : trimStart (x ++ t) = x ++ t := by
    refine trimStart_eq_self fun c hc => ?_
    rw [List.head?_append_of_ne_nil _ hne] at hc
    exact head?_of_trimmed hx c hc
  rw [trim, hstart]
  by_cases hblank : t.blank = true
  · rw [trimEnd_of_blank hblank, List.append_nil]
    exact (dropEndWhile_append_of_all hblank).trans (dropEndWhile_eq_self (getLast?_of_trimmed hx))
  · exact trimEnd_append_of_not_blank x (by simpa using hblank)

end Text

namespace Spelling

/-! ### Nothing is left to take away -/

lemma isSuffix_of_afterArguments? {t rest : Text} (h : afterArguments? t = some rest) :
    rest <:+ t := by
  by_cases hopen : t.head? = some '('
  · obtain ⟨args, rfl⟩ := List.head?_eq_some_iff.1 hopen
    obtain ⟨⟨inside, behind⟩, hgroup, rfl⟩ := Option.map_eq_some_iff.1 h
    obtain ⟨b, hb⟩ := eq_of_group? hgroup
    exact ⟨b.opening :: inside ++ [b.closing], by rw [hb]; simp⟩
  · rw [afterArguments?_of_head hopen] at h
    obtain rfl := Option.some.inj h
    exact List.suffix_refl t

lemma isSuffix_of_afterAttribute? {t rest : Text} (h : afterAttribute? t = some rest) :
    rest <:+ t := by
  unfold afterAttribute? at h
  split at h
  · next c cs =>
    split at h
    · have hbehind : rest <:+ cs.dropWhile isAttributeChar := isSuffix_of_afterArguments? h
      exact (hbehind.trans (List.dropWhile_suffix _)).trans (List.suffix_append ['@', c] cs)
    · cases h
  · cases h

lemma isSuffix_of_afterSpecifier? {s t rest : Text} (h : afterSpecifier? s t = some rest) :
    rest <:+ t :=
  ⟨s, (exists_of_afterSpecifier? h).1.symm⟩

lemma isSuffix_of_afterQualifier? {t rest : Text} (h : afterQualifier? t = some rest) :
    rest <:+ t := by
  obtain ⟨u, hu, rfl⟩ := Option.map_eq_some_iff.1 h
  have hsuffix : u <:+ t := by
    rcases Option.or_eq_some_iff.1 hu with hu | ⟨-, hu⟩
    · exact isSuffix_of_afterAttribute? hu
    · obtain ⟨s, -, hs⟩ := List.exists_of_findSome?_eq_some hu
      exact isSuffix_of_afterSpecifier? hs
  exact (List.dropWhile_suffix _).trans hsuffix

/-- Behind a qualifier of a trimmed text stands a trimmed text. -/
lemma trim_of_afterQualifier? {t rest : Text} (ht : t.trim = t) (h : afterQualifier? t = some rest) :
    rest.trim = rest := by
  obtain ⟨x, rfl⟩ := isSuffix_of_afterQualifier? h
  obtain ⟨u, -, hu⟩ := Option.map_eq_some_iff.1 h
  refine Text.trim_eq_self (fun c hc => ?_) (fun c hc => ?_)
  · -- the blanks in front of it were taken away with the qualifier
    rw [← hu, Text.trimStart] at hc
    have hhead := List.head?_dropWhile_not Text.isBlank u
    rw [Option.mem_def.1 hc] at hhead
    simpa using hhead
  · refine Text.getLast?_of_trimmed ht c ?_
    rw [List.getLast?_append, Option.mem_def.1 hc]
    rfl

lemma trim_dropQualifiers {t : Text} (ht : t.trim = t) : (dropQualifiers t).trim = dropQualifiers t := by
  fun_induction dropQualifiers t with
  | case1 t rest h ih => exact ih (trim_of_afterQualifier? ht h)
  | case2 t h => exact ht

lemma afterQualifier?_dropQualifiers (t : Text) : afterQualifier? (dropQualifiers t) = none := by
  fun_induction dropQualifiers t with
  | case1 t rest h ih => exact ih
  | case2 t h => exact h

/-- Squeezing what is left brings no qualifier to light. -/
lemma afterQualifier?_unqualified (t : Text) : afterQualifier? (unqualified t) = none := by
  have hrelaid := Text.relaid_trim_squeeze (dropQualifiers t.trim)
  rw [trim_dropQualifiers (Text.trim_trim t)] at hrelaid
  rcases Text.Relaid.none_or_some hrelaid.afterQualifier? with ⟨-, hnone⟩ | ⟨u, v, hu, -, -⟩
  · exact hnone
  · rw [afterQualifier?_dropQualifiers] at hu
    cases hu

lemma unqualified_of_trimmed {t : Text} (ht : t.trim = t) (h : afterQualifier? t = none) :
    unqualified t = t.squeeze := by
  rw [unqualified, ht, dropQualifiers_of_none h]

lemma unqualified_unqualified (t : Text) : unqualified (unqualified t) = unqualified t := by
  have htrim : (unqualified t).trim = unqualified t := Text.trim_squeeze _
  rw [unqualified_of_trimmed htrim (afterQualifier?_unqualified t)]
  exact Text.squeeze_squeeze _

/-! ### Qualifiers are absorbed -/

lemma words_leading_append (qs : List Separated) (t : Text) :
    (leading qs ++ t).words = (qs.flatMap fun q => q.qualifier.text.words) ++ t.words := by
  induction qs with
  | nil => rfl
  | cons q qs ih =>
    obtain ⟨c, g, hgap⟩ := List.exists_cons_of_ne_nil q.nonempty
    have hblank := q.blank
    rw [hgap, Text.blank, List.all_cons, Bool.and_eq_true] at hblank
    have hsplit : leading (q :: qs) ++ t = q.qualifier.text ++ c :: (g ++ (leading qs ++ t)) := by
      rw [leading, List.flatMap_cons, hgap]
      simp [leading]
    rw [hsplit, Text.words_append_blank hblank.1, Text.words_blank_append hblank.2, ih,
      List.flatMap_cons, List.append_assoc]

/-- Qualifiers in front of a type are taken away, whatever blanks stand around the type. -/
lemma unqualified_leading_append (qs : List Separated) {t : Text} (ht : t.blank = false) :
    unqualified (leading qs ++ t) = unqualified t := by
  have hne : t.trim ≠ [] := by
    rw [Ne, Text.trim_eq_nil_iff, ht]
    decide
  have hsame : (leading qs ++ t).squeeze = (leading qs ++ t.trim).squeeze := by
    rw [Text.squeeze, words_leading_append, Text.squeeze, words_leading_append, Text.words_trim]
  calc unqualified (leading qs ++ t)
      = unqualified (leading qs ++ t.trim) := by
        rw [← unqualified_squeeze, hsame, unqualified_squeeze]
    _ = unqualified t.trim := unqualified_leading qs (Text.trim_trim t) hne
    _ = unqualified t := by rw [unqualified, Text.trim_trim, unqualified]

lemma FunctionType.read?_of_unqualified_eq {t u : Text} (h : unqualified t = unqualified u) :
    read? t = read? u := by
  rw [read?, h, read?]

end Spelling

lemma Delivery.ofType_of_read?_eq {t u : Text}
    (h : Spelling.FunctionType.read? t = Spelling.FunctionType.read? u) (s : Suspension) :
    ofType t s = ofType u s := by
  rw [ofType, payload?, h, ofType, payload?]

namespace Spelling

/-- **Qualifiers are absorbed.**  Any number of them in front of a type changes neither the unqualified
type nor the function type that is read nor what a completion of this type delivers.  And taking
qualifiers away from what is left changes nothing, because none stands there any more. -/
theorem qualifiers_absorbed (qs : List Separated) {t : Text} (ht : t.blank = false) :
    unqualified (leading qs ++ t) = unqualified t ∧
      FunctionType.read? (leading qs ++ t) = FunctionType.read? t ∧
      (∀ s, Delivery.ofType (leading qs ++ t) s = Delivery.ofType t s) ∧
      ∀ u, unqualified (unqualified u) = unqualified u ∧ afterQualifier? (unqualified u) = none := by
  have hbare := unqualified_leading_append qs ht
  have hread := FunctionType.read?_of_unqualified_eq hbare
  exact ⟨hbare, hread, Delivery.ofType_of_read?_eq hread,
    fun u => ⟨unqualified_unqualified u, afterQualifier?_unqualified u⟩⟩

/-- The attribute that says how a function is called. -/
def convention : AttributeName where
  first := 'c'
  rest := "onvention".toList
  starts := by decide
  continues := List.all_eq_true.1 (by decide)

/-- The attribute of functions that may be called from anywhere. -/
def sendable : AttributeName where
  first := 'S'
  rest := "endable".toList
  starts := by decide
  continues := List.all_eq_true.1 (by decide)

/-- An attribute with an argument list, a specifier and an attribute without arguments, on two lines. -/
def blockQualifiers : List Separated := [
  { qualifier := .applied convention "block".toList (by decide +kernel)
    gap := [' ']
    blank := rfl
    nonempty := List.cons_ne_nil _ _ },
  { qualifier := .specifier "__owned".toList (by decide)
    gap := "\n\t".toList
    blank := rfl
    nonempty := List.cons_ne_nil _ _ },
  { qualifier := .bare sendable
    gap := [' ']
    blank := rfl
    nonempty := List.cons_ne_nil _ _ }]

theorem qualifiers_absorbed_block :
    Text.blank "(Int) -> Void ".toList = false ∧
      leading blockQualifiers ++ "(Int) -> Void ".toList =
        "@convention(block) __owned\n\t@Sendable (Int) -> Void ".toList ∧
      unqualified (leading blockQualifiers ++ "(Int) -> Void ".toList) = "(Int) -> Void".toList ∧
      Delivery.ofType (leading blockQualifiers ++ "(Int) -> Void ".toList) {} =
        .ok (.value "Int".toList) ∧
      unqualified (unqualified "inout @convention(c  (Int)".toList) = "@convention(c (Int)".toList := by
  have hblank : Text.blank "(Int) -> Void ".toList = false := by decide
  obtain ⟨hbare, -, hdelivery, hagain⟩ := qualifiers_absorbed blockQualifiers hblank
  refine ⟨hblank, by decide, ?_, ?_, ?_⟩
  · rw [hbare]
    decide +kernel
  · rw [hdelivery]
    decide +kernel
  · rw [(hagain _).1]
    decide +kernel

/-! ### A parenthesis directly behind an attribute -/

/-- Behind an argument list no blank is needed. -/
lemma unqualified_applied_append (name : AttributeName) {args : Text}
    (closed : group? ('(' :: (args ++ [')'])) = some (args, [])) (rest : Text) :
    unqualified ((Qualifier.applied name args closed).text ++ rest) = unqualified rest := by
  have htext : (Qualifier.applied name args closed).text.trim =
      (Qualifier.applied name args closed).text := by
    refine Text.trim_eq_self (fun c hc => ?_) (fun c hc => ?_)
    · obtain rfl : '@' = c := by simpa [Qualifier.text] using hc
      decide
    · have hend : (Qualifier.applied name args closed).text =
          '@' :: name.first :: (name.rest ++ '(' :: args) ++ [')'] := by simp [Qualifier.text]
      rw [hend, List.getLast?_concat] at hc
      obtain rfl : ')' = c := by simpa using hc
      decide
  have htrim := Text.trim_append_of_trimmed htext (List.cons_ne_nil _ _) rest
  have hafter : afterQualifier? ((Qualifier.applied name args closed).text ++ rest.trimEnd) =
      some rest.trim := by
    rw [afterQualifier?, Qualifier.text, List.cons_append, List.cons_append,
      afterAttribute?_applied name closed]
    exact congrArg some (Text.trimStart_trimEnd rest)
  rw [unqualified, htrim, dropQualifiers_of_some hafter, unqualified]

namespace FunctionType

/-- A text that does not begin with a parenthesis, nor with a qualifier, is no function type. -/
lemma read?_of_head {t : Text} (hhead : t.trim.head? ≠ some '(') (h : afterQualifier? t.trim = none) :
    read? t = none := by
  have hsqueeze := (Text.relaid_trim_squeeze t.trim).head?_eq_iff (c := '(') (by decide)
  rw [Text.trim_trim] at hsqueeze
  rw [read?, unqualified, dropQualifiers_of_none h]
  exact readBare?_of_head (by rwa [Ne, ← hsqueeze])

lemma readBare?_of_unclosed {cs : Text} (h : group? ('(' :: cs) = none) : readBare? ('(' :: cs) = none := by
  rw [readBare?]
  split
  · rfl
  · next hsome =>
    rw [h] at hsome
    cases hsome

/-- What can follow the parameter clause of a function type is no function type itself. -/
lemma read?_of_behindClause {t : Text} (h : t.trim = [] ∨ readEffects? t.trim ≠ none) :
    read? t = none := by
  cases ht : t.trim with
  | nil => exact read?_of_head (by simp [ht]) (by rw [ht]; decide +kernel)
  | cons c u =>
    have hblank : Text.isBlank c = false := Text.head?_of_trimmed (Text.trim_trim t) c (by simp [ht])
    have hc : c = 'a' ∨ c = 't' ∨ c = 'r' ∨ c = '-' := by
      by_contra hne
      simp only [not_or] at hne
      rw [ht, readEffects?_of_head hblank hne] at h
      simp at h
    -- no qualifier begins with one of these characters
    have hnone : afterQualifier? (c :: u) = none := by
      rcases hc with rfl | rfl | rfl | rfl <;> exact afterQualifier?_of_head (by decide) (by decide) u
    refine read?_of_head ?_ (by rw [ht, hnone])
    rw [ht, List.head?_cons]
    rintro ⟨⟩
    exact absurd hc (by decide)

/-- The parameter clause of a function type is a group, behind which no function type stands. -/
lemma exists_clause {f : Text} (h : read? ('(' :: f) ≠ none) :
    ∃ g, group? ('(' :: f) = some g ∧ read? g.2 = none := by
  have htrim : Text.trim ('(' :: f) = '(' :: f.trimEnd :=
    Text.trim_append_of_trimmed (x := ['(']) (by decide) (by decide) f
  have hrelaid := Text.relaid_trim_squeeze ('(' :: f.trimEnd)
  have hagain : Text.trim ('(' :: f.trimEnd) = '(' :: f.trimEnd := by
    rw [← htrim, Text.trim_trim]
  rw [hagain] at hrelaid
  obtain ⟨f', hf', -⟩ := hrelaid.of_cons (by decide)
  have hread : read? ('(' :: f) = readBare? ('(' :: f') := by
    rw [read?, unqualified, htrim, dropQualifiers_of_none (afterQualifier?_of_head (by decide) (by decide) _),
      hf']
  rw [hf'] at hrelaid
  rcases Text.Relaid.none_or_some hrelaid.group? with ⟨-, hnone⟩ | ⟨g, g', hg, hg', -, hrest⟩
  · exact absurd (hread.trans (readBare?_of_unclosed hnone)) h
  · -- the clause that was found in the squeezed text stands in the text itself
    obtain ⟨y, hy, hfy⟩ := Text.exists_trimEnd f
    have hgroup : group? ('(' :: f) = some (g.1, g.2 ++ y) := by
      rw [hfy]
      exact untilClosed_append_right hg y
    refine ⟨_, hgroup, ?_⟩
    have hsame : (g.2 ++ y).squeeze = g'.2.squeeze := by
      rw [Text.squeeze, Text.words_append_of_blank hy, hrest.words_eq, Text.squeeze]
    rw [← read?_squeeze, hsame, read?_squeeze]
    refine read?_of_behindClause ?_
    rw [hread, readBare?_of_group hg'] at h
    by_cases hempty : g'.2.trim.isEmpty = true
    · exact Or.inl (List.isEmpty_iff.1 hempty)
    · rw [if_neg hempty] at h
      exact Or.inr (by simpa using h)

variable (name : AttributeName) (f : Text)

/-- A group directly behind an attribute is taken for its argument list. -/
lemma read?_attached_group :
    read? ((Qualifier.bare name).text ++ '(' :: f) = (group? ('(' :: f)).bind fun g => read? g.2 := by
  cases hgroup : group? ('(' :: f) with
  | some g =>
    obtain ⟨inside, rest⟩ := g
    have hclosed : group? ('(' :: (inside ++ [')'])) = some (inside, []) := untilClosed_behind hgroup []
    have hf : f = inside ++ ')' :: rest := Bracket.eq_of_untilClosed (b := .round) hgroup
    have htext : (Qualifier.bare name).text ++ '(' :: f =
        (Qualifier.applied name inside hclosed).text ++ rest := by
      rw [hf]
      simp [Qualifier.text]
    rw [htext, read?_of_unqualified_eq (unqualified_applied_append name hclosed rest), Option.bind_some]
  | none =>
    -- the list is not closed, so that the attribute stays
    have hopen : Text.trim ((Qualifier.bare name).text ++ ['(']) = (Qualifier.bare name).text ++ ['('] := by
      refine Text.trim_eq_self (fun c hc => ?_) (fun c hc => ?_)
      · obtain rfl : '@' = c := by simpa [Qualifier.text] using hc
        decide
      · obtain rfl : '(' = c := by simpa using hc
        decide
    have htrim : Text.trim ((Qualifier.bare name).text ++ '(' :: f) =
        '@' :: name.first :: (name.rest ++ '(' :: f.trimEnd) := by
      have h := Text.trim_append_of_trimmed hopen (by simp) f
      simpa [Qualifier.text] using h
    have hunclosed : group? ('(' :: f.trimEnd) = none := by
      obtain ⟨y, -, hy⟩ := Text.exists_trimEnd f
      by_contra hclosed
      obtain ⟨g, hg⟩ := Option.ne_none_iff_exists'.1 hclosed
      have := untilClosed_append_right hg y
      rw [← hy] at this
      rw [group?] at hgroup
      simp [Bracket.ofOpening?, this] at hgroup
    have hdrop : (name.rest ++ '(' :: f.trimEnd).dropWhile isAttributeChar = '(' :: f.trimEnd :=
      dropWhile_append_of_head name.continues (by simp; decide)
    refine read?_of_head (by rw [htrim]; simp) ?_
    rw [htrim, afterQualifier?, afterAttribute?_cons, name.starts, hdrop, if_pos rfl, afterArguments?,
      hunclosed, findSome?_specifiers_of_head (by decide)]
    rfl

lemma read?_apart : read? ((Qualifier.bare name).text ++ ' ' :: '(' :: f) = read? ('(' :: f) := by
  have hblank : Text.blank ('(' :: f) = false := rfl
  have h := unqualified_leading_append [⟨.bare name, [' '], by decide, by decide⟩] hblank
  refine read?_of_unqualified_eq ?_
  simpa [leading] using h

end FunctionType

/-- **Whether a blank stands behind an attribute decides.**  An attribute without arguments that is set
off from a parenthesis is absorbed.  Without the blank the group behind it is taken for its argument list,
so that the two spellings agree only where neither of them shows a function type.  A function type is
never found directly behind an attribute. -/
theorem read?_attached (name : AttributeName) (f : Text) :
    (FunctionType.read? ((Qualifier.bare name).text ++ ' ' :: '(' :: f) =
        FunctionType.read? ('(' :: f) ∧
      ∀ s, Delivery.ofType ((Qualifier.bare name).text ++ ' ' :: '(' :: f) s =
        Delivery.ofType ('(' :: f) s) ∧
    FunctionType.read? ((Qualifier.bare name).text ++ '(' :: f) =
      (group? ('(' :: f)).bind (fun g => FunctionType.read? g.2) ∧
    (FunctionType.read? ((Qualifier.bare name).text ++ '(' :: f) =
        FunctionType.read? ((Qualifier.bare name).text ++ ' ' :: '(' :: f) ↔
      FunctionType.read? ('(' :: f) = none ∧
        ∀ g ∈ group? ('(' :: f), FunctionType.read? g.2 = none) ∧
    (FunctionType.read? ('(' :: f) ≠ none →
      FunctionType.read? ((Qualifier.bare name).text ++ '(' :: f) = none ∧
        ∀ s, Delivery.ofType ((Qualifier.bare name).text ++ '(' :: f) s = .error .noCompletion) := by
  have hapart := FunctionType.read?_apart name f
  have hgroup := FunctionType.read?_attached_group name f
  have hnone : FunctionType.read? ('(' :: f) ≠ none →
      FunctionType.read? ((Qualifier.bare name).text ++ '(' :: f) = none := by
    intro h
    obtain ⟨g, hg, hrest⟩ := FunctionType.exists_clause h
    rw [hgroup, hg, Option.bind_some, hrest]
  refine ⟨⟨hapart, Delivery.ofType_of_read?_eq hapart⟩, hgroup, ?_, fun h => ⟨hnone h, fun s => ?_⟩⟩
  · rw [hapart]
    constructor
    · intro heq
      have hf : FunctionType.read? ('(' :: f) = none := by
        by_contra h
        exact h (heq.symm.trans (hnone h))
      rw [hgroup, hf, Option.bind_eq_none_iff] at heq
      exact ⟨hf, heq⟩
    · rintro ⟨hf, hrest⟩
      rw [hgroup, hf, Option.bind_eq_none_iff]
      exact hrest
  · rw [Delivery.ofType, Delivery.payload?, hnone h]

/-- The attribute of closures that are kept beyond the call. -/
def escaping : AttributeName where
  first := 'e'
  rest := "scaping".toList
  starts := by decide
  continues := List.all_eq_true.1 (by decide)

/-- The attribute of functions that run on the main actor. -/
def mainActor : AttributeName where
  first := 'M'
  rest := "ainActor".toList
  starts := by decide
  continues := List.all_eq_true.1 (by decide)

/-- The attributes of closures that have no arguments. -/
def closureAttributes : List AttributeName :=
  [escaping, sendable, mainActor]

theorem read?_attached_escaping :
    FunctionType.read? "(Int) -> Void".toList ≠ none ∧
      FunctionType.read? "@escaping(Int) -> Void".toList = none ∧
      Delivery.ofType "@escaping(Int) -> Void".toList {} = .error .noCompletion := by
  have hread : FunctionType.read? "(Int) -> Void".toList ≠ none := by decide +kernel
  have h := (read?_attached escaping "Int) -> Void".toList).2.2.2 hread
  exact ⟨hread, h.1, h.2 {}⟩

/-- With the blank the completion is recognised, and without it there is none. -/
theorem closureAttributes_attached :
    (closureAttributes.map fun name => (Qualifier.bare name).text) =
        ["@escaping".toList, "@Sendable".toList, "@MainActor".toList] ∧
      ∀ name ∈ closureAttributes,
        FunctionType.read? ((Qualifier.bare name).text ++ " (Int) -> Void".toList) =
            some ⟨["Int".toList], false, false, "Void".toList⟩ ∧
          FunctionType.read? ((Qualifier.bare name).text ++ "(Int) -> Void".toList) = none ∧
          ∀ s ∈ Suspension.all,
            Delivery.ofType ((Qualifier.bare name).text ++ "(Int) -> Void".toList) s ≠
              Delivery.ofType ((Qualifier.bare name).text ++ " (Int) -> Void".toList) s := by
  decide +kernel

end Spelling

end AsyncPeer
