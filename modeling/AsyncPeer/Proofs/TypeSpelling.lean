/-
# How types are spelled

What the readers rely on when they meet a type.  However deeply a type is nested, its text is balanced,
has no comma and no colon outside brackets, is written with single spaces and does not begin with a
qualifier: `Ty.wellSpelled`.  The proof is an induction over the type; each way to build a type keeps
the four properties.
-/
import AsyncPeer.Proofs.TypeLanguage

namespace AsyncPeer.Spelling

/-! ### Characters -/

/-- The class of the outermost characters of a type. -/
def separatesNothing (c : Char) : Prop :=
  c ≠ ',' ∧ c ≠ ':'

instance (c : Char) : Decidable (separatesNothing c) :=
  inferInstanceAs (Decidable (_ ∧ _))

/-- The characters that the scans and the readers look at. -/
def signs : List Char :=
  ['"', '(', '[', '{', ')', ']', '}', '<', '>', '-', ',', ':']

/-- The scans pass over a class of characters without signs. -/
lemma plain_of_class {p : Char → Bool} (hp : signs.any p = false) {c : Char} (hc : p c = true) :
    isPlain c = true ∧ separatesNothing c := by
  have hne : ∀ d ∈ signs, c ≠ d := by
    rintro d hd rfl
    exact List.any_eq_false.1 hp c hd hc
  simp only [signs, List.forall_mem_cons, List.not_mem_nil, false_imp_iff, implies_true,
    and_true] at hne
  simp [isPlain, isOpening, isClosing, separatesNothing, hne]

lemma plain_of_isWordChar {c : Char} (hc : Text.isWordChar c = true) :
    isPlain c = true ∧ separatesNothing c :=
  plain_of_class (by decide +kernel) hc

lemma plain_of_isAttributeChar {c : Char} (hc : isAttributeChar c = true) :
    isPlain c = true ∧ separatesNothing c :=
  plain_of_class (by decide +kernel) hc

lemma isNameChar_of_isWordChar {c : Char} (hc : Text.isWordChar c = true) : isNameChar c = true := by
  simp [isNameChar, hc]

/-! ### Texts of types -/

/-- What the readers rely on when they meet a type. -/
structure WellSpelled (t : Text) : Prop extends Text.Tidy t where
  balanced : Balanced separatesNothing t
  /-- No qualifier is found in front, whatever follows, unless the first word of the text goes on or
  is set off by a blank. -/
  bare : ∀ y : Text, (∀ c ∈ y.head?, Text.isWordChar c = false ∧ Text.isBlank c = false) →
    afterQualifier? (t ++ y) = none

namespace WellSpelled

variable {t : Text}

lemma unqualified_eq (h : WellSpelled t) : unqualified t = t := by
  have hnone := h.bare [] (by simp)
  rw [List.append_nil] at hnone
  rw [unqualified, h.trim_eq, dropQualifiers_of_none hnone, h.squeeze_eq]

/-- Brackets around a balanced text, with more text behind them. -/
lemma bracket_append {b : Bracket} (hb : b ≠ .angle) (ht : Balanced (fun _ => True) t)
    (hs : t.Spaced = true) {u : Text} (hu : Balanced separatesNothing u) (hus : u.Spaced = true) :
    WellSpelled (b.opening :: (t ++ b.closing :: u)) := by
  have hbracket : Text.isBlank b.opening = false ∧ Text.Spaced [b.opening] = true ∧
      Text.Spaced [b.closing] = true := by
    cases b <;> decide
  have hbare : b.opening ≠ '@' ∧ ∀ s ∈ specifiers, s.head? ≠ some b.opening := by
    cases b <;> decide
  refine ⟨⟨?_, _, _, rfl, hbracket.1⟩, ?_, fun y _ => ?_⟩
  · exact Text.spaced_append (x := [b.opening]) hbracket.2.1
      (Text.spaced_append hs (Text.spaced_append (x := [b.closing]) hbracket.2.2 hus))
  · have hgroup : Balanced separatesNothing (b.opening :: (t ++ [b.closing])) := .group hb ht
    have happend := Balanced.append hgroup hu
    rwa [List.cons_append, List.append_assoc, List.singleton_append] at happend
  · exact afterQualifier?_of_head hbare.1 hbare.2 _

lemma bracket {b : Bracket} (hb : b ≠ .angle) (ht : Balanced (fun _ => True) t)
    (hs : t.Spaced = true) : WellSpelled (b.opening :: (t ++ [b.closing])) :=
  bracket_append hb ht hs .nil rfl

/-- Parentheses around a type. -/
lemma round (h : WellSpelled t) : WellSpelled ('(' :: (t ++ [')'])) :=
  bracket (b := .round) (by decide) (h.balanced.mono fun _ _ => trivial) h.spaced

lemma optional (h : WellSpelled t) : WellSpelled (t ++ ['?']) := by
  refine ⟨h.toTidy.append (by decide), .append h.balanced (.plain (by decide) (by decide)),
    fun y _ => ?_⟩
  rw [List.append_assoc]
  refine h.bare _ ?_
  intro c hc
  obtain rfl : '?' = c := by simpa using hc
  decide

end WellSpelled

/-- Types with commas between them. -/
lemma spaced_join_comma {xs : List Text} (h : ∀ x ∈ xs, Text.Tidy x) :
    (Text.join ", ".toList xs).Spaced = true := by
  cases xs with
  | nil => rfl
  | cons x xs =>
    rw [join_comma]
    refine Text.spaced_join (by decide) ?_
    intro y hy
    rcases List.mem_cons.1 hy with rfl | hy
    · exact (h y (by simp)).spaced
    · obtain ⟨z, hz, rfl⟩ := List.mem_map.1 hy
      exact (h z (List.mem_cons_of_mem x hz)).spaced_cons

lemma balanced_join_comma {xs : List Text} (h : ∀ x ∈ xs, Balanced (· ≠ ',') x) :
    Balanced (fun _ => True) (Text.join ", ".toList xs) := by
  refine Balanced.join ?_ fun x hx => (h x hx).mono fun _ _ => trivial
  exact .append (x := [',']) (y := [' ']) (.plain (by decide) trivial) (.plain (by decide) trivial)

/-! ### Names -/

namespace Identifier

lemma tidy (i : Identifier) : Text.Tidy i.text :=
  Text.Tidy.of_word i.nonempty i.chars

lemma balanced (i : Identifier) : Balanced separatesNothing i.text :=
  .of_forall fun c hc => plain_of_isWordChar (i.chars c hc)

lemma endsInName (i : Identifier) : i.text.getLast?.any isNameChar = true := by
  rw [List.getLast?_eq_some_getLast i.nonempty]
  exact isNameChar_of_isWordChar (i.chars _ (List.getLast_mem i.nonempty))

end Identifier

namespace Component

variable {name : Identifier} {args : List Text}

lemma balanced_write (h : ∀ x ∈ args, WellSpelled x) : Balanced separatesNothing (write name args) := by
  rw [write, writeArgs]
  split
  · rw [List.append_nil]
    exact name.balanced
  · exact .angle name.balanced name.endsInName
      (balanced_join_comma fun x hx => (h x hx).balanced.mono fun _ hc => hc.1)

lemma spaced_write (h : ∀ x ∈ args, WellSpelled x) : (write name args).Spaced = true := by
  rw [write, writeArgs]
  refine Text.spaced_append name.tidy.spaced ?_
  split
  · rfl
  · refine Text.spaced_append (x := ['<']) (by decide) (Text.spaced_append ?_ (by decide))
    exact spaced_join_comma fun x hx => (h x hx).toTidy

lemma head?_writeArgs (args : List Text) : ∀ c ∈ (writeArgs args).head?, c = '<' := by
  rw [writeArgs]
  split <;> simp

end Component

/-- The components of a name with dots between them. -/
def dotted (cs : List (Component Text)) : Text :=
  Text.join ['.'] (cs.map fun c => Component.write c.name c.args)

/-- The components of a name, each behind a dot. -/
def members : List (Component Text) → Text
  | [] => []
  | c :: cs => '.' :: dotted (c :: cs)

/-- A dotted name is a word with its arguments, then come the members. -/
lemma dotted_cons (x : Component Text) (xs : List (Component Text)) :
    dotted (x :: xs) = x.name.text ++ (Component.writeArgs x.args ++ members xs) := by
  rw [dotted, List.map_cons]
  cases xs with
  | nil => simp [Text.join_singleton, members, Component.write]
  | cons y ys =>
    rw [List.map_cons, Text.join_cons_cons, Component.write, List.append_assoc, List.append_assoc]
    rfl

/-- What follows the word in front begins with `<` or a dot. -/
lemma head?_behindName (args : List Text) (xs : List (Component Text)) :
    ∀ c ∈ (Component.writeArgs args ++ members xs).head?, c = '<' ∨ c = '.' := by
  intro c hc
  have hargs := Component.head?_writeArgs args
  cases hr : Component.writeArgs args with
  | nil =>
    rw [hr] at hc
    cases xs with
    | nil => simp [members] at hc
    | cons y ys => exact Or.inr (by simpa [members] using hc.symm)
  | cons d r =>
    rw [hr] at hc hargs
    exact Or.inl (hargs c (by simpa using hc))

/-- Components with dots between them. -/
lemma wellSpelled_dotted {x : Component Text} {xs : List (Component Text)}
    (h : ∀ c ∈ x :: xs, ∀ t ∈ c.args, WellSpelled t) : WellSpelled (dotted (x :: xs)) := by
  refine ⟨⟨?_, ?_⟩, ?_, ?_⟩
  · refine Text.spaced_join (by decide) ?_
    intro y hy
    obtain ⟨c, hc, rfl⟩ := List.mem_map.1 hy
    exact Component.spaced_write (h c hc)
  · obtain ⟨c, u, hcu, hc⟩ := x.name.tidy.head
    exact ⟨c, u ++ _, by rw [dotted_cons, hcu]; rfl, hc⟩
  · refine Balanced.join (.plain (by decide) (by decide)) ?_
    intro y hy
    obtain ⟨c, hc, rfl⟩ := List.mem_map.1 hy
    exact Component.balanced_write (h c hc)
  · intro y hy
    rw [dotted_cons, List.append_assoc]
    refine afterQualifier?_of_word x.name.nonempty x.name.chars ?_
    intro c hc
    -- a name is no specifier, since no blank follows it
    have hhead := head?_behindName x.args xs
    cases hr : Component.writeArgs x.args ++ members xs with
    | nil =>
      rw [hr] at hc
      exact hy c hc
    | cons d r =>
      rw [hr] at hc hhead
      rcases hhead c (by simpa using hc) with rfl | rfl <;> decide

/-- A type behind `any`. -/
lemma WellSpelled.existential {t : Text} (h : WellSpelled t) : WellSpelled ("any ".toList ++ t) := by
  have hsplit : "any ".toList ++ t = "any".toList ++ ([' '] ++ t) := rfl
  refine ⟨⟨?_, 'a', _, rfl, by decide⟩, ?_, ?_⟩
  · rw [hsplit]
    exact Text.spaced_append (by decide) h.spaced_cons
  · exact .append (.of_all (by decide)) h.balanced
  · intro y _
    exact afterQualifier?_of_head (c := 'a') (by decide) (by decide) _

/-! ### Elements -/

namespace AttributeName

/-- The attribute of that name. -/
def sign (name : AttributeName) : Text :=
  '@' :: name.first :: name.rest

lemma isAttributeChar_of_mem (name : AttributeName) :
    ∀ c ∈ name.first :: name.rest, isAttributeChar c = true := by
  intro c hc
  rcases List.mem_cons.1 hc with rfl | hc
  · have := name.starts
    simp only [isAttributeStart, Bool.or_eq_true] at this
    rcases this with h | h
    · simp [isAttributeChar, Char.isAlphanum, h]
    · simp [isAttributeChar, h]
  · exact name.continues c hc

lemma balanced_sign (name : AttributeName) : Balanced separatesNothing name.sign :=
  .append (x := ['@']) (.plain (by decide) (by decide))
    (.of_forall fun c hc => plain_of_isAttributeChar (name.isAttributeChar_of_mem c hc))

lemma tidy_sign (name : AttributeName) : Text.Tidy name.sign := by
  have hblank : ∀ c ∈ name.sign, Text.isBlank c = false := by
    intro c hc
    rcases List.mem_cons.1 hc with rfl | hc
    · decide
    · by_contra hblank
      have := name.isAttributeChar_of_mem c hc
      rw [isAttributeChar_of_isBlank (by simpa using hblank)] at this
      cases this
  exact ⟨Text.spaced_of_forall hblank, '@', _, rfl, by decide⟩

end AttributeName

namespace InnerQualifier

lemma balanced (q : InnerQualifier) : Balanced separatesNothing q.qualifier.text := by
  obtain ⟨qualifier, tidy⟩ := q
  cases qualifier with
  | bare name => exact name.balanced_sign
  | applied name args closed => exact .append name.balanced_sign (.round tidy.1)
  | specifier word known =>
    exact .of_forall fun c hc => plain_of_isWordChar (isWordChar_of_specifier known c hc)

lemma tidy_text (q : InnerQualifier) : Text.Tidy q.qualifier.text := by
  obtain ⟨qualifier, tidy⟩ := q
  cases qualifier with
  | bare name => exact name.tidy_sign
  | applied name args closed =>
    exact name.tidy_sign.append (Text.spaced_append (x := ['(']) (by decide) tidy.2)
  | specifier word known =>
    exact Text.Tidy.of_word (specifiers_ne_nil known) (isWordChar_of_specifier known)

/-- The qualifier with the space behind it. -/
def separated (q : InnerQualifier) : Separated :=
  ⟨q.qualifier, [' '], by decide, by decide⟩

end InnerQualifier

namespace Element

variable {label : List Identifier} {qualifiers : List InnerQualifier} {type : Text}

/-- The type of an element with its qualifiers. -/
def writeType (qualifiers : List InnerQualifier) (type : Text) : Text :=
  qualifiers.flatMap (fun q => q.qualifier.text ++ [' ']) ++ type

lemma writeType_eq (qualifiers : List InnerQualifier) (type : Text) :
    writeType qualifiers type = leading (qualifiers.map InnerQualifier.separated) ++ type := by
  rw [writeType, leading, List.flatMap_map]
  rfl

lemma balanced_writeType (h : WellSpelled type) :
    Balanced separatesNothing (writeType qualifiers type) := by
  refine .append ?_ h.balanced
  induction qualifiers with
  | nil => exact .nil
  | cons q qs ih => exact .append (.append q.balanced (.plain (by decide) (by decide))) ih

lemma tidy_writeType (h : WellSpelled type) : Text.Tidy (writeType qualifiers type) := by
  induction qualifiers with
  | nil => exact h.toTidy
  | cons q qs ih =>
    have hsplit : writeType (q :: qs) type = q.qualifier.text ++ ([' '] ++ writeType qs type) := by
      simp [writeType]
    rw [hsplit]
    exact q.tidy_text.append ih.spaced_cons

/-- The words of a label. -/
def writeLabel (label : List Identifier) : Text :=
  Text.join [' '] (label.map (·.text))

lemma balanced_writeLabel : Balanced separatesNothing (writeLabel label) := by
  refine Balanced.join (.plain (by decide) (by decide)) ?_
  intro x hx
  obtain ⟨i, -, rfl⟩ := List.mem_map.1 hx
  exact i.balanced

lemma tidy_writeLabel (hlabel : label ≠ []) : Text.Tidy (writeLabel label) := by
  obtain ⟨i, is, rfl⟩ := List.exists_cons_of_ne_nil hlabel
  induction is generalizing i with
  | nil => exact i.tidy
  | cons k is ih =>
    have hsplit : writeLabel (i :: k :: is) = i.text ++ ([' '] ++ writeLabel (k :: is)) := by
      rw [writeLabel, List.map_cons, List.map_cons, Text.join_cons_cons, List.append_assoc]
      rfl
    rw [hsplit]
    exact i.tidy.append (ih k (by simp)).spaced_cons

lemma write_nil : write [] qualifiers type = writeType qualifiers type := rfl

lemma write_of_ne_nil (hlabel : label ≠ []) :
    write label qualifiers type = writeLabel label ++ ':' :: ([' '] ++ writeType qualifiers type) := by
  rw [write, if_neg (by simpa using hlabel), List.append_assoc]
  rfl

lemma balanced_write (h : WellSpelled type) : Balanced (· ≠ ',') (write label qualifiers type) := by
  have hclass : ∀ c, separatesNothing c → c ≠ ',' := fun _ hc => hc.1
  by_cases hlabel : label = []
  · subst hlabel
    exact (balanced_writeType h).mono hclass
  · rw [write_of_ne_nil hlabel]
    exact .append (balanced_writeLabel.mono hclass)
      (.append (x := [':', ' ']) (.of_all (by decide)) ((balanced_writeType h).mono hclass))

lemma tidy_write (h : WellSpelled type) : Text.Tidy (write label qualifiers type) := by
  by_cases hlabel : label = []
  · subst hlabel
    exact tidy_writeType h
  · rw [write_of_ne_nil hlabel]
    exact (tidy_writeLabel hlabel).append
      (Text.spaced_append (x := [':']) (by decide) (tidy_writeType h).spaced_cons)

end Element

/-! ### Types -/

namespace Ty

/-- The arrow and the result of a function type. -/
def printResult (result : Ty) : Text :=
  "-> ".toList ++ result.print

/-- The effects and the result of a function type. -/
def printTail (isAsync : Bool) (throwing : Throwing Ty) (result : Ty) : Text :=
  (if isAsync then "async ".toList else []) ++ (printThrowing throwing ++ printResult result)

section Tail

variable {throwing : Throwing Ty} {result : Ty}

lemma balanced_printTail (isAsync : Bool) (hthrowing : ∀ t ∈ throwing.parts, WellSpelled t.print)
    (hresult : WellSpelled result.print) :
    Balanced separatesNothing (printTail isAsync throwing result) := by
  have hasync : Balanced separatesNothing (if isAsync then "async ".toList else []) := by
    cases isAsync
    · exact .nil
    · exact .of_all (by decide)
  have hthrows : Balanced separatesNothing (printThrowing throwing) := by
    cases throwing with
    | never => exact .nil
    | throws => exact .of_all (by decide)
    | rethrows => exact .of_all (by decide)
    | typed error =>
      have herror : Balanced separatesNothing ('(' :: (error.print ++ [')'])) :=
        .round ((hthrowing error (by simp [Throwing.parts])).balanced.mono fun _ _ => trivial)
      have hspace := herror.append (.plain (c := ' ') (by decide) (by decide))
      rw [List.cons_append, List.append_assoc] at hspace
      exact .append (.of_all (by decide)) hspace
  have harrow : Balanced separatesNothing "-> ".toList :=
    .append (y := [' ']) .arrow (.plain (by decide) (by decide))
  exact hasync.append (hthrows.append (harrow.append hresult.balanced))

lemma tidy_printResult (hresult : WellSpelled result.print) : Text.Tidy (printResult result) :=
  ⟨Text.spaced_append (x := "->".toList) (by decide) hresult.spaced_cons, '-', _, rfl, by decide⟩

lemma tidy_printTail (isAsync : Bool) (hthrowing : ∀ t ∈ throwing.parts, WellSpelled t.print)
    (hresult : WellSpelled result.print) : Text.Tidy (printTail isAsync throwing result) := by
  -- a word of the tail, the space behind it and what follows
  have hword : ∀ {w u : Text}, w ≠ [] → w.all Text.isWordChar = true → Text.Tidy u →
      Text.Tidy (w ++ ([' '] ++ u)) :=
    fun hne hw hu => (Text.Tidy.of_word hne (List.all_eq_true.1 hw)).append hu.spaced_cons
  have hcall : ∀ {w e u : Text}, w ≠ [] → w.all Text.isWordChar = true →
      e.Spaced = true → Text.Tidy u → Text.Tidy (w ++ '(' :: (e ++ [')', ' ']) ++ u) := by
    intro w e u hne hw he hu
    have hclose : Text.Spaced ([')'] ++ ([' '] ++ u)) = true :=
      Text.spaced_append (by decide) hu.spaced_cons
    have hopen := Text.spaced_append (x := ['(']) (by decide) (Text.spaced_append he hclose)
    have htidy := (Text.Tidy.of_word hne (List.all_eq_true.1 hw)).append hopen
    simpa using htidy
  have hend := tidy_printResult hresult
  have hthrows : Text.Tidy (printThrowing throwing ++ printResult result) := by
    cases throwing with
    | never => exact hend
    | throws => exact hword (w := "throws".toList) (by decide) (by decide +kernel) hend
    | rethrows => exact hword (w := "rethrows".toList) (by decide) (by decide +kernel) hend
    | typed error =>
      have herror := (hthrowing error (by simp [Throwing.parts])).spaced
      exact hcall (w := "throws".toList) (by decide) (by decide +kernel) herror hend
  cases isAsync with
  | false => exact hthrows
  | true => exact hword (w := "async".toList) (by decide) (by decide +kernel) hthrows

end Tail

lemma elements_printElements {es : List (Element Ty)} (h : ∀ e ∈ es, WellSpelled e.type.print) :
    ∀ x ∈ printElements es, Balanced (· ≠ ',') x ∧ Text.Tidy x := by
  intro x hx
  rw [printElements_eq] at hx
  obtain ⟨e, he, rfl⟩ := List.mem_map.1 hx
  rw [printElement_eq]
  exact ⟨Element.balanced_write (h e he), Element.tidy_write (h e he)⟩

/-- The component with its arguments written. -/
def written (c : Component Ty) : Component Text :=
  ⟨c.name, c.args.map print⟩

lemma print_named (first : Component Ty) (rest : List (Component Ty)) :
    (named first rest).print = dotted (written first :: rest.map written) := by
  rw [print, printComponents_eq, dotted, ← List.map_cons, ← List.map_cons, List.map_map]
  exact congrArg (Text.join ['.']) (List.map_congr_left fun c _ => printComponent_eq c)

/-- Every type is well spelled. -/
theorem wellSpelled (t : Ty) : WellSpelled t.print := by
  induction t using Ty.byParts with
  | step t ih =>
    cases t with
    | named first rest =>
      rw [print_named]
      refine wellSpelled_dotted ?_
      intro c hc t ht
      obtain ⟨d, hd, rfl⟩ : ∃ d ∈ first :: rest, written d = c := List.mem_map.1 hc
      obtain ⟨u, hu, rfl⟩ := List.mem_map.1 ht
      exact ih u (List.mem_flatMap.2 ⟨d, hd, hu⟩)
    | existential constraint => exact (ih constraint (by simp [parts])).existential
    | array element =>
      have h := ih element (by simp [parts])
      exact WellSpelled.bracket (b := .square) (by decide) (h.balanced.mono fun _ _ => trivial) h.spaced
    | dictionary key value =>
      have hkey := ih key (by simp [parts])
      have hvalue := ih value (by simp [parts])
      have hcolon : Balanced (fun _ => True) ": ".toList := .of_all (by decide)
      refine WellSpelled.bracket (b := .square) (by decide) ?_ ?_
      · exact .append (.append (hkey.balanced.mono fun _ _ => trivial) hcolon)
          (hvalue.balanced.mono fun _ _ => trivial)
      · rw [List.append_assoc]
        exact Text.spaced_append hkey.spaced
          (Text.spaced_append (x := [':']) (by decide) hvalue.spaced_cons)
    | unit => exact WellSpelled.bracket (b := .round) (by decide) .nil (by decide)
    | tuple first second rest =>
      have helements := @elements_printElements (first :: second :: rest) (fun e he =>
        ih e.type (List.mem_map.2 ⟨e, he, rfl⟩))
      exact WellSpelled.bracket (b := .round) (by decide)
        (balanced_join_comma fun x hx => (helements x hx).1)
        (spaced_join_comma fun x hx => (helements x hx).2)
    | optional wrapped =>
      have h := ih wrapped (by simp [parts])
      -- a function type is put in parentheses first
      rw [print]
      split
      · exact h.round.optional
      · exact h.optional
    | function parameters isAsync throwing result =>
      have hmem : ∀ u, u ∈ parameters.map (·.type) ++ throwing.parts ++ [result] →
          WellSpelled u.print := ih
      have helements := @elements_printElements parameters fun e he =>
        hmem e.type (List.mem_append_left _ (List.mem_append_left _ (List.mem_map.2 ⟨e, he, rfl⟩)))
      have hthrowing : ∀ t ∈ throwing.parts, WellSpelled t.print := fun t ht => hmem t (by simp [ht])
      have hresult := hmem result (by simp)
      exact WellSpelled.bracket_append (b := .round) (by decide)
        (balanced_join_comma fun x hx => (helements x hx).1)
        (spaced_join_comma fun x hx => (helements x hx).2)
        (.append (x := [' ']) (.plain (by decide) (by decide))
          (balanced_printTail isAsync hthrowing hresult))
        (tidy_printTail isAsync hthrowing hresult).spaced_cons

end Ty

end AsyncPeer.Spelling
