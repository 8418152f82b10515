/-
# Function types are recognised

The reader of function types works on texts: it cuts at outermost commas and colons and looks for
closing brackets.  This file shows that on the types of the language it does what the tree says.
`FunctionType.read?_print`: the parts of a function type are found, behind any qualifiers and inside any
number of parentheses, and every other type is turned down.

Since every type is well spelled, the cuts fall where the type was put together.  So the proof follows
the text of a function type: its parameters (`parameterType_write`), its effects and its result
(`readEffects?_printTail`).
-/
import AsyncPeer.Proofs.TypeSpelling
import AsyncPeer.Spelling.Shape

namespace AsyncPeer.Spelling

/-! ### What a type says -/

/-- The function throws. -/
def Throwing.isThrowing {α : Type} : Throwing α → Bool
  | never => false
  | _ => true

/-- What the type says, if it is that of a function. -/
def Ty.functionType? : Ty → Option FunctionType
  | function parameters isAsync throwing result => some {
      parameters := parameters.map (·.type.print)
      isAsync
      throws := throwing.isThrowing
      result := result.print }
  | _ => none

/-! ### Parameters -/

lemma unqualified_space_append (t : Text) : unqualified ([' '] ++ t) = unqualified t := by
  rw [unqualified, Text.trim_space_append, unqualified]

/-- The type of a parameter is found behind its label and its qualifiers. -/
lemma parameterType_write {label : List Identifier} {qualifiers : List InnerQualifier} {type : Text}
    (h : WellSpelled type) : parameterType (Element.write label qualifiers type) = type := by
  have hclass : ∀ c, separatesNothing c → c ≠ ':' := fun _ hc => hc.2
  have htype : unqualified (Element.writeType qualifiers type) = type := by
    rw [Element.writeType_eq, unqualified_leading _ h.trim_eq h.ne_nil, h.unqualified_eq]
  by_cases hlabel : label = []
  · subst hlabel
    rw [parameterType, Element.write_nil,
      ((Element.balanced_writeType h).mono hclass).behind?_eq_none]
    exact htype
  · rw [parameterType, Element.write_of_ne_nil hlabel,
      (Element.balanced_writeLabel.mono hclass).behind?_eq_some (by decide), Option.getD_some,
      unqualified_space_append]
    exact htype

/-! ### Effects -/

lemma afterKeyword?_append (keyword : Text) {c : Char} (hc : isNameChar c = false) (t : Text) :
    afterKeyword? keyword (keyword ++ c :: t) = some (Text.trimStart (c :: t)) := by
  rw [afterKeyword?, Text.after?_append]
  simp [hc]

lemma afterKeyword?_of_head {k c : Char} (h : c ≠ k) (keyword t : Text) :
    afterKeyword? (k :: keyword) (c :: t) = none := by
  rw [afterKeyword?, Text.after?, if_neg h]

lemma afterThrows?_of_head {c : Char} (ht : c ≠ 't') (hr : c ≠ 'r') (t : Text) :
    afterThrows? (c :: t) = none := by
  have hthrows : afterKeyword? "throws".toList (c :: t) = none :=
    afterKeyword?_of_head ht "hrows".toList t
  have hrethrows : afterKeyword? "rethrows".toList (c :: t) = none :=
    afterKeyword?_of_head hr "ethrows".toList t
  rw [afterThrows?, hthrows, hrethrows]
  rfl

lemma afterThrows?_never (result : Ty) : afterThrows? (Ty.printResult result) = none :=
  afterThrows?_of_head (c := '-') (by decide) (by decide) _

/-- What follows the word for errors is found, with or without a type. -/
lemma afterThrows?_printThrowing {throwing : Throwing Ty} (h : throwing.isThrowing = true)
    (result : Ty) :
    afterThrows? (Ty.printThrowing throwing ++ Ty.printResult result) =
      some (some (Ty.printResult result)) := by
  obtain ⟨u, hu⟩ : ∃ u, Ty.printResult result = '-' :: u := ⟨_, rfl⟩
  have hskip : Text.trimStart (' ' :: '-' :: u) = '-' :: u := rfl
  rw [hu]
  cases throwing with
  | never => cases h
  | throws =>
    have hthrows : afterKeyword? "throws".toList (Ty.printThrowing .throws ++ '-' :: u) =
        some ('-' :: u) :=
      (afterKeyword?_append "throws".toList (by decide) ('-' :: u)).trans
        (congrArg some hskip)
    rw [afterThrows?, hthrows]
    rfl
  | rethrows =>
    have hthrows : afterKeyword? "throws".toList (Ty.printThrowing .rethrows ++ '-' :: u) = none :=
      afterKeyword?_of_head (k := 't') (c := 'r') (by decide) "hrows".toList _
    have hrethrows : afterKeyword? "rethrows".toList (Ty.printThrowing .rethrows ++ '-' :: u) =
        some ('-' :: u) :=
      (afterKeyword?_append "rethrows".toList (by decide) ('-' :: u)).trans
        (congrArg some hskip)
    rw [afterThrows?, hthrows, hrethrows]
    rfl
  | typed error =>
    -- the error type is a group of its own, and the rest begins behind it
    have hgroup : group? ('(' :: (error.print ++ ')' :: ' ' :: '-' :: u)) =
        some (error.print, ' ' :: '-' :: u) :=
      error.wellSpelled.balanced.group?_round _
    have hinner : '(' :: (error.print ++ [')', ' ']) ++ '-' :: u =
        '(' :: (error.print ++ ')' :: ' ' :: '-' :: u) := by
      simp
    have hregroup : Ty.printThrowing (.typed error) ++ '-' :: u =
        "throws".toList ++ '(' :: (error.print ++ ')' :: ' ' :: '-' :: u) :=
      (List.append_assoc "throws".toList _ _).trans (congrArg ("throws".toList ++ ·) hinner)
    have hthrows : afterKeyword? "throws".toList (Ty.printThrowing (.typed error) ++ '-' :: u) =
        some ('(' :: (error.print ++ ')' :: ' ' :: '-' :: u)) := by
      rw [hregroup, afterKeyword?_append _ (by decide), Text.trimStart_cons_of_not_blank (by decide)]
    rw [afterThrows?, hthrows, Option.some_or, Option.map_some, hgroup, Option.map_some, hskip]
    rfl

/-- The steps of the reader: `async` or not, a word for errors or not, then the arrow. -/
lemma readEffects?_steps {t u v r : Text} {isAsync throws : Bool}
    (hasync : afterKeyword? "async".toList t.trimStart = some u ∧ isAsync = true ∨
      afterKeyword? "async".toList t.trimStart = none ∧ isAsync = false ∧ t.trimStart = u)
    (hthrows : afterThrows? u = some (some v) ∧ throws = true ∨
      afterThrows? u = none ∧ throws = false ∧ u = v)
    (harrow : v.after? "->".toList = some r) (hr : r.trim.isEmpty = false) :
    readEffects? t = some (isAsync, throws, r.trim.squeeze) := by
  unfold readEffects?
  rcases hasync with ⟨hasync, rfl⟩ | ⟨hasync, rfl, rfl⟩ <;>
    rcases hthrows with ⟨hthrows, rfl⟩ | ⟨hthrows, rfl, rfl⟩ <;>
    simp only [hasync, hthrows, harrow, hr, Option.bind_eq_bind, Option.bind_some, Option.map_some] <;>
    rfl

/-- The effects and the result of a function type are found. -/
lemma readEffects?_printTail (isAsync : Bool) (throwing : Throwing Ty) (result : Ty) :
    readEffects? (Ty.printTail isAsync throwing result) =
      some (isAsync, throwing.isThrowing, result.print) := by
  have hresult := result.wellSpelled
  have hstart : ∀ {t : Text}, Text.Tidy t → t.trimStart = t := fun ht =>
    Text.trimStart_eq_self (Text.head?_of_trimmed ht.trim_eq)
  have htidy : Text.Tidy (Ty.printThrowing throwing ++ Ty.printResult result) :=
    Ty.tidy_printTail false (fun t _ => t.wellSpelled) hresult
  -- first `async`: without it the tail begins with a word for errors or with the arrow
  have hasync : afterKeyword? "async".toList (Ty.printTail isAsync throwing result).trimStart =
        some (Ty.printThrowing throwing ++ Ty.printResult result) ∧ isAsync = true ∨
      afterKeyword? "async".toList (Ty.printTail isAsync throwing result).trimStart = none ∧
        isAsync = false ∧ (Ty.printTail isAsync throwing result).trimStart =
          Ty.printThrowing throwing ++ Ty.printResult result := by
    rw [hstart (Ty.tidy_printTail isAsync (fun t _ => t.wellSpelled) hresult)]
    cases isAsync with
    | true =>
      refine Or.inl ⟨?_, rfl⟩
      refine (afterKeyword?_append "async".toList (c := ' ') (by decide) _).trans ?_
      exact congrArg some (hstart htidy)
    | false =>
      obtain ⟨c, u, hcu, hc⟩ : ∃ c u,
          Ty.printThrowing throwing ++ Ty.printResult result = c :: u ∧ c ≠ 'a' := by
        cases throwing <;> exact ⟨_, _, rfl, by decide⟩
      refine Or.inr ⟨?_, rfl, rfl⟩
      rw [Ty.printTail, if_neg (by decide), List.nil_append, hcu]
      exact afterKeyword?_of_head (k := 'a') hc "sync".toList u
  have hthrows : afterThrows? (Ty.printThrowing throwing ++ Ty.printResult result) =
        some (some (Ty.printResult result)) ∧ throwing.isThrowing = true ∨
      afterThrows? (Ty.printThrowing throwing ++ Ty.printResult result) = none ∧
        throwing.isThrowing = false ∧
          Ty.printThrowing throwing ++ Ty.printResult result = Ty.printResult result := by
    cases h : throwing.isThrowing with
    | true => exact Or.inl ⟨afterThrows?_printThrowing h result, rfl⟩
    | false =>
      cases throwing with
      | never => exact Or.inr ⟨afterThrows?_never result, rfl, rfl⟩
      | throws => cases h
      | rethrows => cases h
      | typed error => cases h
  have htrim : Text.trim ([' '] ++ result.print) = result.print := by
    rw [Text.trim_space_append, hresult.trim_eq]
  have hread := readEffects?_steps hasync hthrows (Text.after?_append "->".toList ([' '] ++ result.print))
    (by rw [htrim]; simpa using hresult.ne_nil)
  rwa [htrim, hresult.squeeze_eq] at hread

/-! ### Whole types -/

namespace FunctionType

lemma readBare?_of_head {t : Text} (h : t.head? ≠ some '(') : readBare? t = none := by
  rw [readBare?.eq_def]
  split
  · simp at h
  · rfl

lemma readBare?_of_group {cs inside rest : Text} (h : group? ('(' :: cs) = some (inside, rest)) :
    readBare? ('(' :: cs) =
      if rest.trim.isEmpty then
        if (pieces ',' inside).length = 1 then readBare? (unqualified inside) else none
      else
        (readEffects? rest.trim).map fun (isAsync, throws, result) =>
          { parameters := (pieces ',' inside).map parameterType, isAsync, throws, result } := by
  rw [readBare?]
  split
  · next hnone =>
    rw [h] at hnone
    cases hnone
  · next inside' rest' hsome =>
    rw [h] at hsome
    obtain ⟨rfl, rfl⟩ := Prod.mk.inj (Option.some.inj hsome)
    rfl

/-- Parentheses around a single type are looked through. -/
lemma readBare?_round {t : Text} (h : WellSpelled t) :
    readBare? ('(' :: (t ++ [')'])) = readBare? t := by
  have hpieces : pieces ',' t = [t] := by
    have := @pieces_join [t] fun x hx => by
      rw [List.mem_singleton.1 hx]
      exact ⟨h.balanced.mono fun _ hc => hc.1, h.trim_eq, h.ne_nil⟩
    rwa [Text.join_singleton] at this
  rw [readBare?_of_group (h.balanced.group?_round []), hpieces, h.unqualified_eq]
  rfl

lemma pieces_printElements (es : List (Element Ty)) :
    pieces ',' (Text.join ", ".toList (Ty.printElements es)) = Ty.printElements es := by
  refine pieces_join ?_
  intro x hx
  obtain ⟨hbalanced, htidy⟩ := Ty.elements_printElements (fun e _ => e.type.wellSpelled) x hx
  exact ⟨hbalanced, htidy.trim_eq, htidy.ne_nil⟩

lemma balanced_printElements (es : List (Element Ty)) :
    Balanced (fun _ => True) (Text.join ", ".toList (Ty.printElements es)) :=
  balanced_join_comma fun x hx => (Ty.elements_printElements (fun e _ => e.type.wellSpelled) x hx).1

lemma map_parameterType (es : List (Element Ty)) :
    (Ty.printElements es).map parameterType = es.map (·.type.print) := by
  rw [Ty.printElements_eq, List.map_map]
  refine List.map_congr_left ?_
  intro e _
  rw [Function.comp_apply, Ty.printElement_eq]
  exact parameterType_write e.type.wellSpelled

/-- A function type is taken apart. -/
lemma readBare?_function (parameters : List (Element Ty)) (isAsync : Bool) (throwing : Throwing Ty)
    (result : Ty) :
    readBare? (Ty.function parameters isAsync throwing result).print =
      (Ty.function parameters isAsync throwing result).functionType? := by
  have htidy : Text.Tidy (Ty.printTail isAsync throwing result) :=
    Ty.tidy_printTail isAsync (fun t _ => t.wellSpelled) result.wellSpelled
  have hgroup := (balanced_printElements parameters).group?_round
    ([' '] ++ Ty.printTail isAsync throwing result)
  have hne : (Ty.printTail isAsync throwing result).isEmpty = false := by
    simpa using htidy.ne_nil
  refine (readBare?_of_group hgroup).trans ?_
  rw [Text.trim_space_append, htidy.trim_eq, hne, readEffects?_printTail, pieces_printElements,
    map_parameterType]
  rfl

/-- Effects and result begin with one of four characters. -/
lemma readEffects?_of_head {c : Char} (hblank : Text.isBlank c = false)
    (hc : c ≠ 'a' ∧ c ≠ 't' ∧ c ≠ 'r' ∧ c ≠ '-') (t : Text) : readEffects? (c :: t) = none := by
  have hstart : Text.trimStart (c :: t) = c :: t := Text.trimStart_cons_of_not_blank hblank t
  have hasync : afterKeyword? "async".toList (c :: t) = none :=
    afterKeyword?_of_head (k := 'a') hc.1 "sync".toList t
  have hthrows : afterThrows? (c :: t) = none := afterThrows?_of_head hc.2.1 hc.2.2.1 t
  have harrow : Text.after? (c :: t) "->".toList = none := if_neg hc.2.2.2
  simp only [readEffects?, hstart, hasync, hthrows, harrow, Option.bind_eq_bind, Option.bind_some,
    Option.bind_none]

/-- A group with the mark of an optional type behind it is no function type. -/
lemma readBare?_marks {x : Text} (hx : Balanced (fun _ => True) x) (k : Nat) :
    readBare? ('(' :: (x ++ ')' :: List.replicate (k + 1) '?')) = none := by
  have htrim : Text.trim (List.replicate (k + 1) '?') = List.replicate (k + 1) '?' := by
    have hmark : ∀ c ∈ List.replicate (k + 1) '?', Text.isBlank c = false := by
      intro c hc
      rw [List.eq_of_mem_replicate hc]
      decide
    exact Text.trim_eq_self (fun c hc => hmark c (List.mem_of_mem_head? hc))
      (fun c hc => hmark c (List.mem_of_getLast? hc))
  rw [readBare?_of_group (hx.group?_round _), htrim, List.replicate_succ,
    readEffects?_of_head (by decide) (by decide)]
  rfl

lemma head?_named (first : Component Ty) (rest : List (Component Ty)) :
    (Ty.named first rest).print.head? ≠ some '(' := by
  obtain ⟨c, u, hcu⟩ := List.exists_cons_of_ne_nil first.name.nonempty
  have hc := first.name.chars c (by simp [hcu])
  rw [Ty.print_named, dotted_cons, Ty.written, hcu, List.cons_append, List.head?_cons]
  rintro ⟨⟩
  exact absurd hc (by decide)

lemma print_optional {t : Ty} (h : t.isFunction = false) : (Ty.optional t).print = t.print ++ ['?'] := by
  rw [Ty.print, h, if_neg (by decide)]

/-- An optional type does not begin with a parenthesis, or it is a group with marks behind it. -/
lemma optional_marks (t : Ty) : (Ty.optional t).print.head? ≠ some '(' ∨
    ∃ x k, Balanced (fun _ => True) x ∧
      (Ty.optional t).print = '(' :: (x ++ ')' :: List.replicate (k + 1) '?') := by
  have hhead : ∀ t : Ty, t.isFunction = false → t.print.head? ≠ some '(' →
      (Ty.optional t).print.head? ≠ some '(' := by
    intro t hfunction h
    rw [print_optional hfunction, List.head?_append_of_ne_nil _ t.wellSpelled.ne_nil]
    exact h
  induction t using Ty.byParts with
  | step t ih =>
    cases t with
    | named first rest => exact Or.inl (hhead _ rfl (head?_named first rest))
    | existential constraint => exact Or.inl (hhead _ rfl (by simp [Ty.print]))
    | array element => exact Or.inl (hhead _ rfl (by simp [Ty.print]))
    | dictionary key value => exact Or.inl (hhead _ rfl (by simp [Ty.print]))
    | unit => exact Or.inr ⟨[], 0, .nil, rfl⟩
    | tuple first second rest =>
      refine Or.inr ⟨_, 0, balanced_printElements (first :: second :: rest), ?_⟩
      rw [print_optional rfl, Ty.print, List.cons_append, List.append_assoc]
      rfl
    | optional wrapped =>
      rw [print_optional rfl]
      rcases ih wrapped (by simp [Ty.parts]) with h | ⟨x, k, hx, h⟩
      · refine Or.inl ?_
        rwa [List.head?_append_of_ne_nil _ (Ty.optional wrapped).wellSpelled.ne_nil]
      · refine Or.inr ⟨x, k + 1, hx, ?_⟩
        rw [h, List.cons_append, List.append_assoc, List.cons_append, ← List.replicate_succ']
    | function parameters isAsync throwing result =>
      refine Or.inr ⟨_, 0, (Ty.function parameters isAsync throwing result).wellSpelled.balanced.mono
        fun _ _ => trivial, ?_⟩
      rw [Ty.print, Ty.isFunction, if_pos rfl, List.cons_append, List.append_assoc]
      rfl

/-- The reader finds a function type exactly where there is one. -/
lemma readBare?_print (t : Ty) : readBare? t.print = t.functionType? := by
  cases t with
  | named first rest => exact readBare?_of_head (head?_named first rest)
  | existential constraint => exact readBare?_of_head (by simp [Ty.print])
  | array element => exact readBare?_of_head (by simp [Ty.print])
  | dictionary key value => exact readBare?_of_head (by simp [Ty.print])
  | unit => exact readBare?_of_group (Balanced.group?_round (q := fun _ => True) .nil [])
  | tuple first second rest =>
    refine (readBare?_of_group ((balanced_printElements (first :: second :: rest)).group?_round [])).trans ?_
    rw [pieces_printElements]
    rfl
  | optional wrapped =>
    rcases optional_marks wrapped with h | ⟨x, k, hx, h⟩
    · exact readBare?_of_head h
    · rw [h]
      exact readBare?_marks hx k
  | function parameters isAsync throwing result =>
    exact readBare?_function parameters isAsync throwing result

/-- The text inside a number of pairs of parentheses. -/
def enclosed : Nat → Text → Text
  | 0, t => t
  | n + 1, t => '(' :: (enclosed n t ++ [')'])

lemma wellSpelled_enclosed (n : Nat) (t : Ty) : WellSpelled (enclosed n t.print) := by
  induction n with
  | zero => exact t.wellSpelled
  | succ n ih => exact ih.round

/-- **Function types are recognised.**  Behind any qualifiers and inside any number of parentheses, the
reader finds the parts of a function type, and it finds nothing in any other type. -/
theorem read?_print (qs : List Separated) (n : Nat) (t : Ty) :
    read? (leading qs ++ enclosed n t.print) = t.functionType? := by
  have hspelled := wellSpelled_enclosed n t
  rw [read?, unqualified_leading qs hspelled.trim_eq hspelled.ne_nil, hspelled.unqualified_eq]
  induction n with
  | zero => exact readBare?_print t
  | succ n ih =>
    rw [enclosed, readBare?_round (wellSpelled_enclosed n t)]
    exact ih (wellSpelled_enclosed n t)

-- the parameters are split at the outermost comma, and the inner arrow does not end them
example : read? "@escaping ((_ value: (A, B) -> C, D) async throws -> E)".toList =
    some {
      parameters := ["(A, B) -> C".toList, "D".toList]
      isAsync := true
      throws := true
      result := "E".toList } := by
  decide +kernel

end FunctionType

end AsyncPeer.Spelling
