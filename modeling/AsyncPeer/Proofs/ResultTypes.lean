/-
# Result types are recognised

A throwing peer takes apart what its completion delivers, so it matters which types count as results.
On the types of the language these are `Result<S, F>`, alone or behind the module name `Swift`, and
nothing else: not with fewer or more arguments, not as the module or the member of another type, not
optional.  This is `result_recognised`.

A result type is a dotted name, and for dotted names the reader is followed step by step
(`ResultType.read?_dotted`): the module name is taken off, the word `Result` has to end where the name
ends, and the angle brackets close at their own closing bracket, however deep the arguments are nested.
Every other type has the wrong character in front or at the end (`ResultType.ends_of_read?`).
-/
import AsyncPeer.Delivery
import AsyncPeer.Proofs.FunctionTypes

namespace AsyncPeer.Spelling

/-! ### The results among the types -/

variable {α : Type}

/-- Two arguments, not fewer and not more. -/
def pair? : List α → Option (α × α)
  | [success, failure] => some (success, failure)
  | _ => none

/-- The arguments of a component that is a result. -/
def Component.resultArguments? (c : Component α) : Option (α × α) :=
  if c.name.text = "Result".toList then pair? c.args else none

/-- The component is the name of the module that results come from. -/
def Component.isResultModule (c : Component α) : Bool :=
  c.name.text == "Swift".toList && c.args.isEmpty

/-- The arguments of a dotted name that is a result. -/
def dottedArguments? : List (Component α) → Option (α × α)
  | [c] => c.resultArguments?
  | [m, c] => if m.isResultModule then c.resultArguments? else none
  | _ => none

/-- The types of the value and of the error, if the type is that of a result. -/
def Ty.resultArguments? : Ty → Option (Ty × Ty)
  | named first rest => dottedArguments? (first :: rest)
  | _ => none

lemma pair?_map {β : Type} (f : α → β) (args : List α) :
    pair? (args.map f) = (pair? args).map (Prod.map f f) := by
  rcases args with _ | ⟨a, _ | ⟨b, _ | ⟨c, cs⟩⟩⟩ <;> rfl

lemma resultArguments?_written (c : Component Ty) :
    (Ty.written c).resultArguments? = c.resultArguments?.map (Prod.map Ty.print Ty.print) := by
  rw [Component.resultArguments?, Component.resultArguments?, Ty.written, pair?_map]
  split <;> rfl

lemma isResultModule_written (c : Component Ty) :
    (Ty.written c).isResultModule = c.isResultModule := by
  simp only [Ty.written, Component.isResultModule, List.isEmpty_map]

/-- Writing a dotted name keeps its arguments. -/
lemma dottedArguments?_written (cs : List (Component Ty)) :
    dottedArguments? (cs.map Ty.written) =
      (dottedArguments? cs).map (Prod.map Ty.print Ty.print) := by
  rcases cs with _ | ⟨c, _ | ⟨d, _ | ⟨e, es⟩⟩⟩
  · rfl
  · exact resultArguments?_written c
  · simp only [List.map_cons, List.map_nil, dottedArguments?, isResultModule_written,
      resultArguments?_written]
    split <;> rfl
  · rfl

/-! ### Dotted names -/

/-- The argument list behind the word `Result`. -/
def argumentsBehind? (t : Text) : Option Text :=
  match (t.after? "Result".toList).map Text.trimStart with
  | some ('<' :: rest) => some ('<' :: rest)
  | _ => none

lemma resultArguments?_eq (t : Text) :
    resultArguments? t = argumentsBehind? ((t.after? "Swift.".toList).getD t) := rfl

section Word

variable {w r : Text} (hw : ∀ c ∈ w, Text.isWordChar c = true)
  (hr : ∀ c ∈ r.head?, c = '<' ∨ c = '.')

include hw hr

/-- A word is found in front only as the whole word. -/
lemma eq_of_after?_word {word rest : Text} (hword : ∀ c ∈ word, Text.isWordChar c = true)
    (hrest : ∀ c ∈ rest.head?, Text.isWordChar c = false)
    (h : Text.after? (w ++ r) word = some rest) : w = word ∧ r = rest := by
  refine append_inj_of_word hw hword (fun c hc => ?_) hrest (Text.eq_append_of_after? h)
  rcases hr c hc with rfl | rfl <;> decide

/-- An argument list is found only behind the word `Result` itself. -/
lemma eq_of_argumentsBehind? {u : Text} (h : argumentsBehind? (w ++ r) = some u) :
    w = "Result".toList ∧ r = u ∧ u.head? = some '<' := by
  unfold argumentsBehind? at h
  split at h
  · next rest hrest =>
    obtain rfl := Option.some.inj h
    obtain ⟨v, hv, htrim⟩ := Option.map_eq_some_iff.1 hrest
    -- what stands behind `Result` is a blank or the list itself, so the word ends there
    have hhead : ∀ c ∈ v.head?, Text.isWordChar c = false := by
      intro c hc
      obtain ⟨v', rfl⟩ : ∃ v', v = c :: v' := List.head?_eq_some_iff.1 hc
      by_cases hblank : Text.isBlank c = true
      · exact isWordChar_of_isBlank hblank
      · rw [Text.trimStart_cons_of_not_blank (by simpa using hblank)] at htrim
        rw [(List.cons.inj htrim).1]
        decide
    obtain ⟨rfl, rfl⟩ := eq_of_after?_word hw hr (List.all_eq_true.1 (by decide +kernel)) hhead hv
    have hstart : Text.trimStart r = r := by
      refine Text.trimStart_eq_self ?_
      intro c hc
      rcases hr c hc with rfl | rfl <;> decide
    exact ⟨rfl, hstart.symm.trans htrim, rfl⟩
  · cases h

end Word

lemma argumentsBehind?_result (r : Text) :
    argumentsBehind? ("Result".toList ++ '<' :: r) = some ('<' :: r) := by
  rw [argumentsBehind?, Text.after?_append, Option.map_some,
    Text.trimStart_cons_of_not_blank (by decide)]
  rfl

lemma writeArgs_of_ne_nil {args : List Text} (h : args ≠ []) (t : Text) :
    Component.writeArgs args ++ t = '<' :: (Text.join ", ".toList args ++ '>' :: t) := by
  rw [Component.writeArgs, if_neg (by simpa using h), List.cons_append, List.append_assoc]
  rfl

lemma head?_members (xs : List (Component Text)) : ∀ c ∈ (members xs).head?, c = '.' := by
  cases xs <;> simp [members]

/-- The arguments of a dotted name are found behind its first word, if that is `Result`. -/
lemma argumentsBehind?_dotted (x : Component Text) (xs : List (Component Text)) :
    argumentsBehind? (dotted (x :: xs)) =
      if x.name.text = "Result".toList ∧ x.args ≠ [] then
        some ('<' :: (Text.join ", ".toList x.args ++ '>' :: members xs))
      else none := by
  rw [dotted_cons]
  split
  · next h => rw [h.1, writeArgs_of_ne_nil h.2, argumentsBehind?_result]
  · next h =>
    by_contra hne
    obtain ⟨u, hu⟩ := Option.ne_none_iff_exists'.1 hne
    obtain ⟨hname, rfl, hhead⟩ := eq_of_argumentsBehind? x.name.chars (head?_behindName x.args xs) hu
    refine h ⟨hname, fun hargs => ?_⟩
    rw [hargs] at hhead
    exact absurd (head?_members xs '<' hhead) (by decide)

/-- The name of the module is found in front only as a component of the name. -/
lemma eq_of_after?_module {x : Component Text} {xs : List (Component Text)} {rest : Text}
    (h : (dotted (x :: xs)).after? "Swift.".toList = some rest) :
    x.isResultModule = true ∧ members xs = '.' :: rest := by
  have hsplit : x.name.text ++ (Component.writeArgs x.args ++ members xs) =
      "Swift".toList ++ '.' :: rest :=
    (dotted_cons x xs).symm.trans (@Text.eq_append_of_after? "Swift.".toList _ _ h)
  have hafter : Text.after? (x.name.text ++ (Component.writeArgs x.args ++ members xs))
      "Swift".toList = some ('.' :: rest) := by
    rw [hsplit, Text.after?_append]
  obtain ⟨hname, hrest⟩ := eq_of_after?_word x.name.chars (head?_behindName x.args xs)
    (List.all_eq_true.1 (by decide +kernel)) (by rintro c ⟨⟩; decide) hafter
  have hargs : x.args = [] := by
    by_contra hne
    rw [writeArgs_of_ne_nil hne] at hrest
    cases hrest
  rw [hargs] at hrest
  refine ⟨?_, hrest⟩
  rw [Component.isResultModule, hname, hargs]
  rfl

lemma after?_module {x : Component Text} (hx : x.isResultModule = true) (y : Component Text)
    (ys : List (Component Text)) :
    (dotted (x :: y :: ys)).after? "Swift.".toList = some (dotted (y :: ys)) := by
  obtain ⟨hname, hargs⟩ := Bool.and_eq_true_iff.1 hx
  rw [dotted_cons, eq_of_beq hname, List.isEmpty_iff.1 hargs]
  exact Text.after?_append "Swift.".toList (dotted (y :: ys))

/-! ### The two arguments -/

namespace ResultType

/-- The result type with the given arguments. -/
def ofPair (arguments : Text × Text) : ResultType :=
  ⟨arguments.1, arguments.2⟩

/-- The result type with the given argument list. -/
def readArguments? (arguments : Text) : Option ResultType := do
  let (inside, rest) ← group? arguments
  if !rest.isEmpty then none
  else
    match pieces ',' inside with
    | [success, failure] =>
      if success.isEmpty || failure.isEmpty then none
      else some { success := success.squeeze, failure := failure.squeeze }
    | _ => none

lemma read?_eq (t : Text) : read? t = (resultArguments? t.trim).bind readArguments? := rfl

/-- The arguments of a list are found, if there are two of them and nothing stands behind the list. -/
lemma readArguments?_list {args : List Text} (h : ∀ x ∈ args, WellSpelled x) (rest : Text) :
    readArguments? ('<' :: (Text.join ", ".toList args ++ '>' :: rest)) =
      if rest = [] then (pair? args).map ofPair else none := by
  have hpieces : pieces ',' (Text.join ", ".toList args) = args := by
    refine pieces_join ?_
    intro x hx
    exact ⟨(h x hx).balanced.mono fun _ hc => hc.1, (h x hx).trim_eq, (h x hx).ne_nil⟩
  have hgroup : group? ('<' :: (Text.join ", ".toList args ++ '>' :: rest)) =
      some (Text.join ", ".toList args, rest) :=
    (balanced_join_comma fun x hx => (h x hx).balanced.mono fun _ hc => hc.1).group?_eq .angle rest
  rw [readArguments?, hgroup]
  simp only [Option.bind_eq_bind, Option.bind_some, hpieces]
  cases rest with
  | cons c rest => rfl
  | nil =>
    rcases args with _ | ⟨s, _ | ⟨f, _ | ⟨t, ts⟩⟩⟩
    · rfl
    · rfl
    · have hs := h s (by simp)
      have hf := h f (by simp)
      have hempty : (s.isEmpty || f.isEmpty) = false := by simp [hs.ne_nil, hf.ne_nil]
      simp only [hempty, hs.squeeze_eq, hf.squeeze_eq]
      rfl
    · rfl

/-- A dotted name that is read from its first component on is a result if it has only that one. -/
lemma readArguments?_dotted {x : Component Text} (xs : List (Component Text))
    (h : ∀ t ∈ x.args, WellSpelled t) :
    (argumentsBehind? (dotted (x :: xs))).bind readArguments? =
      if xs = [] then x.resultArguments?.map ofPair else none := by
  have hmembers : members xs = [] ↔ xs = [] := by
    cases xs <;> simp [members]
  rw [argumentsBehind?_dotted, Component.resultArguments?]
  by_cases hname : x.name.text = "Result".toList
  · by_cases hargs : x.args = []
    · rw [if_neg (fun hboth => hboth.2 hargs), if_pos hname, hargs]
      cases xs <;> rfl
    · rw [if_pos ⟨hname, hargs⟩, Option.bind_some, readArguments?_list h, if_pos hname]
      simp only [hmembers]
  · rw [if_neg (fun hboth => hname hboth.1), if_neg hname]
    cases xs <;> rfl

/-- A dotted name is a result if its components say so. -/
lemma read?_dotted {x : Component Text} {xs : List (Component Text)}
    (h : ∀ c ∈ x :: xs, ∀ t ∈ c.args, WellSpelled t) :
    read? (dotted (x :: xs)) = (dottedArguments? (x :: xs)).map ofPair := by
  have hx := h x (by simp)
  rw [read?_eq, (wellSpelled_dotted h).trim_eq, resultArguments?_eq]
  cases hmodule : (dotted (x :: xs)).after? "Swift.".toList with
  | some rest =>
    -- the name of the module is taken off, and the other components are read
    obtain ⟨hx, hrest⟩ := eq_of_after?_module hmodule
    cases xs with
    | nil => cases hrest
    | cons y ys =>
      obtain rfl : dotted (y :: ys) = rest := (List.cons.inj hrest).2
      rw [Option.getD_some, readArguments?_dotted ys (h y (by simp))]
      cases ys with
      | nil => rw [if_pos rfl, dottedArguments?, if_pos hx]
      | cons z zs => rfl
  | none =>
    rw [Option.getD_none, readArguments?_dotted xs hx]
    cases xs with
    | nil => rfl
    | cons y ys =>
      have hx : ¬x.isResultModule = true := by
        intro hx
        rw [after?_module hx] at hmodule
        cases hmodule
      cases ys with
      | nil => rw [if_neg (by simp), dottedArguments?, if_neg hx]; rfl
      | cons z zs => rfl

/-! ### Other types -/

lemma exists_of_argumentsBehind? {t u : Text} (h : argumentsBehind? t = some u) :
    u.head? = some '<' ∧ ∃ x, t = "Result".toList ++ (x ++ u) := by
  unfold argumentsBehind? at h
  split at h
  · next rest hrest =>
    obtain rfl := Option.some.inj h
    obtain ⟨v, hv, htrim⟩ := Option.map_eq_some_iff.1 hrest
    obtain ⟨x, hx⟩ : '<' :: rest <:+ v := by
      rw [← htrim]
      exact List.dropWhile_suffix Text.isBlank
    exact ⟨rfl, x, by rw [hx]; exact Text.eq_append_of_after? hv⟩
  · cases h

/-- An argument list stands at the end, behind the name of the module or the name of the type. -/
lemma exists_of_resultArguments? {t u : Text} (h : resultArguments? t = some u) :
    u.head? = some '<' ∧ ∃ c x, t = c :: (x ++ u) ∧ (c = 'S' ∨ c = 'R') := by
  rw [resultArguments?_eq] at h
  obtain ⟨hhead, x, hx⟩ := exists_of_argumentsBehind? h
  refine ⟨hhead, ?_⟩
  have hregroup : ∀ a b : Text, a ++ (b ++ (x ++ u)) = a ++ (b ++ x) ++ u := by simp
  cases hmodule : t.after? "Swift.".toList with
  | none =>
    rw [hmodule, Option.getD_none] at hx
    exact ⟨'R', _, hx.trans (congrArg ('R' :: ·) (hregroup [] "esult".toList)), Or.inr rfl⟩
  | some rest =>
    rw [hmodule, Option.getD_some] at hx
    have ht := Text.eq_append_of_after? hmodule
    rw [hx] at ht
    exact ⟨'S', _, ht.trans (congrArg ('S' :: ·) (hregroup "wift.".toList _)), Or.inl rfl⟩

/-- Nothing stands behind the argument list of a result. -/
lemma getLast?_of_readArguments? {u : Text} {r : ResultType} (hu : u.head? = some '<')
    (h : readArguments? u = some r) : u.getLast? = some '>' := by
  obtain ⟨⟨inside, rest⟩, hgroup, hr⟩ := Option.bind_eq_some_iff.1 h
  obtain ⟨b, rfl⟩ := eq_of_group? hgroup
  obtain rfl : b = .angle := by
    cases b <;> first | rfl | exact absurd hu (by simp [Bracket.opening])
  cases rest with
  | nil => exact List.getLast?_concat
  | cons c rest => cases hr

/-- A result type begins with the name of the module or with its own name, and ends with its argument
list. -/
lemma ends_of_read? {t : Text} {r : ResultType} (h : read? t = some r) :
    (t.trim.head? = some 'S' ∨ t.trim.head? = some 'R') ∧ t.trim.getLast? = some '>' := by
  rw [read?_eq] at h
  obtain ⟨u, hu, hr⟩ := Option.bind_eq_some_iff.1 h
  obtain ⟨hless, c, x, hx, hc⟩ := exists_of_resultArguments? hu
  have hlast := getLast?_of_readArguments? hless hr
  have hne : u ≠ [] := by
    rintro rfl
    cases hless
  rw [hx]
  refine ⟨by simpa using hc, ?_⟩
  rw [← List.cons_append, List.getLast?_append_of_ne_nil _ hne, hlast]

/-- A type that begins with another character is no result. -/
lemma read?_of_head {t : Ty} {c : Char} (h : t.print.head? = some c) (hc : c ≠ 'S' ∧ c ≠ 'R') :
    read? t.print = none := by
  by_contra hne
  obtain ⟨r, hr⟩ := Option.ne_none_iff_exists'.1 hne
  have hends := (ends_of_read? hr).1
  rw [t.wellSpelled.trim_eq, h] at hends
  rcases hends with hends | hends
  · exact hc.1 (Option.some.inj hends)
  · exact hc.2 (Option.some.inj hends)

/-- An optional type is no result. -/
lemma read?_optional (t : Ty) : read? (Ty.optional t).print = none := by
  by_contra hne
  obtain ⟨r, hr⟩ := Option.ne_none_iff_exists'.1 hne
  have hlast := (ends_of_read? hr).2
  rw [(Ty.optional t).wellSpelled.trim_eq, Ty.print, List.getLast?_concat] at hlast
  cases hlast

/-- The reader finds a result exactly where there is one. -/
lemma read?_type (t : Ty) :
    read? t.print = t.resultArguments?.map fun r => ⟨r.1.print, r.2.print⟩ := by
  cases t with
  | named first rest =>
    have hspelled : ∀ c ∈ Ty.written first :: rest.map Ty.written, ∀ t ∈ c.args, WellSpelled t := by
      intro c hc t ht
      obtain ⟨d, -, rfl⟩ : ∃ d ∈ first :: rest, Ty.written d = c := List.mem_map.1 hc
      obtain ⟨u, -, rfl⟩ := List.mem_map.1 ht
      exact u.wellSpelled
    rw [Ty.print_named, read?_dotted hspelled, ← List.map_cons, dottedArguments?_written,
      Option.map_map]
    rfl
  | existential constraint => exact read?_of_head rfl (by decide)
  | array element => exact read?_of_head rfl (by decide)
  | dictionary key value => exact read?_of_head rfl (by decide)
  | unit => exact read?_of_head rfl (by decide)
  | tuple first second rest => exact read?_of_head rfl (by decide)
  | optional wrapped => exact read?_optional wrapped
  | function parameters isAsync throwing result => exact read?_of_head rfl (by decide)

end ResultType

/-! ### Completions -/

/-- The type of a completion that is called with a value of the given type. -/
def Ty.completion (t : Ty) : Ty :=
  function [{ type := t }] false .never
    (named { name := ⟨"Void".toList, by decide, List.all_eq_true.1 (by decide +kernel)⟩ } [])

lemma Ty.print_completion (t : Ty) : t.completion.print = '(' :: (t.print ++ ") -> Void".toList) := rfl

lemma payload?_completion (t : Ty) : Delivery.payload? t.completion.print = some t.print := by
  have hread : FunctionType.read? t.completion.print = t.completion.functionType? := by
    rw [FunctionType.read?, t.completion.wellSpelled.unqualified_eq, FunctionType.readBare?_print]
  rw [Delivery.payload?, hread]
  rfl

/-- **Results are recognised.**  The reader finds the two arguments of `Result<S, F>`, alone or behind the
module name, and it finds nothing in any other type.  So a throwing peer takes a completion for a
delivery of a result exactly if it is called with such a type. -/
theorem result_recognised (t : Ty) :
    ResultType.read? t.print =
      t.resultArguments?.map (fun r => ⟨r.1.print, r.2.print⟩) ∧
    ∀ checked : Bool,
      Delivery.ofType ('(' :: (t.print ++ ") -> Void".toList)) { checked, throwing := true } =
        match t.resultArguments? with
        | some (success, failure) => .ok (.result success.print failure.print)
        | none => .error .noResult := by
  have hread := ResultType.read?_type t
  refine ⟨hread, fun checked => ?_⟩
  rw [← Ty.print_completion, Delivery.ofType, payload?_completion]
  simp only [if_true, hread]
  cases t.resultArguments? <;> rfl

-- the comma between the parameters and the `>` of the arrow are inside the first argument
example : ResultType.read? "Result<[Key: (A, B) -> C], Error>".toList =
    some ⟨"[Key: (A, B) -> C]".toList, "Error".toList⟩ := by
  decide +kernel

end AsyncPeer.Spelling
