/-
# Types that are delivered

What a completion delivers is named in the header of the peer, so it should be a type.  The readers of
results and of function types turn down spellings in which a type is missing: a result has two arguments
that are not empty, and something stands behind an arrow.  The type of a parameter is not looked at like
that.  It is what is left of the parameter without its label and its qualifiers, and of `(value:) -> Void`
and of `(@escaping) -> Void` nothing is left.

`delivered_types` says what is known of every type that is delivered.  It is squeezed; and it is missing
exactly if the peer does not throw and nothing but a label and qualifiers stands where the completion
shows its parameter (`ShowsNothing`).  The same is true of the type that a peer returns.
-/
import AsyncPeer.Proofs.Eligibility
import AsyncPeer.Proofs.FunctionTypes
import AsyncPeer.Proofs.HeaderReading
import AsyncPeer.Proofs.Unqualified

namespace AsyncPeer

namespace Spelling

/-! ### What a completion shows -/

/-- The unqualified spelling of a function type shows its only parameter, as it is written in the
parameter clause.  There may be redundant parentheses around the function type. -/
inductive ShowsParameter : Text → Text → Prop
  | clause {cs inside rest p : Text} (hgroup : group? ('(' :: cs) = some (inside, rest))
      (hrest : rest.blank = false) (hpieces : pieces ',' inside = [p]) : ShowsParameter ('(' :: cs) p
  | enclosed {cs inside rest p : Text} (hgroup : group? ('(' :: cs) = some (inside, rest))
      (hrest : rest.blank = true) (hone : (pieces ',' inside).length = 1)
      (h : ShowsParameter (unqualified inside) p) : ShowsParameter ('(' :: cs) p

/-- The qualifier ends where the text begins.  The name of an attribute would go on, or be followed by an
argument list, and a specifier has to be set off by a blank. -/
def Qualifier.EndsBefore : Qualifier → Text → Prop
  | bare _, t => ∀ c ∈ t.head?, isAttributeChar c = false ∧ c ≠ '('
  | applied _ _ _, _ => True
  | specifier _ _, t => ∃ c ∈ t.head?, Text.isBlank c = true

/-- Qualifiers one after the other, and nothing behind the last one. -/
inductive OnlyQualifiers : Text → Prop
  | nothing : OnlyQualifiers []
  | qualifier {gap rest : Text} (q : Qualifier) (hgap : gap.blank = true)
      (hends : q.EndsBefore (gap ++ rest)) (hrest : OnlyQualifiers rest) :
      OnlyQualifiers (q.text ++ (gap ++ rest))

/-- What a parameter names as its type: what is written behind its label. -/
def writtenType (p : Text) : Text :=
  ((behind? ':' (outermost p)).getD p).trim

/-- Where the completion shows its parameter, there is nothing but a label and qualifiers. -/
def ShowsNothing (type : Text) : Prop :=
  ∃ p, ShowsParameter (unqualified type) p ∧ OnlyQualifiers (writtenType p)

/-! ### Qualifiers and nothing else -/

lemma afterQualifier?_of_endsBefore {q : Qualifier} {t : Text} (h : q.EndsBefore t) :
    afterQualifier? (q.text ++ t) = some t.trimStart := by
  cases q with
  | bare name =>
    have hdrop : (name.rest ++ t).dropWhile isAttributeChar = t :=
      dropWhile_append_of_head name.continues fun c hc => (h c hc).1
    have hround : t.head? ≠ some '(' := fun hopen => (h '(' hopen).2 rfl
    rw [afterQualifier?, Qualifier.text, List.cons_append, List.cons_append, afterAttribute?_cons,
      if_pos name.starts, hdrop, afterArguments?_of_head hround]
    rfl
  | applied name args closed =>
    rw [afterQualifier?, Qualifier.text, List.cons_append, List.cons_append,
      afterAttribute?_applied name closed]
    rfl
  | specifier word known =>
    obtain ⟨c, hc, hblank⟩ := h
    obtain ⟨u, rfl⟩ := List.head?_eq_some_iff.1 hc
    exact afterQualifier?_text (.specifier word known) hblank u

lemma exists_attributeName {c : Char} (hc : isAttributeStart c = true) (cs : Text) :
    ∃ name : AttributeName,
      '@' :: c :: cs = '@' :: name.first :: (name.rest ++ cs.dropWhile isAttributeChar) :=
  ⟨⟨c, cs.takeWhile isAttributeChar, hc, fun _ => List.mem_takeWhile_imp⟩,
    by rw [List.takeWhile_append_dropWhile]⟩

lemma exists_of_afterAttribute? {t rest : Text} (h : afterAttribute? t = some rest) :
    ∃ q : Qualifier, t = q.text ++ rest ∧ q.EndsBefore rest := by
  unfold afterAttribute? at h
  split at h
  · next c cs =>
    split at h
    · next hstarts =>
      obtain ⟨name, ht⟩ := exists_attributeName hstarts cs
      change afterArguments? (cs.dropWhile isAttributeChar) = some rest at h
      rw [ht]
      by_cases hopen : (cs.dropWhile isAttributeChar).head? = some '('
      · obtain ⟨args, hargs⟩ := List.head?_eq_some_iff.1 hopen
        rw [hargs] at h ⊢
        obtain ⟨⟨inside, u⟩, hgroup, rfl⟩ := Option.map_eq_some_iff.1 h
        have hclosed : Bracket.round.untilClosed 0 .outside false args = some (inside, u) := hgroup
        have hself : group? ('(' :: (inside ++ [')'])) = some (inside, []) := untilClosed_behind hclosed []
        have hwhole : args = inside ++ ')' :: u := Bracket.eq_of_untilClosed hclosed
        exact ⟨.applied name inside hself, by simp [Qualifier.text, hwhole], trivial⟩
      · rw [afterArguments?_of_head hopen] at h
        obtain rfl := Option.some.inj h
        refine ⟨.bare name, rfl, fun d hd => ⟨?_, ?_⟩⟩
        · have hhead := List.head?_dropWhile_not isAttributeChar cs
          rw [Option.mem_def.1 hd] at hhead
          simpa using hhead
        · rintro rfl
          exact hopen hd
    · cases h
  · cases h

/-- A qualifier is taken away exactly if the text begins with it and it ends there. -/
lemma afterQualifier?_eq_some_iff {t rest : Text} :
    afterQualifier? t = some rest ↔
      ∃ (q : Qualifier) (u : Text), t = q.text ++ u ∧ q.EndsBefore u ∧ u.trimStart = rest := by
  constructor
  · intro h
    obtain ⟨u, hu, rfl⟩ := Option.map_eq_some_iff.1 h
    rcases Option.or_eq_some_iff.1 hu with hattribute | ⟨-, hspecifier⟩
    · obtain ⟨q, ht, hends⟩ := exists_of_afterAttribute? hattribute
      exact ⟨q, u, ht, hends, rfl⟩
    · obtain ⟨word, hword, hafter⟩ := List.exists_of_findSome?_eq_some hspecifier
      obtain ⟨ht, c, v, rfl, hc⟩ := exists_of_afterSpecifier? hafter
      exact ⟨.specifier word hword, c :: v, ht, ⟨c, rfl, hc⟩, rfl⟩
  · rintro ⟨q, u, rfl, hends, rfl⟩
    exact afterQualifier?_of_endsBefore hends

lemma OnlyQualifiers.head? {t : Text} (h : OnlyQualifiers t) : ∀ c ∈ t.head?, Text.isBlank c = false := by
  cases h with
  | nothing => nofun
  | qualifier q hgap hends hrest =>
    obtain ⟨c, u, htext, hc⟩ := q.head?_text
    rw [htext]
    intro d hd
    obtain rfl := Option.some.inj hd
    exact hc

lemma dropQualifiers_eq_nil_iff {t : Text} : dropQualifiers t = [] ↔ OnlyQualifiers t := by
  constructor
  · intro hnil
    fun_induction dropQualifiers t with
    | case1 t rest h ih =>
      obtain ⟨q, u, rfl, hends, rfl⟩ := afterQualifier?_eq_some_iff.1 h
      have hsplit : u.takeWhile Text.isBlank ++ u.trimStart = u := List.takeWhile_append_dropWhile
      rw [← hsplit] at hends ⊢
      exact .qualifier q List.all_takeWhile hends (ih hnil)
    | case2 t h =>
      obtain rfl := hnil
      exact .nothing
  · intro honly
    induction honly with
    | nothing => exact dropQualifiers_of_none rfl
    | qualifier q hgap hends hrest ih =>
      have htrim : Text.trimStart (_ ++ _) = _ :=
        (Text.trimStart_of_blank_append hgap).trans (Text.trimStart_eq_self hrest.head?)
      rw [dropQualifiers_of_some (afterQualifier?_eq_some_iff.2 ⟨q, _, rfl, hends, htrim⟩), ih]

lemma parameterType_eq_nil_iff {p : Text} : parameterType p = [] ↔ OnlyQualifiers (writtenType p) := by
  have htrim := trim_dropQualifiers (Text.trim_trim ((behind? ':' (outermost p)).getD p))
  rw [← dropQualifiers_eq_nil_iff, parameterType, unqualified, writtenType]
  constructor
  · intro hnil
    rw [← htrim, Text.trim_eq_nil_iff, ← Text.blank_squeeze, hnil]
    rfl
  · intro hnil
    rw [hnil]
    rfl

lemma isEmpty_trim (t : Text) : t.trim.isEmpty = t.blank := by
  rw [Bool.eq_iff_iff, List.isEmpty_iff, Text.trim_eq_nil_iff]

/-- The parameter that is shown is the one whose type is read. -/
lemma ShowsParameter.parameters_eq {t p : Text} (h : ShowsParameter t p) {f : FunctionType}
    (hf : FunctionType.readBare? t = some f) : f.parameters = [parameterType p] := by
  induction h with
  | clause hgroup hrest hpieces =>
    rw [FunctionType.readBare?_of_group hgroup, isEmpty_trim, hrest, if_neg (by decide)] at hf
    obtain ⟨effects, -, rfl⟩ := Option.map_eq_some_iff.1 hf
    dsimp only
    rw [hpieces]
    rfl
  | enclosed hgroup hrest hone h ih =>
    rw [FunctionType.readBare?_of_group hgroup, isEmpty_trim, hrest, if_pos rfl, if_pos hone] at hf
    exact ih hf

lemma exists_showsParameter {t : Text} {f : FunctionType} {payload : Text}
    (hf : FunctionType.readBare? t = some f) (hone : f.parameters = [payload]) :
    ∃ p, ShowsParameter t p ∧ parameterType p = payload := by
  fun_induction FunctionType.readBare? t with
  | case1 cs hgroup => cases hf
  | case2 cs inside rest hgroup trimmed hempty hpieces ih =>
    obtain ⟨p, hp, htype⟩ := ih hf
    exact ⟨p, .enclosed hgroup (by rwa [← isEmpty_trim]) hpieces hp, htype⟩
  | case3 cs inside rest hgroup trimmed hempty hpieces => cases hf
  | case4 cs inside rest hgroup trimmed hempty =>
    obtain ⟨effects, -, rfl⟩ := Option.map_eq_some_iff.1 hf
    obtain ⟨p, hpieces, htype⟩ := List.map_eq_singleton_iff.1 hone
    refine ⟨p, .clause hgroup ?_ hpieces, htype⟩
    rw [← isEmpty_trim]
    simpa using hempty
  | case5 t hhead => cases hf

/-- The one type that a completion is called with is missing if it shows nothing there. -/
lemma payload_eq_nil_iff {type payload : Text} (h : Delivery.payload? type = some payload) :
    payload = [] ↔ ShowsNothing type := by
  obtain ⟨f, hf, hone, -⟩ := Signature.payload?_eq_some_iff.1 h
  obtain ⟨p, hp, htype⟩ := exists_showsParameter hf hone
  constructor
  · rintro rfl
    exact ⟨p, hp, parameterType_eq_nil_iff.1 htype⟩
  · rintro ⟨q, hq, hnothing⟩
    have hparameters := hq.parameters_eq hf
    rw [hone, parameterType_eq_nil_iff.2 hnothing] at hparameters
    exact List.singleton_inj.1 hparameters

/-! ### The arguments of a result -/

lemma trim_of_mem_pieces {sep : Char} {t u : Text} (h : u ∈ pieces sep t) : u.trim = u := by
  rw [pieces] at h
  split at h
  · cases h
  · obtain ⟨segment, -, rfl⟩ := List.mem_map.1 h
    exact Text.trim_trim segment

/-- The arguments of a result are squeezed, and none of them is missing. -/
lemma ResultType.named_of_read? {t : Text} {r : ResultType} (h : read? t = some r) :
    ∀ u ∈ [r.success, r.failure], u.squeeze = u ∧ u.blank = false := by
  have hargument : ∀ {inside u : Text}, u ∈ pieces ',' inside → u.isEmpty = false →
      u.squeeze.squeeze = u.squeeze ∧ u.squeeze.blank = false := by
    intro inside u hu hne
    refine ⟨Text.squeeze_squeeze u, ?_⟩
    rw [Text.blank_squeeze, ← isEmpty_trim, trim_of_mem_pieces hu, hne]
  obtain ⟨inside, success, failure, hpieces, hsuccess, hfailure, rfl⟩ := Source.arguments_of_read? h
  simp only [List.forall_mem_cons]
  exact ⟨hargument (by rw [hpieces]; simp) hsuccess, hargument (by rw [hpieces]; simp) hfailure,
    by simp⟩

end Spelling

/-! ### Deliveries and peers -/

open Spelling

/-- The types that a delivery names. -/
def Delivery.types : Delivery → List Text
  | value payload => [payload]
  | result success failure => [success, failure]

lemma Delivery.returned_mem_types (d : Delivery) : d.returned ∈ d.types := by
  cases d <;> exact List.mem_cons_self

/-- What is known of a type that a completion of the given type delivers. -/
structure IsDeliveredType (type : Text) (w : Suspension) (t : Text) : Prop where
  squeezed : t.squeeze = t
  blank_iff : t.blank = true ↔ w.throwing = false ∧ ShowsNothing type

lemma isDeliveredType_of_mem_types {type : Text} {w : Suspension} {d : Delivery}
    (h : Delivery.ofType type w = .ok d) : ∀ t ∈ d.types, IsDeliveredType type w t := by
  unfold Delivery.ofType at h
  split at h
  · cases h
  · next payload hpayload =>
    cases hthrowing : w.throwing with
    | true =>
      rw [hthrowing, if_pos rfl] at h
      split at h
      · next r hr =>
        obtain rfl := Except.ok.inj h
        intro t ht
        obtain ⟨hsqueezed, hblank⟩ := ResultType.named_of_read? hr t ht
        exact ⟨hsqueezed, by simp [hthrowing, hblank]⟩
      · cases h
    | false =>
      rw [hthrowing, if_neg (by decide)] at h
      obtain rfl := Except.ok.inj h
      intro t ht
      obtain rfl := List.mem_singleton.1 ht
      have hsqueezed := Source.squeeze_of_payload? hpayload
      refine ⟨hsqueezed, ?_⟩
      rw [← payload_eq_nil_iff hpayload, ← Text.trim_eq_nil_iff, Text.trim_of_squeezed hsqueezed]
      simp [hthrowing]

/-- **Every type that is delivered is laid out, and it is missing only where the completion shows none.**
This is true of what a completion delivers and of what a peer returns. -/
theorem delivered_types (w : Suspension) :
    (∀ type d, Delivery.ofType type w = .ok d → ∀ t ∈ d.types, IsDeliveredType type w t) ∧
      ∀ d style p, Peer.of d w style = .ok p →
        ∃ s completion, d = .function s ∧ s.completion? = some completion ∧
          ∀ t ∈ p.result?, IsDeliveredType completion.type w t := by
  refine ⟨fun type d h => isDeliveredType_of_mem_types h, fun d style p h => ?_⟩
  obtain ⟨s, completion, hs, hcompletion, -, hdelivery, -⟩ := Peer.of_eq_ok h
  refine ⟨s, completion, hs, hcompletion, fun t ht => ?_⟩
  refine isDeliveredType_of_mem_types hdelivery t ?_
  rw [Peer.result?, Option.mem_def] at ht
  split at ht
  · cases ht
  · obtain rfl := Option.some.inj ht
    exact p.delivery.returned_mem_types

/-- A function whose completion has a label with no type behind it. -/
def untypedDelivery : Signature where
  name := "load".toList
  parameters := [{ name := "done".toList, type := "(value:) -> Void".toList }]

theorem delivered_types_labelled :
    Delivery.ofType "(_ value: @Sendable\n (Int) -> Void) -> Void".toList {} =
        .ok (.value "(Int) -> Void".toList) ∧
      ¬ShowsNothing "(_ value: @Sendable\n (Int) -> Void) -> Void".toList ∧
      ∃ p, Peer.of (.function untypedDelivery) {} {} = .ok p ∧ p.result? = some [] ∧
        ShowsNothing "(value:) -> Void".toList := by
  obtain ⟨hdelivered, hreturned⟩ := delivered_types {}
  have htype : Delivery.ofType "(_ value: @Sendable\n (Int) -> Void) -> Void".toList {} =
      .ok (.value "(Int) -> Void".toList) := by
    decide +kernel
  have hshown := hdelivered _ _ htype _ (List.mem_singleton_self _)
  have hresult : (Peer.of (.function untypedDelivery) {} {}).map Peer.result? = .ok (some []) := by
    decide +kernel
  refine ⟨htype, fun hnothing => absurd (hshown.blank_iff.2 ⟨rfl, hnothing⟩) (by decide), ?_⟩
  cases hp : Peer.of (.function untypedDelivery) {} {} with
  | error r =>
    rw [hp] at hresult
    cases hresult
  | ok p =>
    rw [hp] at hresult
    have hnone : p.result? = some [] := Except.ok.inj hresult
    obtain ⟨s, completion, hs, hcompletion, hall⟩ := hreturned _ _ p hp
    obtain rfl := Declaration.function.inj hs
    obtain rfl := Option.some.inj hcompletion
    exact ⟨p, rfl, hnone, ((hall [] hnone).blank_iff.1 rfl).2⟩

/-- A label alone, or qualifiers alone, are taken for a parameter without a type, and nothing stands
behind the arrow of the peer. -/
theorem untypedDelivery_header :
    Delivery.ofType "(value:) -> Void".toList {} = .ok (.value []) ∧
      Delivery.ofType "((@escaping @Sendable) -> Void)".toList {} = .ok (.value []) ∧
      (Peer.of (.function untypedDelivery) {} {}).map Peer.header =
        .ok "func load() async -> ".toList := by
  decide +kernel

end AsyncPeer
