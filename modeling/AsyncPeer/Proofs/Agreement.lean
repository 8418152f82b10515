/-
# Header and body agree

Whether a peer throws is seen in four places: in what the completion delivers, in the way the body waits,
in the effects of the header and in the words in front of the primitive.  Whether the function belongs to
its type is decided by the modifiers of the function, and shows in those of the peer.  All of this is
found out at different places, and `header_body_agree` says that it always comes out the same.

What a header and a call say is read off their text: `Peer.shownEffects` are the effects behind the
parameter clause, and `WrittenCall.read` takes a call apart.
-/
import AsyncPeer.Proofs.SingleResume

namespace AsyncPeer

/-! ### The effects of a header -/

/-- The words for effects. -/
def effectKeywords : List Text :=
  ["async".toList, "throws".toList]

/-- The words that a header shows for its effects. -/
def shownWords (throws : Bool) : List Text :=
  if throws then ["async".toList, "throws".toList] else ["async".toList]

namespace Peer

/-- The effects that stand behind the parameter clause of the header. -/
def shownEffects (p : Peer) : List Text :=
  ((p.header.after? p.upToEffects).getD []).words.takeWhile effectKeywords.contains

/-- A word other than an effect ends the effects. -/
lemma takeWhile_words_of_word {w : Text} (hw : Text.IsWord w) (hother : w ∉ effectKeywords)
    (u : Text) : (Text.words ([' '] ++ (w ++ ' ' :: u))).takeWhile effectKeywords.contains = [] := by
  have hwords : Text.words ([' '] ++ (w ++ ' ' :: u)) = w :: u.words := by
    rw [Text.words_blank_append (by decide), Text.words_append_blank (by decide), hw.words_eq,
      List.singleton_append]
  rw [hwords, List.takeWhile_cons_of_neg (by simp [hother])]

/-- What a header has behind its effects. -/
def behindEffects (p : Peer) : Text :=
  (p.result?.map fun t => " -> ".toList ++ t).getD [] ++
    (p.requirements.map fun t => " where ".toList ++ t).getD []

lemma takeWhile_words_behindEffects (p : Peer) :
    p.behindEffects.words.takeWhile effectKeywords.contains = [] := by
  rw [behindEffects]
  cases p.result? with
  | some t =>
    have hsplit : " -> ".toList = [' '] ++ ("->".toList ++ [' ']) := by decide
    rw [Option.map_some, Option.getD_some, hsplit]
    simpa using takeWhile_words_of_word (w := "->".toList) (by decide) (by decide) (t ++ _)
  | none =>
    cases p.requirements with
    | some t =>
      have hsplit : " where ".toList = [' '] ++ ("where".toList ++ [' ']) := by decide
      rw [Option.map_some, Option.getD_some, hsplit]
      simpa using takeWhile_words_of_word (w := "where".toList) (by decide) (by decide) t
    | none => rfl

lemma words_effectWords_append (throws : Bool) {x : Text}
    (hx : x = [] ∨ ∃ u, x = ' ' :: u) : (effectWords throws ++ x).words = shownWords throws ++ x.words := by
  have hwords : (effectWords throws).words = shownWords throws := by
    cases throws <;> decide +kernel
  rcases hx with rfl | ⟨u, rfl⟩
  · rw [List.append_nil, hwords]
    exact (List.append_nil _).symm
  · rw [Text.words_append_blank (by decide), hwords, Text.words_cons_blank (by decide)]

lemma shownEffects_eq (p : Peer) : p.shownEffects = shownWords p.throws := by
  have hheader : p.header = p.upToEffects ++ (effectWords p.throws ++ p.behindEffects) := by
    rw [header_eq, effects, behindEffects]
    simp only [List.append_assoc]
  have hbehind : p.behindEffects = [] ∨ ∃ u, p.behindEffects = ' ' :: u := by
    rw [behindEffects]
    cases p.result? with
    | some t => exact Or.inr ⟨_, rfl⟩
    | none =>
      cases p.requirements with
      | some t => exact Or.inr ⟨_, rfl⟩
      | none => exact Or.inl rfl
  have hall : ∀ w ∈ shownWords p.throws, effectKeywords.contains w = true := by
    cases p.throws <;> decide
  rw [shownEffects, hheader, Text.after?_append, Option.getD_some, words_effectWords_append _ hbehind,
    List.takeWhile_append_of_pos hall, takeWhile_words_behindEffects, List.append_nil]

end Peer

lemma Delivery.isResult_of_ofType {type : Text} {w : Suspension} {d : Delivery}
    (h : ofType type w = .ok d) : d.isResult = w.throwing := by
  unfold ofType at h
  split at h
  · cases h
  · split at h
    · next hthrowing =>
      split at h
      · cases h
        rw [hthrowing]
        rfl
      · cases h
    · next hthrowing =>
      cases h
      have hplain : w.throwing = false := by simpa using hthrowing
      exact hplain.symm

/-! ### The modifiers of a peer -/

namespace Signature

variable (s : Signature) (all : Bool)

lemma sublist_keptModifiers : (s.keptModifiers all).Sublist s.modifiers :=
  List.filter_sublist

/-- The modifiers that decide how a function is called are kept in any case. -/
lemma filter_keptModifiers : (s.keptModifiers all).filter semanticModifiers.contains =
    s.modifiers.filter semanticModifiers.contains := by
  have hcarried : ∀ m ∈ semanticModifiers, carriedModifiers.contains m = true := by decide
  rw [keptModifiers, List.filter_filter]
  refine List.filter_congr fun m _ => ?_
  cases hm : semanticModifiers.contains m with
  | false => simp
  | true => simpa using hcarried m (by simpa using hm)

lemma mem_keptModifiers_iff {m : Text} (hm : m ∈ semanticModifiers) :
    m ∈ s.keptModifiers all ↔ m ∈ s.modifiers := by
  have hcontains : semanticModifiers.contains m = true := by simpa using hm
  have hsame : m ∈ (s.keptModifiers all).filter semanticModifiers.contains ↔
      m ∈ s.modifiers.filter semanticModifiers.contains := by rw [s.filter_keptModifiers all]
  simpa only [List.mem_filter, hcontains, and_true] using hsame

lemma isTypeMember_iff : s.isTypeMember = true ↔
    "static".toList ∈ s.keptModifiers all ∨ "class".toList ∈ s.keptModifiers all := by
  rw [s.mem_keptModifiers_iff all (by decide), s.mem_keptModifiers_iff all (by decide)]
  simp only [isTypeMember, List.any_eq_true, Bool.or_eq_true, beq_iff_eq]
  constructor
  · rintro ⟨m, hm, rfl | rfl⟩
    · exact Or.inl hm
    · exact Or.inr hm
  · rintro (h | h)
    · exact ⟨_, h, Or.inl rfl⟩
    · exact ⟨_, h, Or.inr rfl⟩

end Signature

/-! ### The call -/

/-- A call taken apart. -/
structure WrittenCall where
  /-- The result is thrown away. -/
  discards : Bool
  /-- On what the function is called. -/
  receiver : Receiver
  /-- The call from the name of the function on. -/
  rest : Text

/-- A call is read from the front. -/
def WrittenCall.read (t : Text) : WrittenCall :=
  let u := (t.after? "_ = ".toList).getD t
  { discards := t.startsWith "_ = ".toList
    receiver :=
      if u.startsWith "self.".toList then .instanceSelf
      else if u.startsWith "Self.".toList then .typeSelf
      else .none
    rest := ((u.after? "self.".toList).or (u.after? "Self.".toList)).getD u }

lemma Body.receiver_read {name tail : Text} (hname : isIdentifier name = true)
    (htail : ∀ c ∈ tail.head?, c = '(') (receiver : Receiver) :
    (if (receiver.lead ++ (name ++ tail)).startsWith "self.".toList then Receiver.instanceSelf
      else if (receiver.lead ++ (name ++ tail)).startsWith "Self.".toList then .typeSelf
      else .none) = receiver := by
  cases receiver with
  | instanceSelf =>
    have hself : Text.startsWith ("self.".toList ++ (name ++ tail)) "self.".toList = true := by
      rw [Text.startsWith, Text.after?_append, Option.isSome_some]
    exact if_pos hself
  | typeSelf =>
    have hself : Text.startsWith ("Self.".toList ++ (name ++ tail)) "self.".toList = false := rfl
    have htype : Text.startsWith ("Self.".toList ++ (name ++ tail)) "Self.".toList = true := by
      rw [Text.startsWith, Text.after?_append, Option.isSome_some]
    exact (if_neg (ne_true_of_eq_false hself)).trans (if_pos htype)
  | none =>
    have hself : Text.after? (name ++ tail) "self.".toList = none :=
      after?_word_eq_none hname htail "self".toList (by decide) (by decide) (by decide)
    have htype : Text.after? (name ++ tail) "Self.".toList = none :=
      after?_word_eq_none hname htail "Self".toList (by decide) (by decide) (by decide)
    exact (if_neg (ne_true_of_eq_false (congrArg Option.isSome hself))).trans
      (if_neg (ne_true_of_eq_false (congrArg Option.isSome htype)))

lemma WrittenCall.read_call (s : Signature) (hname : isIdentifier s.name = true) (arguments : Text) :
    read (Body.call s arguments) =
      ⟨s.returnsValue, s.receiver, s.name ++ Body.argumentList arguments⟩ := by
  have hopen := Body.head?_argumentList arguments
  have hdiscards : (Body.call s arguments).startsWith "_ = ".toList = s.returnsValue := by
    rw [Text.startsWith, Body.after?_discard_call s hname]
    cases s.returnsValue <;> rfl
  simp only [read, hdiscards, Body.call_without_discard s hname, Body.receiver_read hname hopen,
    Body.after?_receiver hname hopen]

/-! ### Agreement -/

/-- The call is made as the modifiers of the peer and the result of the function ask for. -/
structure WrittenCall.Suits (c : WrittenCall) (p : Peer) (s : Signature) : Prop where
  typeSelf : c.receiver = .typeSelf ↔
    s.isMember = true ∧ ("static".toList ∈ p.modifiers ∨ "class".toList ∈ p.modifiers)
  instanceSelf : c.receiver = .instanceSelf ↔
    s.isMember = true ∧ "static".toList ∉ p.modifiers ∧ "class".toList ∉ p.modifiers
  none : c.receiver = .none ↔ s.isMember = false
  discards : c.discards = true ↔ ∃ t, s.result = some t ∧ Spelling.isVoid t = false
  /-- Behind the receiver stands the name of the function. -/
  name : ∃ u, c.rest = s.name ++ u

/-- Header and body of a peer agree with each other, with the way in which it waits and with the function
that it stands for. -/
structure Peer.Agrees (p : Peer) (s : Signature) (w : Suspension) (style : Style) : Prop where
  throws : p.throws = true ↔ w.throwing = true
  delivery : (∃ success failure, p.delivery = .result success failure) ↔ w.throwing = true
  effects : p.shownEffects = ["async".toList, "throws".toList] ↔ w.throwing = true
  /-- There are no other effects than these and a lone `async`. -/
  effects_plain : p.shownEffects = ["async".toList] ↔ w.throwing = false
  /-- The first line shows the effects, and the second one calls the function. -/
  body : ∃ first second rest call, p.body = first :: second :: rest ∧
    (first.text.startsWith "try await".toList = true ↔ w.throwing = true) ∧
    second.text = call ++ Body.closure (Body.argument style p.delivery) ∧
    (WrittenCall.read call).Suits p s
  modifiers : p.modifiers.Sublist s.modifiers
  /-- These four modifiers stay, whatever else is left out. -/
  semantic :
    p.modifiers.filter (["static", "class", "mutating", "nonmutating"].map String.toList).contains =
      s.modifiers.filter (["static", "class", "mutating", "nonmutating"].map String.toList).contains

lemma Suspension.startsWith_awaiting (w : Suspension) (rest : Text) :
    (w.awaiting ++ ' ' :: rest).startsWith "try await".toList = w.throwing := by
  obtain ⟨checked, throwing⟩ := w
  cases throwing with
  | true =>
    have h : Text.after? ("try await".toList ++ ' ' :: rest) "try await".toList = some (' ' :: rest) :=
      Text.after?_append _ _
    exact congrArg Option.isSome h
  | false => rfl

lemma Signature.receiver_iff (s : Signature) (all : Bool) :
    (s.receiver = .typeSelf ↔ s.isMember = true ∧
      ("static".toList ∈ s.keptModifiers all ∨ "class".toList ∈ s.keptModifiers all)) ∧
    (s.receiver = .instanceSelf ↔ s.isMember = true ∧
      "static".toList ∉ s.keptModifiers all ∧ "class".toList ∉ s.keptModifiers all) ∧
    (s.receiver = .none ↔ s.isMember = false) := by
  rw [← not_or, ← s.isTypeMember_iff all, receiver]
  cases s.isMember <;> cases s.isTypeMember <;> simp

lemma Signature.returnsValue_iff (s : Signature) :
    s.returnsValue = true ↔ ∃ t, s.result = some t ∧ Spelling.isVoid t = false := by
  rw [returnsValue]
  cases s.result <;> simp

lemma shownWords_iff (throws : Bool) :
    (shownWords throws = ["async".toList, "throws".toList] ↔ throws = true) ∧
      (shownWords throws = ["async".toList] ↔ throws = false) := by
  cases throws <;> decide

/-- **Header and body agree.**  The effects of the header, the delivery of the completion and the words in
front of the primitive all say whether the way of waiting throws.  The peer keeps the modifiers that
decide how the function is called, whatever else it leaves out, and the call is made on the type, on the
instance or on nothing as these modifiers say.  Its result is thrown away where the function has one. -/
theorem header_body_agree {s : Signature} {w : Suspension} {style : Style} {p : Peer}
    (h : Peer.of (.function s) w style = .ok p) (hname : isIdentifier s.name = true) :
    p.Agrees s w style := by
  obtain ⟨s', completion, hs, -, -, hdelivery, -, -, hp⟩ := Peer.of_eq_ok h
  obtain rfl : s = s' := Declaration.function.inj hs
  have hmodifiers : p.modifiers = s.keptModifiers style.keepsModifiers := congrArg Peer.modifiers hp
  have hbody : p.body = Body.lines s p.delivery w _ style := congrArg Peer.body hp
  have hthrows : p.throws = w.throwing := Delivery.isResult_of_ofType hdelivery
  obtain ⟨htype, hinstance, hnone⟩ := s.receiver_iff style.keepsModifiers
  rw [← hmodifiers] at htype hinstance
  have hcall := WrittenCall.read_call s hname
    (Forwarding.forms style.wildcard s.passedOn).arguments
  refine ⟨by rw [hthrows], ?_, ?_, ?_, ?_, ?_, ?_⟩
  · rw [← hthrows, Peer.throws]
    cases p.delivery <;> simp [Delivery.isResult]
  · rw [p.shownEffects_eq, hthrows]
    exact (shownWords_iff w.throwing).1
  · rw [p.shownEffects_eq, hthrows]
    exact (shownWords_iff w.throwing).2
  · refine ⟨_, _, _, _, hbody, ?_, rfl, ?_⟩
    · rw [List.append_assoc, List.cons_append, w.startsWith_awaiting]
    · rw [hcall]
      exact ⟨htype, hinstance, hnone, s.returnsValue_iff, _, rfl⟩
  · rw [hmodifiers]
    exact s.sublist_keptModifiers style.keepsModifiers
  · rw [hmodifiers]
    exact s.filter_keptModifiers style.keepsModifiers

/-- A static function with a result of its own, whose completion delivers a result. -/
def refreshFunction : Signature where
  name := "refresh".toList
  modifiers := ["override".toList, "public".toList, "static".toList]
  parameters := [
    { name := "token".toList, type := "Token".toList },
    { name := "done".toList, type := "@escaping (Result<Void, Error>) -> Void".toList }]
  result := some "Bool".toList
  requirements := some "Token: Codable".toList

/-- Its peer, with no more modifiers than are needed. -/
def refreshPeer : Peer where
  name := "refresh".toList
  modifiers := ["static".toList]
  generics := none
  clause := "token: Token".toList
  delivery := .result "Void".toList "Error".toList
  requirements := some "Token: Codable".toList
  suspension := { checked := false, throwing := true }
  body := [
    ⟨0, "try await withUnsafeThrowingContinuation \x7b continuation in".toList⟩,
    ⟨1, "_ = Self.refresh(token: token) \x7b result in".toList⟩,
    ⟨2, "switch result \x7b".toList⟩,
    ⟨2, "case .success(let value):".toList⟩,
    ⟨3, "continuation.resume(returning: value)".toList⟩,
    ⟨2, "case .failure(let error):".toList⟩,
    ⟨3, "continuation.resume(throwing: error)".toList⟩,
    ⟨2, "\x7d".toList⟩,
    ⟨1, "\x7d".toList⟩,
    ⟨0, "\x7d".toList⟩]

/-- A function with two modifiers that exclude each other.  Both are kept, in their order. -/
def drainFunction : Signature where
  name := "drain".toList
  modifiers := ["nonmutating".toList, "override".toList, "private".toList, "mutating".toList]
  parameters := [
    { label := some "into".toList, name := "sink".toList, type := "Sink".toList },
    { name := "done".toList, type := "(Int) -> Void".toList }]

/-- Its peer, with no more modifiers than are needed. -/
def drainPeer : Peer where
  name := "drain".toList
  modifiers := ["nonmutating".toList, "mutating".toList]
  generics := none
  clause := "into sink: Sink".toList
  delivery := .value "Int".toList
  requirements := none
  suspension := {}
  body := [
    ⟨0, "await withCheckedContinuation \x7b continuation in".toList⟩,
    ⟨1, "self.drain(into: sink) \x7b object in".toList⟩,
    ⟨2, "continuation.resume(returning: object)".toList⟩,
    ⟨1, "\x7d".toList⟩,
    ⟨0, "\x7d".toList⟩]

theorem refresh_drain_agree :
    (Peer.of (.function refreshFunction) { checked := false, throwing := true }
        { keepsModifiers := false } = .ok refreshPeer ∧
      isIdentifier refreshFunction.name = true ∧
      refreshPeer.header =
        "static func refresh(token: Token) async throws where Token: Codable".toList ∧
      refreshPeer.Agrees refreshFunction { checked := false, throwing := true }
        { keepsModifiers := false }) ∧
    (Peer.of (.function drainFunction) {} { keepsModifiers := false } = .ok drainPeer ∧
      isIdentifier drainFunction.name = true ∧
      drainPeer.header = "nonmutating mutating func drain(into sink: Sink) async -> Int".toList ∧
      drainPeer.Agrees drainFunction {} { keepsModifiers := false }) := by
  have hrefresh : Peer.of (.function refreshFunction) { checked := false, throwing := true }
      { keepsModifiers := false } = .ok refreshPeer := by decide +kernel
  have hdrain : Peer.of (.function drainFunction) {} { keepsModifiers := false } = .ok drainPeer := by
    decide +kernel
  have hrefreshName : isIdentifier refreshFunction.name = true := by decide +kernel
  have hdrainName : isIdentifier drainFunction.name = true := by decide +kernel
  exact ⟨⟨hrefresh, hrefreshName, by decide +kernel, header_body_agree hrefresh hrefreshName⟩,
    hdrain, hdrainName, by decide +kernel, header_body_agree hdrain hdrainName⟩

end AsyncPeer
