/-
# Which declarations have a peer

A declaration has a peer if it meets a list of conditions, and otherwise the first condition that it
does not meet is the reason for the refusal.  `Declaration.conditions` is this list.  It speaks about
the declaration and the way of waiting only, and so the style has no part in the decision.

The stages of `Peer.of` are compared with the list one by one.  `DecidedBy` says what it means that a
stage is decided by a list of conditions, and `DecidedBy.bind` puts the lists of two stages one behind
the other.  The stage that looks for a completion and the one that looks at its type both ask for a
function type with the same refusal; `Peer.of_function` shows that the first adds nothing to the
second.
-/
import AsyncPeer.Proofs.HeaderTree

namespace AsyncPeer

/-! ### Conditions in order -/

/-- A condition, and the reason that is given where it is not met. -/
structure Condition where
  holds : Prop
  refusal : Refusal

/-- The reason that belongs to the first condition that is not met. -/
inductive FirstUnmet : List Condition → Refusal → Prop
  | here {c : Condition} {cs : List Condition} (h : ¬ c.holds) : FirstUnmet (c :: cs) c.refusal
  | later {c : Condition} {cs : List Condition} {r : Refusal} (h : c.holds) (hr : FirstUnmet cs r) :
    FirstUnmet (c :: cs) r

/-- The outcome is that of going through the conditions in order: a success if all are met, and
otherwise the refusal of the first that is not. -/
def DecidedBy {α : Type} (cs : List Condition) : Except Refusal α → Prop
  | .ok _ => ∀ c ∈ cs, c.holds
  | .error r => FirstUnmet cs r

namespace FirstUnmet

variable {cs ds : List Condition} {r r' : Refusal}

lemma not_forall (h : FirstUnmet cs r) : ¬ ∀ c ∈ cs, c.holds := by
  induction h with
  | here h => exact fun hall => h (hall _ List.mem_cons_self)
  | later _ _ ih => exact fun hall => ih fun c hc => hall c (List.mem_cons_of_mem _ hc)

lemma unique (h : FirstUnmet cs r) (h' : FirstUnmet cs r') : r = r' := by
  induction h with
  | here h =>
    cases h' with
    | here _ => rfl
    | later hc _ => exact absurd hc h
  | later hc _ ih =>
    cases h' with
    | here h => exact absurd hc h
    | later _ hr => exact ih hr

lemma append_right (h : FirstUnmet cs r) (ds : List Condition) : FirstUnmet (cs ++ ds) r := by
  induction h with
  | here h => exact here h
  | later hc _ ih => exact later hc ih

lemma append_left (hcs : ∀ c ∈ cs, c.holds) (h : FirstUnmet ds r) : FirstUnmet (cs ++ ds) r := by
  induction cs with
  | nil => exact h
  | cons c cs ih =>
    obtain ⟨hc, hcs⟩ := List.forall_mem_cons.1 hcs
    exact later hc (ih hcs)

end FirstUnmet

namespace DecidedBy

variable {α β : Type} {cs ds : List Condition} {x : Except Refusal α}

lemma exists_ok_iff (h : DecidedBy cs x) : (∃ a, x = .ok a) ↔ ∀ c ∈ cs, c.holds := by
  cases x with
  | ok a => exact ⟨fun _ => h, fun _ => ⟨a, rfl⟩⟩
  | error r => exact ⟨by rintro ⟨a, ⟨⟩⟩, fun hall => absurd hall (FirstUnmet.not_forall h)⟩

lemma eq_error_iff (h : DecidedBy cs x) (r : Refusal) : x = .error r ↔ FirstUnmet cs r := by
  cases x with
  | ok a => exact ⟨by rintro ⟨⟩, fun hr => absurd h hr.not_forall⟩
  | error r' =>
    constructor
    · rintro ⟨⟩
      exact h
    · intro hr
      rw [FirstUnmet.unique h hr]

/-- Two stages, one after the other. -/
lemma bind {f : α → Except Refusal β} (hx : DecidedBy cs x)
    (hf : ∀ a, x = .ok a → DecidedBy ds (f a)) : DecidedBy (cs ++ ds) (x >>= f) := by
  cases x with
  | error r => exact FirstUnmet.append_right hx ds
  | ok a =>
    have hfa := hf a rfl
    change DecidedBy (cs ++ ds) (f a)
    cases hb : f a with
    | error r =>
      rw [hb] at hfa
      exact FirstUnmet.append_left hx hfa
    | ok b =>
      rw [hb] at hfa
      exact List.forall_mem_append.2 ⟨hx, hfa⟩

/-- One test in front of the others. -/
lemma test {p : Prop} [Decidable p] (r : Refusal) (hx : DecidedBy cs x) :
    DecidedBy (⟨¬ p, r⟩ :: cs) (if p then .error r else x) := by
  by_cases hp : p
  · rw [if_pos hp]
    exact FirstUnmet.here (c := ⟨¬ p, r⟩) (fun h => h hp)
  · rw [if_neg hp]
    cases x with
    | ok a => exact List.forall_mem_cons.2 ⟨hp, hx⟩
    | error _ => exact FirstUnmet.later hp hx

end DecidedBy

/-! ### The conditions of a peer -/

/-- The last parameter is a completion for one value of the type `payload`: its type is that of a
function with one argument, no effects and no result. -/
def Signature.Delivers (s : Signature) (payload : Text) : Prop :=
  ∃ q f, s.parameters.getLast? = some q ∧ Spelling.FunctionType.read? q.type = some f ∧
    f.parameters = [payload] ∧ f.isAsync = false ∧ f.throws = false ∧
    Spelling.isVoid f.result = true

/-- What has to hold for a parameter that is handed on. -/
def Parameter.conditions (q : Parameter) : List Condition :=
  [⟨¬ q.name.blank, .unnamedParameter⟩,
    ⟨¬ q.type.blank, .untypedParameter q.name⟩,
    ⟨¬ q.isVariadic, .variadicParameter q.name⟩]

/-- What has to hold for a function, in the order in which it is reported. -/
def Signature.conditions (s : Signature) (w : Suspension) : List Condition :=
  [⟨∃ payload, s.Delivers payload, .noCompletion⟩,
    ⟨w.throwing → ∃ payload r, s.Delivers payload ∧ Spelling.ResultType.read? payload = some r,
      .noResult⟩] ++
  [⟨¬ s.isAsync, .alreadyAsync s.name⟩,
    ⟨¬ s.throws, .throwing s.name⟩] ++
  s.parameters.dropLast.flatMap Parameter.conditions

/-- What has to hold for a declaration, in the order in which it is reported. -/
def Declaration.conditions (d : Declaration) (w : Suspension) : List Condition :=
  ⟨∃ s, d = .function s, .notAFunction⟩ ::
    match d with
    | function s => s.conditions w
    | other _ => []

/-! ### The stages -/

namespace Signature

variable {s : Signature}

/-- A completion delivers one type. -/
lemma Delivers.unique {t u : Text} (ht : s.Delivers t) (hu : s.Delivers u) : t = u := by
  obtain ⟨q, f, hq, hf, ht, -⟩ := ht
  obtain ⟨q', f', hq', hf', hu, -⟩ := hu
  obtain rfl : q = q' := Option.some.inj (hq.symm.trans hq')
  obtain rfl : f = f' := Option.some.inj (hf.symm.trans hf')
  exact List.singleton_inj.1 (ht.symm.trans hu)

/-- What the last parameter delivers, if it is a completion. -/
def delivery (s : Signature) (w : Suspension) : Except Refusal Delivery :=
  match s.completion? with
  | some q => Delivery.ofType q.type w
  | none => .error .noCompletion

lemma payload?_eq_some_iff {type payload : Text} :
    Delivery.payload? type = some payload ↔
      ∃ f, Spelling.FunctionType.read? type = some f ∧ f.parameters = [payload] ∧
        f.isAsync = false ∧ f.throws = false ∧ Spelling.isVoid f.result = true := by
  unfold Delivery.payload?
  cases Spelling.FunctionType.read? type with
  | none => simp
  | some f =>
    obtain ⟨parameters, isAsync, throws, result⟩ := f
    simp only [Spelling.FunctionType.isCompletion, Option.some.injEq, exists_eq_left']
    match parameters with
    | [] => simp
    | [t] =>
      simp only [List.length_singleton, List.head?_cons]
      cases isAsync <;> cases throws <;> simp [and_comm]
    | _ :: _ :: _ => simp

lemma delivers_iff {payload : Text} :
    s.Delivers payload ↔
      ∃ q, s.completion? = some q ∧ Delivery.payload? q.type = some payload := by
  simp only [payload?_eq_some_iff, completion?, Delivers, exists_and_left]

lemma delivery_decided (s : Signature) (w : Suspension) :
    DecidedBy
      [⟨∃ payload, s.Delivers payload, .noCompletion⟩,
        ⟨w.throwing → ∃ payload r, s.Delivers payload ∧ Spelling.ResultType.read? payload = some r,
          .noResult⟩]
      (s.delivery w) := by
  unfold delivery
  cases hq : s.completion? with
  | none =>
    refine .here ?_
    rintro ⟨payload, hpayload⟩
    obtain ⟨q, hq', -⟩ := delivers_iff.1 hpayload
    simp [hq] at hq'
  | some q =>
    simp only [Delivery.ofType]
    cases hp : Delivery.payload? q.type with
    | none =>
      refine .here ?_
      rintro ⟨payload, hpayload⟩
      obtain ⟨q', hq', hp'⟩ := delivers_iff.1 hpayload
      obtain rfl : q = q' := Option.some.inj (hq.symm.trans hq')
      simp [hp] at hp'
    | some payload =>
      have hdelivers : s.Delivers payload := delivers_iff.2 ⟨q, hq, hp⟩
      have hfirst : ∃ payload, s.Delivers payload := ⟨payload, hdelivers⟩
      simp only
      split
      · next hthrowing =>
        cases hr : Spelling.ResultType.read? payload with
        | none =>
          refine .later hfirst (.here ?_)
          intro h
          obtain ⟨payload', r, hdelivers', hr'⟩ := h hthrowing
          rw [hdelivers'.unique hdelivers, hr] at hr'
          cases hr'
        | some r =>
          refine List.forall_mem_cons.2 ⟨hfirst, List.forall_mem_singleton.2 fun _ => ?_⟩
          exact ⟨payload, r, hdelivers, hr⟩
      · next hplain =>
        refine List.forall_mem_cons.2 ⟨hfirst, List.forall_mem_singleton.2 fun hthrowing => ?_⟩
        exact absurd hthrowing hplain

lemma effectFree_decided (s : Signature) :
    DecidedBy [⟨¬ s.isAsync, .alreadyAsync s.name⟩, ⟨¬ s.throws, .throwing s.name⟩] s.effectFree := by
  have hdone : DecidedBy [] (.ok () : Except Refusal Unit) := by simp [DecidedBy]
  exact .test _ (.test _ hdone)

end Signature

/-- The obstacle is the first condition of the parameter that is not met. -/
lemma Parameter.obstacle_decided (q : Parameter) :
    DecidedBy q.conditions
      (match q.obstacle? with
        | some r => .error r
        | none => .ok () : Except Refusal Unit) := by
  have hdone : DecidedBy [] (.ok () : Except Refusal Unit) := by simp [DecidedBy]
  have hchain := DecidedBy.test (p := q.name.blank) .unnamedParameter
    (.test (p := q.type.blank) (.untypedParameter q.name)
      (.test (p := q.isVariadic) (.variadicParameter q.name) hdone))
  unfold obstacle?
  split_ifs at hchain ⊢ <;> exact hchain

/-- The parameters are looked at from left to right. -/
lemma Forwarding.ofParameters_decided (w : WildcardStyle) (ps : List Parameter) :
    DecidedBy (ps.flatMap Parameter.conditions) (ofParameters w ps) := by
  unfold ofParameters
  generalize forms w ps = f
  induction ps with
  | nil => simp [DecidedBy]
  | cons q ps ih =>
    have hq := q.obstacle_decided
    rw [List.flatMap_cons, List.findSome?_cons]
    cases ho : q.obstacle? with
    | some r =>
      rw [ho] at hq
      exact FirstUnmet.append_right hq _
    | none =>
      rw [ho] at hq
      exact DecidedBy.bind (x := .ok ()) (f := fun _ => _) hq fun _ _ => ih

/-! ### The decision -/

/-- For a function it is enough to ask for what its last parameter delivers: a parameter that takes no
function delivers nothing. -/
lemma Peer.of_function (s : Signature) (w : Suspension) (style : Style) :
    Peer.of (.function s) w style = (do
      let delivery ← s.delivery w
      s.effectFree
      let forwarding ← Forwarding.ofParameters style.wildcard s.passedOn
      return {
        name := s.name
        modifiers := s.keptModifiers style.keepsModifiers
        generics := s.generics
        clause := forwarding.clause
        delivery
        requirements := s.requirements
        suspension := w
        body := Body.lines s delivery w forwarding.arguments style }) := by
  cases hc : s.completion? with
  | none => simp only [Peer.of, Declaration.eligible, Signature.delivery, hc]; rfl
  | some q =>
    by_cases hq : q.isCallback = true
    · simp only [Peer.of, Declaration.eligible, Signature.delivery, hc, hq, if_true]
      rfl
    · have hnone : Spelling.FunctionType.read? q.type = none := by
        simpa [Parameter.isCallback] using hq
      have hrefused : Delivery.ofType q.type w = .error .noCompletion := by
        simp only [Delivery.ofType, Delivery.payload?, hnone]
      simp only [Peer.of, Declaration.eligible, Signature.delivery, hc, hq, hrefused]
      rfl

lemma Peer.of_decided (d : Declaration) (w : Suspension) (style : Style) :
    DecidedBy (d.conditions w) (Peer.of d w style) := by
  cases d with
  | other introducer =>
    refine FirstUnmet.here (c := ⟨_, .notAFunction⟩) ?_
    rintro ⟨s, ⟨⟩⟩
  | function s =>
    have hfunction : DecidedBy [⟨∃ t, Declaration.function s = .function t, .notAFunction⟩]
        (.ok () : Except Refusal Unit) := by simp [DecidedBy]
    refine hfunction.bind (f := fun _ => Peer.of (.function s) w style) fun _ _ => ?_
    change DecidedBy (s.conditions w) _
    rw [Peer.of_function, Signature.conditions, List.append_assoc]
    refine s.delivery_decided w |>.bind fun delivery _ => s.effectFree_decided.bind fun _ _ => ?_
    rw [← List.append_nil (List.flatMap _ _)]
    exact (Forwarding.ofParameters_decided _ _).bind fun _ _ => by simp [DecidedBy, pure, Except.pure]

/-- What two peers have in common that differ in style only. -/
structure Peer.SameInterface (p q : Peer) : Prop where
  name : p.name = q.name
  clause : p.clause = q.clause
  delivery : p.delivery = q.delivery
  throws : p.throws = q.throws
  generics : p.generics = q.generics
  requirements : p.requirements = q.requirements

/-- The outcomes for two styles: the same refusal, or peers with the same interface, and with the same
header if the styles agree about modifiers. -/
def SameDecision (style style' : Style) : Except Refusal Peer → Except Refusal Peer → Prop
  | .ok p, .ok q =>
    p.SameInterface q ∧ (style.keepsModifiers = style'.keepsModifiers → p.header = q.header)
  | .error r, .error r' => r = r'
  | _, _ => False

lemma Peer.sameInterface {d : Declaration} {w : Suspension} {style style' : Style} {p q : Peer}
    (hp : Peer.of d w style = .ok p) (hq : Peer.of d w style' = .ok q) : p.SameInterface q := by
  obtain ⟨s, completion, hd, hc, -, hdelivery, -, -, hp⟩ := Peer.of_eq_ok hp
  obtain ⟨s', completion', hd', hc', -, hdelivery', -, -, hq⟩ := Peer.of_eq_ok hq
  obtain rfl : s = s' := Declaration.function.inj (hd.symm.trans hd')
  obtain rfl : completion = completion' := Option.some.inj (hc.symm.trans hc')
  have hsame : p.delivery = q.delivery := Except.ok.inj (hdelivery.symm.trans hdelivery')
  refine ⟨?_, ?_, hsame, congrArg Delivery.isResult hsame, ?_, ?_⟩ <;> rw [hp, hq]
  -- the entries of the clause do not depend on how arguments are handed on
  rfl

lemma Peer.SameInterface.header {p q : Peer} (h : p.SameInterface q)
    (hmodifiers : p.modifiers = q.modifiers) : p.header = q.header := by
  unfold Peer.header Peer.result?
  rw [h.name, h.clause, h.delivery, h.throws, h.generics, h.requirements, hmodifiers]

/-- A declaration has a peer exactly if it meets all conditions; otherwise the refusal is that of the
first condition that it does not meet.  The style decides neither about that nor about the interface
of the peer, and about its header only as far as it drops modifiers. -/
theorem peer_decided (d : Declaration) (w : Suspension) (style style' : Style) :
    ((∃ p, Peer.of d w style = .ok p) ↔ ∀ c ∈ d.conditions w, c.holds) ∧
      (∀ r, Peer.of d w style = .error r ↔ FirstUnmet (d.conditions w) r) ∧
      SameDecision style style' (Peer.of d w style) (Peer.of d w style') := by
  have h := Peer.of_decided d w style
  have h' := Peer.of_decided d w style'
  refine ⟨h.exists_ok_iff, h.eq_error_iff, ?_⟩
  cases hp : Peer.of d w style with
  | error r =>
    rw [(h'.eq_error_iff r).2 ((h.eq_error_iff r).1 hp)]
    rfl
  | ok p =>
    obtain ⟨q, hq⟩ := h'.exists_ok_iff.2 (h.exists_ok_iff.1 ⟨p, hp⟩)
    rw [hq]
    have hsame := Peer.sameInterface hp hq
    refine ⟨hsame, fun hkeeps => hsame.header ?_⟩
    obtain ⟨s, -, hd, -, -, -, -, -, hp⟩ := Peer.of_eq_ok hp
    obtain ⟨s', -, hd', -, -, -, -, -, hq⟩ := Peer.of_eq_ok hq
    obtain rfl : s = s' := Declaration.function.inj (hd.symm.trans hd')
    rw [hp, hq, hkeeps]

/-! ### A function with two obstacles -/

/-- A function that throws and has a variadic parameter. -/
def logFunction : Signature where
  name := "log".toList
  parameters := [
    { label := some "_".toList, name := "items".toList, type := "Any...".toList },
    { name := "done".toList, type := "(Int) -> Void".toList }]
  throws := true

/-- The function without the effect, whose variadic parameter is then the reason. -/
def quietLog : Signature :=
  { logFunction with throws := false }

/-- The function without either. -/
def listLog : Signature :=
  { quietLog with
    parameters := [
      { label := some "_".toList, name := "items".toList, type := "[Any]".toList },
      { name := "done".toList, type := "(Int) -> Void".toList }] }

theorem log_decided :
    (Peer.of (.function logFunction) {} {} = .error (.throwing "log".toList) ∧
      FirstUnmet ((Declaration.function logFunction).conditions {}) (.throwing "log".toList)) ∧
    (Peer.of (.function quietLog) {} {} = .error (.variadicParameter "items".toList) ∧
      FirstUnmet ((Declaration.function quietLog).conditions {}) (.variadicParameter "items".toList)) ∧
    ((Peer.of (.function listLog) {} {}).map Peer.header =
        .ok "func log(_ items: [Any]) async -> Int".toList ∧
      ∀ c ∈ (Declaration.function listLog).conditions {}, c.holds) ∧
    SameDecision {} { wildcard := .named } (Peer.of (.function listLog) {} {})
      (Peer.of (.function listLog) {} { wildcard := .named }) := by
  have hthrows : Peer.of (.function logFunction) {} {} = .error (.throwing "log".toList) := by
    decide +kernel
  have hvariadic : Peer.of (.function quietLog) {} {} = .error (.variadicParameter "items".toList) := by
    decide +kernel
  have hheader : (Peer.of (.function listLog) {} {}).map Peer.header =
      .ok "func log(_ items: [Any]) async -> Int".toList := by decide +kernel
  have hpeer : ∃ p, Peer.of (.function listLog) {} {} = .ok p := by
    cases hp : Peer.of (.function listLog) {} {} with
    | error r =>
      rw [hp] at hheader
      cases hheader
    | ok p => exact ⟨p, rfl⟩
  obtain ⟨-, hlog, -⟩ := peer_decided (.function logFunction) {} {} {}
  obtain ⟨-, hquiet, -⟩ := peer_decided (.function quietLog) {} {} {}
  obtain ⟨hlist, -, hstyles⟩ := peer_decided (.function listLog) {} {} { wildcard := .named }
  exact ⟨⟨hthrows, (hlog _).1 hthrows⟩, ⟨hvariadic, (hquiet _).1 hvariadic⟩, ⟨hheader, hlist.1 hpeer⟩,
    hstyles⟩

end AsyncPeer
