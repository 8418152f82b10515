/-
# Headers are read back

Reading the header of a peer from its tree gives back what was written: `readDeclaration_stub`.  The
parameter clause has been read; this file follows the header on both sides of it.  Modifiers, name and
clauses are the texts of nodes, while the effects and the result type lie between the closing parenthesis
and the end of the header, which is the start of the first node behind them (`headerStop_eq`).

Only texts in the normal form of the reader can come back unchanged.  `Signature.IsNormal` collects
what is asked of them.
-/
import AsyncPeer.Proofs.ClauseReading

namespace AsyncPeer

/-- The texts of a function that its peer takes over are as the reader gives them. -/
structure Signature.IsNormal (s : Signature) : Prop where
  modifiers : ∀ m ∈ s.modifiers, m.IsWord
  generics : ∀ g ∈ s.generics, g.squeeze = g
  parameters : ∀ p ∈ s.passedOn, p.IsNormal
  requirements : ∀ r ∈ s.requirements, r.squeeze = r

instance (s : Signature) : Decidable s.IsNormal :=
  decidable_of_iff
    ((∀ m ∈ s.modifiers, m.IsWord) ∧ (∀ g ∈ s.generics, g.squeeze = g) ∧
      (∀ p ∈ s.passedOn, p.IsNormal) ∧ ∀ r ∈ s.requirements, r.squeeze = r)
    ⟨fun ⟨h1, h2, h3, h4⟩ => ⟨h1, h2, h3, h4⟩, fun ⟨h1, h2, h3, h4⟩ => ⟨h1, h2, h3, h4⟩⟩

namespace Source

variable {source before : Text}

/-! ### Modifiers, effects and requirements -/

lemma join_isPrefix (ws : List Text) : Text.join [' '] ws <+: ws.flatMap (· ++ [' ']) := by
  induction ws with
  | nil => exact List.prefix_rfl
  | cons w ws ih =>
    rw [List.flatMap_cons]
    cases ws with
    | nil => exact (List.prefix_append w [' ']).trans (List.prefix_append _ _)
    | cons v ws => exact (List.prefix_append_right_inj _).2 ih

lemma readModifiers_lead {lead : List Node} {ms : List Text}
    (h : List.Forall₂ (fun n m => n.text source = .ok m) (modifierNodes lead) ms)
    (hunmarked : ∀ n ∈ modifierNodes lead, n.kind ≠ "attribute") (hword : ∀ m ∈ ms, m.IsWord) :
    ∃ mss, lead.mapM (readModifiers source) = .ok mss ∧ mss.flatten = ms := by
  induction lead generalizing ms with
  | nil =>
    cases h
    exact ⟨[], rfl, rfl⟩
  | cons n lead ih =>
    generalize hnodes : (if n.kind == "modifiers" then n.parts else [n]) = nodes
    have hcons : modifierNodes (n :: lead) = nodes ++ modifierNodes lead := by
      rw [modifierNodes, List.flatMap_cons, hnodes]
      rfl
    rw [hcons] at h hunmarked
    -- the words belong to the nodes of this modifier first, then to those behind it
    have hsplit := List.take_append_drop nodes.length ms
    have hfirst := (List.forall₂_take_append _ _ _ h.flip).flip
    have hrest := (List.forall₂_drop_append _ _ _ h.flip).flip
    obtain ⟨mss, hmss, hflat⟩ := ih hrest (fun m hm => hunmarked m (List.mem_append_right _ hm))
      fun m hm => hword m (List.mem_of_mem_drop hm)
    have hkeep : nodes.filter (fun m => m.kind != "attribute") = nodes :=
      List.filter_eq_self.2 fun m hm => by simp [hunmarked m (List.mem_append_left _ hm)]
    have hwords : (ms.take nodes.length).flatMap Text.words = ms.take nodes.length :=
      Text.flatMap_words fun m hm => hword m (List.mem_of_mem_take hm)
    refine ⟨ms.take nodes.length :: mss, ?_, ?_⟩
    · have hread : readModifiers source n = .ok (ms.take nodes.length) := by
        simp only [readModifiers, hnodes, hkeep, mapM_eq_ok hfirst, bind, Except.bind, pure,
          Except.pure, hwords]
      rw [List.mapM_cons, hread, hmss]
      rfl
    · rw [List.flatten_cons, hflat, hsplit]

lemma cut?_append {m : Char} {x : Text} (hx : m ∉ x) (mark y : Text) :
    Text.cut? (x ++ (m :: mark ++ y)) (m :: mark) = some (x, y) := by
  induction x with
  | nil =>
    rw [List.nil_append, Text.cut?.eq_def, Text.after?_append]
  | cons c x ih =>
    have hc : c ≠ m := fun h => hx (by simp [h])
    rw [List.cons_append, Text.cut?, Text.after?, if_neg hc, ih fun h => hx (List.mem_cons_of_mem c h)]
    rfl

lemma cut?_eq_none {m : Char} {x : Text} (hx : m ∉ x) (mark : Text) :
    Text.cut? x (m :: mark) = none := by
  induction x with
  | nil => rfl
  | cons c x ih =>
    have hc : c ≠ m := fun h => hx (by simp [h])
    rw [Text.cut?, Text.after?, if_neg hc, ih fun h => hx (List.mem_cons_of_mem c h)]
    rfl

/-- Cutting loses nothing but the mark. -/
lemma eq_append_of_cut? {t mark before rest : Text} (h : t.cut? mark = some (before, rest)) :
    t = before ++ (mark ++ rest) := by
  induction t generalizing before with
  | nil =>
    rw [Text.cut?] at h
    split at h
    · next hafter =>
      obtain ⟨rfl, rfl⟩ : [] = before ∧ _ = rest := by simpa using h
      rw [List.nil_append]
      exact Text.eq_append_of_after? hafter
    · cases h
  | cons c t ih =>
    rw [Text.cut?] at h
    split at h
    · next hafter =>
      obtain ⟨rfl, rfl⟩ : [] = before ∧ _ = rest := by simpa using h
      rw [List.nil_append]
      exact Text.eq_append_of_after? hafter
    · obtain ⟨⟨b, r⟩, hb, heq⟩ := Option.map_eq_some_iff.1 h
      obtain ⟨rfl, rfl⟩ : c :: b = before ∧ r = rest := by simpa using heq
      rw [List.cons_append, ← ih hb]

lemma fields_effectWords (throws : Bool) :
    Text.fields (fun c => !Text.isWordChar c) (Peer.effectWords throws ++ [' ']) =
      [] :: "async".toList :: ((if throws then ["throws".toList] else []) ++ [[]]) := by
  cases throws <;> decide +kernel

/-- The effects and the result type of a peer are read back. -/
lemma readEffects_effects {p : Peer} (hp : ∀ t ∈ p.result?, t.squeeze = t ∧ t ≠ []) :
    readEffects (p.effects ++ [' ']) = (true, p.throws, p.result?) := by
  -- no `-` stands among the effects, so the first arrow is the one in front of the result type
  have hdash : '-' ∉ Peer.effectWords p.throws ++ [' '] := by
    cases p.throws <;> decide
  have hasync : (Text.fields (fun c => !Text.isWordChar c)
      (Peer.effectWords p.throws ++ [' '])).contains "async".toList = true := by
    rw [fields_effectWords, List.contains_iff_mem]
    exact List.mem_cons_of_mem _ List.mem_cons_self
  have hthrows : ((Text.fields (fun c => !Text.isWordChar c)
        (Peer.effectWords p.throws ++ [' '])).contains "throws".toList ||
      (Text.fields (fun c => !Text.isWordChar c)
        (Peer.effectWords p.throws ++ [' '])).contains "rethrows".toList) = p.throws := by
    rw [fields_effectWords]
    cases p.throws <;> decide
  cases hresult : p.result? with
  | none =>
    have heffects : p.effects = Peer.effectWords p.throws := by
      rw [Peer.effects, hresult]
      exact List.append_nil _
    have hcut : Text.cut? (Peer.effectWords p.throws ++ [' ']) "->".toList = none :=
      cut?_eq_none hdash ['>']
    simp only [readEffects, heffects, hcut, hasync, hthrows, Option.filter_none, Option.map_none]
  | some t =>
    obtain ⟨hsqueeze, hne⟩ := hp t hresult
    have heffects : p.effects ++ [' '] =
        Peer.effectWords p.throws ++ [' '] ++ ("->".toList ++ ([' '] ++ t ++ [' '])) := by
      rw [Peer.effects, hresult, List.append_assoc, List.append_assoc]
      rfl
    have hcut : Text.cut? (Peer.effectWords p.throws ++ [' '] ++
          ("->".toList ++ ([' '] ++ t ++ [' ']))) "->".toList =
        some (Peer.effectWords p.throws ++ [' '], [' '] ++ t ++ [' ']) :=
      cut?_append hdash ['>'] _
    have htrim : Text.trim ([' '] ++ t ++ [' ']) = t := by
      rw [Text.trim_blank_append_blank (by decide) (by decide), Text.trim_of_squeezed hsqueeze]
    simp only [readEffects, heffects, hcut, hasync, hthrows, htrim]
    simp [hne, hsqueeze]

/-- Requirements are read back from a where clause. -/
lemma readRequirements_where {t : Text} (ht : t.squeeze = t) :
    readRequirements ("where ".toList ++ t) = t := by
  have hsplit : "where ".toList ++ t = "where".toList ++ ([' '] ++ t) := rfl
  by_cases hne : t = []
  · subst hne
    decide
  · have htrim : Text.trim ("where ".toList ++ t) = "where".toList ++ ([' '] ++ t) := by
      rw [hsplit]
      refine Text.trim_eq_self (fun c hc => ?_) (fun c hc => ?_)
      · obtain rfl : 'w' = c := by simpa using hc
        decide
      · rw [List.getLast?_append_of_ne_nil _ (by simp), List.getLast?_append_of_ne_nil _ hne] at hc
        exact Text.getLast?_of_trimmed (Text.trim_of_squeezed ht) c hc
    rw [readRequirements, htrim, Text.after?_append, Option.getD_some]
    have := Text.squeeze_blank_append_blank (x := [' ']) (y := []) (by decide) rfl ht
    rwa [List.append_nil] at this

/-! ### The result type -/

/-- The types of the parameters of a function type are squeezed. -/
lemma squeeze_of_readBare? {t : Text} {f : Spelling.FunctionType}
    (h : Spelling.FunctionType.readBare? t = some f) : ∀ q ∈ f.parameters, q.squeeze = q := by
  fun_induction Spelling.FunctionType.readBare? t with
  | case1 cs hgroup => simp at h
  | case2 cs inside rest hgroup rest' hempty hone ih => exact ih h
  | case3 cs inside rest hgroup rest' hempty hmany => simp at h
  | case4 cs inside rest hgroup rest' hne =>
    obtain ⟨⟨isAsync, throws, result⟩, -, rfl⟩ := Option.map_eq_some_iff.1 h
    intro q hq
    obtain ⟨piece, -, rfl⟩ := List.mem_map.1 hq
    exact Text.squeeze_squeeze _
  | case5 t hround => simp at h

lemma squeeze_of_payload? {t u : Text} (h : Delivery.payload? t = some u) : u.squeeze = u := by
  unfold Delivery.payload? at h
  split at h
  · next f hf =>
    split at h
    · exact squeeze_of_readBare? hf u (List.mem_of_mem_head? h)
    · simp at h
  · simp at h

/-- A result has two arguments, neither of them empty, and they are read in squeezed form. -/
lemma arguments_of_read? {t : Text} {r : Spelling.ResultType} (h : Spelling.ResultType.read? t = some r) :
    ∃ inside success failure, Spelling.pieces ',' inside = [success, failure] ∧
      success.isEmpty = false ∧ failure.isEmpty = false ∧ r = ⟨success.squeeze, failure.squeeze⟩ := by
  obtain ⟨arguments, -, hr⟩ := Option.bind_eq_some_iff.1 h
  obtain ⟨⟨inside, rest⟩, -, hr⟩ := Option.bind_eq_some_iff.1 hr
  simp only at hr
  split at hr
  · simp at hr
  · split at hr
    · next success failure hpieces =>
      split at hr
      · simp at hr
      · next hne =>
        simp only [Bool.or_eq_true, not_or, Bool.not_eq_true] at hne
        exact ⟨inside, success, failure, hpieces, hne.1, hne.2, (Option.some.inj hr).symm⟩
    · simp at hr

lemma squeeze_returned {t : Text} {w : Suspension} {d : Delivery}
    (h : Delivery.ofType t w = .ok d) : d.returned.squeeze = d.returned := by
  unfold Delivery.ofType at h
  split at h
  · simp at h
  · next u hu =>
    split at h
    · split at h
      · next r hr =>
        obtain rfl : Delivery.result r.success r.failure = d := by simpa using h
        obtain ⟨inside, success, failure, -, -, -, rfl⟩ := arguments_of_read? hr
        exact Text.squeeze_squeeze success
      · simp at h
    · obtain rfl : Delivery.value u = d := by simpa using h
      exact squeeze_of_payload? hu

/-! ### The nodes of a header -/

lemma IsClause.kinds {ps : List Parameter} {nodes : List Node} (h : IsClause before ps nodes) :
    ∀ n ∈ nodes, n.kind ∉ [")", "type_parameters", "type_constraints", "function_body"] := by
  have hentry : ∀ {before : Text} {p : Parameter} {n : Node} {values : List Node},
      IsEntry before p n values → ∀ m ∈ n :: values,
        m.kind ∉ [")", "type_parameters", "type_constraints", "function_body"] := by
    intro before p n values he m hm
    rcases List.mem_cons.1 hm with rfl | hm
    · rw [he.kind]
      decide
    · have := he.plain m hm
      simp only [headerKinds, List.mem_cons, not_or] at this ⊢
      exact ⟨this.2.1, this.2.2.2⟩
  induction h with
  | nil => simp
  | last entry => exact hentry entry
  | more entry kind _ _ ih =>
    intro m hm
    rcases List.mem_append.1 hm with hm | hm
    · exact hentry entry m hm
    · rcases List.mem_cons.1 hm with rfl | hm
      · rw [kind]
        decide
      · exact ih m hm

lemma kind_of_rel {kind : String} {Q : Node → Text → Prop} {a : Option Node} {b : Option Text}
    (h : Option.Rel (fun n t => n.kind = kind ∧ Q n t) a b) : ∀ n ∈ a, n.kind = kind := by
  intro n hn
  cases h with
  | none => simp at hn
  | some hrel =>
    obtain rfl := Option.some.inj hn
    exact hrel.1

lemma map_eq_self {f : Text → Text} {o : Option Text} (h : ∀ t ∈ o, f t = t) : o.map f = o := by
  cases o with
  | none => rfl
  | some t => rw [Option.map_some, h t rfl]

lemma getLast?_toList (o : Option Text) : o.toList.getLast? = o := by
  cases o <;> rfl

lemma mapM_of_rel {R : Node → Text → Prop} {a : Option Node} {b : Option Text}
    {f : Node → Except Refusal Text} {g : Text → Text} (h : Option.Rel R a b)
    (hf : ∀ n t, t ∈ b → R n t → f n = .ok (g t)) : a.toList.mapM f = .ok (b.map g).toList := by
  cases h with
  | none => rfl
  | some hrel =>
    rw [Option.toList_some, List.mapM_cons, hf _ _ rfl hrel]
    rfl

section Header

variable {p : Peer} {ps : List Parameter} {h : HeaderNodes}

lemma HeaderNodes.Show.front (hs : h.Show p ps) :
    ∀ n ∈ h.generics.toList ++ h.opening :: h.clause,
      n.kind ≠ ")" ∧ n.kind ≠ "type_constraints" ∧ n.kind ≠ "function_body" := by
  intro n hn
  rcases List.mem_append.1 hn with hn | hn
  · rw [kind_of_rel hs.generics n (Option.mem_toList.1 hn)]
    decide
  · rcases List.mem_cons.1 hn with rfl | hn
    · rw [hs.opening]
      decide
    · have := hs.clause.kinds n hn
      simp only [List.mem_cons, not_or] at this
      exact ⟨this.1, this.2.2.1, this.2.2.2.1⟩

lemma HeaderNodes.Show.filter_front (hs : h.Show p ps) :
    (h.generics.toList ++ h.opening :: h.clause).filter (fun n => n.kind == "type_parameters") =
      h.generics.toList := by
  have hclause : h.clause.filter (fun n => n.kind == "type_parameters") = [] := by
    refine List.filter_eq_nil_iff.2 ?_
    intro n hn
    have := hs.clause.kinds n hn
    simp only [List.mem_cons, not_or] at this
    simp [this.2.1]
  rw [List.filter_append, List.filter_cons_of_neg (by simp [hs.opening]), hclause, List.append_nil]
  refine List.filter_eq_self.2 ?_
  intro n hn
  simp [kind_of_rel hs.generics n (Option.mem_toList.1 hn)]

/-- Behind the name, a where clause and a body are found only at the end. -/
lemma HeaderNodes.Show.filter_rest (hs : h.Show p ps) {q : Node → Bool}
    (hq : ∀ n, q n = true → n.kind = "type_constraints" ∨ n.kind = "function_body") :
    h.rest.filter q = (h.requirements.toList ++ [h.body]).filter q := by
  have hnone : ∀ ns : List Node,
      (∀ n ∈ ns, n.kind ≠ "type_constraints" ∧ n.kind ≠ "function_body") → ns.filter q = [] := by
    intro ns hns
    refine List.filter_eq_nil_iff.2 ?_
    intro n hn hqn
    rcases hq n hqn with hkind | hkind
    · exact (hns n hn).1 hkind
    · exact (hns n hn).2 hkind
  have hsplit : h.rest = (h.generics.toList ++ h.opening :: h.clause) ++
      ([h.closing] ++ h.effects) ++ (h.requirements.toList ++ [h.body]) := by
    simp [HeaderNodes.rest, HeaderNodes.tail]
  rw [hsplit, List.filter_append, List.filter_append, hnone _ fun n hn => (hs.front n hn).2,
    hnone _ fun n hn => ?_]
  · rfl
  · rcases List.mem_append.1 hn with hn | hn
    · rw [List.mem_singleton.1 hn, hs.closing.1]
      decide
    · have := hs.effects n hn
      simp only [List.mem_cons, not_or] at this
      exact ⟨this.1, this.2.1⟩

lemma upToRequirements_isPrefix (p : Peer) : p.upToRequirements <+: p.stub := by
  rw [Peer.stub, Peer.header_eq, Peer.upToRequirements]
  cases p.requirements with
  | none => exact ⟨['\x7b', '\x7d'], by simp⟩
  | some t => exact ⟨"where ".toList ++ t ++ " \x7b\x7d".toList, by simp⟩

lemma upToEffects_isPrefix (p : Peer) : p.upToEffects <+: p.stub :=
  (List.prefix_append _ _).trans ((List.prefix_append _ _).trans (upToRequirements_isPrefix p))

lemma requirements_isPrefix {t : Text} (ht : t ∈ p.requirements) :
    p.upToRequirements ++ ("where ".toList ++ t) <+: p.stub := by
  rw [Peer.stub, Peer.header_eq, Option.mem_def.1 ht, Peer.upToRequirements]
  exact ⟨" \x7b\x7d".toList, by simp⟩

/-- The header ends where its effects do. -/
lemma headerStop_eq (hs : h.Show p ps) {tree : Node} (hstop : tree.stop = p.stub.byteSize) :
    headerStop tree h.rest = p.upToRequirements.byteSize := by
  have hends : h.rest.filter (fun n => n.kind == "type_constraints" || n.kind == "function_body") =
      h.requirements.toList ++ [h.body] := by
    rw [hs.filter_rest (fun n hn => by simpa using hn)]
    refine List.filter_eq_self.2 ?_
    intro n hn
    rcases List.mem_append.1 hn with hn | hn
    · simp [kind_of_rel hs.requirements n (Option.mem_toList.1 hn)]
    · simp [List.mem_singleton.1 hn, hs.body.1]
  have hle : h.body.start ≤ tree.stop := by
    rw [hs.body.2, hstop, Peer.stub]
    simp only [Text.byteSize_append, Nat.add_le_add_iff_left]
    decide
  have hstart : h.body.start = (p.upToEffects ++ p.effects ++
      (p.requirements.map fun t => " where ".toList ++ t).getD [] ++ [' ']).byteSize := by
    rw [hs.body.2, Peer.header_eq]
  rw [headerStop, hends]
  have hrequirements := hs.requirements
  generalize p.requirements = r, h.requirements = n at hstart hrequirements ⊢
  cases hrequirements with
  | none =>
    rw [Option.map_none, Option.getD_none, List.append_nil, ← Peer.upToRequirements] at hstart
    simp [← hstart, Nat.min_eq_right hle]
  | @some n t hrel =>
    -- the where clause begins in front of the body
    have hbefore : n.start ≤ h.body.start := by
      rw [hstart, hrel.2.1, Peer.upToRequirements]
      simp only [Option.map_some, Option.getD_some, Text.byteSize_append]
      have : Text.byteSize [' '] ≤ Text.byteSize " where ".toList := by decide
      omega
    have hfold : min (min tree.stop n.start) h.body.start = n.start := by omega
    rw [← hrel.2.1]
    exact hfold

lemma upToName_isPrefix (p : Peer) : p.upToName ++ p.name <+: p.stub := by
  refine List.IsPrefix.trans ?_ (upToEffects_isPrefix p)
  rw [Peer.upToEffects, Peer.upToClause, List.append_assoc, List.append_assoc, List.append_assoc]
  exact List.prefix_append _ _

/-! ### The parts of a header -/

namespace HeaderNodes.Show

lemma modifiers_text (hs : h.Show p ps) (hmodifiers : ∀ m ∈ p.modifiers, m.IsWord) :
    ∃ mss, h.lead.mapM (readModifiers p.stub) = .ok mss ∧ mss.flatten = p.modifiers := by
  refine readModifiers_lead (hs.modifiers.texts ?_) hs.unmarked hmodifiers
  have hupTo : p.modifiers.flatMap (· ++ [' ']) <+: p.upToName ++ p.name :=
    (List.prefix_append _ _).trans (List.prefix_append _ _)
  exact (join_isPrefix p.modifiers).trans (hupTo.trans (upToName_isPrefix p))

lemma generics_text (hs : h.Show p ps) :
    h.generics.toList.mapM (Node.text p.stub) = .ok p.generics.toList := by
  have hread : h.generics.toList.mapM (Node.text p.stub) = .ok (p.generics.map id).toList := by
    refine mapM_of_rel hs.generics fun n g hg hrel => hrel.2.text ?_
    refine List.IsPrefix.trans ?_ (upToEffects_isPrefix p)
    rw [Peer.upToEffects, Peer.upToClause, Option.mem_def.1 hg, Option.getD_some]
    exact ⟨['('] ++ p.clause ++ [')'], by simp⟩
  rwa [Option.map_id, id] at hread

/-- The nodes behind the name up to the closing parenthesis, and that parenthesis. -/
lemma split_rest (hs : h.Show p ps) :
    h.rest.takeWhile (fun n => n.kind != ")") = h.generics.toList ++ h.opening :: h.clause ∧
      h.rest.find? (fun n => n.kind == ")") = some h.closing := by
  have hrest : h.rest = (h.generics.toList ++ h.opening :: h.clause) ++ h.closing :: h.tail := by
    simp [HeaderNodes.rest]
  rw [hrest]
  constructor
  · exact takeWhile_append_cons (fun n hn => by simp [(hs.front n hn).1]) (by simp [hs.closing.1])
  · exact find?_append_cons (fun n hn => by simp [(hs.front n hn).1]) (by simp [hs.closing.1])

lemma parameters_read (hs : h.Show p ps) (hps : ∀ q ∈ ps, q.IsNormal ∧ q.type ≠ [])
    (hclause : p.clause = Text.join ", ".toList (ps.map Parameter.declared)) :
    readParameters p.stub h.rest = .ok ps := by
  have hskip : ∀ n ∈ h.generics.toList ++ [h.opening], n.kind ≠ ")" ∧ n.kind ≠ "parameter" := by
    intro n hn
    rcases List.mem_append.1 hn with hn | hn
    · rw [kind_of_rel hs.generics n (Option.mem_toList.1 hn)]
      decide
    · rw [List.mem_singleton.1 hn, hs.opening]
      decide
  have hsplit : h.rest = (h.generics.toList ++ [h.opening]) ++ (h.clause ++ h.closing :: h.tail) := by
    simp [HeaderNodes.rest]
  have hupTo : p.upToClause ++ p.clause <+: p.stub :=
    (List.prefix_append _ _).trans (upToEffects_isPrefix p)
  rw [hsplit, readParameters_skip hskip]
  rw [hclause] at hupTo
  refine readParameters_clause hs.clause hps hs.closing.1 ?_ hupTo
  rw [hs.closing.2.1, hclause]

lemma requirements_text (hs : h.Show p ps) :
    (h.rest.filter fun n => n.kind == "type_constraints").mapM (Node.text p.stub) =
      .ok (p.requirements.map ("where ".toList ++ ·)).toList := by
  have hnodes : h.rest.filter (fun n => n.kind == "type_constraints") = h.requirements.toList := by
    rw [hs.filter_rest (fun n hn => Or.inl (by simpa using hn)), List.filter_append,
      List.filter_eq_self.2 fun n hn => ?_, List.filter_eq_nil_iff.2 fun n hn => ?_, List.append_nil]
    · simp [List.mem_singleton.1 hn, hs.body.1]
    · simp [kind_of_rel hs.requirements n (Option.mem_toList.1 hn)]
  rw [hnodes]
  exact mapM_of_rel hs.requirements fun n t ht hrel => hrel.2.text (requirements_isPrefix ht)

/-- Between the closing parenthesis and the end of the header stand the effects. -/
lemma effects_text (hs : h.Show p ps) {tree : Node} (hstop : tree.stop = p.stub.byteSize) :
    slice p.stub h.closing.stop (max (headerStop tree h.rest) h.closing.stop) =
      .ok (p.effects ++ [' ']) := by
  rw [headerStop_eq hs hstop, hs.closing.2.2, ← Peer.upToEffects, Peer.upToRequirements,
    List.append_assoc]
  refine slice_max ?_
  rw [← List.append_assoc]
  exact upToRequirements_isPrefix p

end HeaderNodes.Show

/-! ### The whole header -/

/-- The tree of a header whose texts are in normal form is read back. -/
lemma readFunction_stub {tree : Node} (ht : ShowsHeader p ps tree h)
    (hmodifiers : ∀ m ∈ p.modifiers, m.IsWord) (hgenerics : ∀ g ∈ p.generics, g.squeeze = g)
    (hps : ∀ q ∈ ps, q.IsNormal ∧ q.type ≠ [])
    (hclause : p.clause = Text.join ", ".toList (ps.map Parameter.declared))
    (hresult : ∀ t ∈ p.result?, t.squeeze = t ∧ t ≠ [])
    (hrequirements : ∀ r ∈ p.requirements, r.squeeze = r) (above : List Node) :
    readFunction p.stub tree above = .ok {
      name := p.name
      modifiers := p.modifiers
      generics := p.generics
      parameters := ps
      isAsync := true
      throws := p.throws
      result := p.result?
      requirements := p.requirements
      isMember := isMember above } := by
  have hs := ht.nodes
  have hsound : tree.parts.any
      (fun n => n.kind != "function_body" && (n.hasError || n.isMissing)) = false := by
    refine List.any_eq_false.2 ?_
    intro n hn
    by_cases hkind : n.kind = "function_body"
    · simp [hkind]
    · simp [ht.sound n hn hkind]
  -- the nodes are cut at the word `func`
  have hlead : tree.parts.takeWhile (fun n => n.kind != "func") = h.lead := by
    rw [ht.parts]
    exact takeWhile_append_cons (fun n hn => by simp [hs.lead n hn]) (by simp [hs.func])
  have hbehind : tree.parts.dropWhile (fun n => n.kind != "func") = h.func :: h.name :: h.rest := by
    rw [ht.parts]
    exact dropWhile_append_cons (fun n hn => by simp [hs.lead n hn]) (by simp [hs.func])
  have hname : h.name.text p.stub = .ok p.name := hs.name.text (upToName_isPrefix p)
  obtain ⟨mss, hmss, hflat⟩ := hs.modifiers_text hmodifiers
  obtain ⟨hfront, hclose⟩ := hs.split_rest
  simp only [readFunction, hsound, hlead, hbehind, hname, hmss, hfront, hs.filter_front,
    hs.generics_text, hs.parameters_read hps hclause, hs.requirements_text, hclose,
    hs.effects_text ht.stop, readEffects_effects hresult, hflat, getLast?_toList, bind, Except.bind, pure,
    Except.pure]
  -- every part is found; the clauses only have to be in normal form
  have hsqueeze : p.generics.map Text.squeeze = p.generics := map_eq_self hgenerics
  have hwhere : (p.requirements.map ("where ".toList ++ ·)).map readRequirements = p.requirements := by
    rw [Option.map_map]
    exact map_eq_self fun r hr => readRequirements_where (hrequirements r hr)
  rw [hsqueeze, hwhere]
  rfl

end Header

/-- The header of a peer is read back: name, modifiers, generic clause, parameters, effects, result
type and requirements are those of the peer, and the parameters are those that the function hands
on. -/
theorem readDeclaration_stub {s : Signature} {w : Suspension} {style : Style} {p : Peer}
    {tree : Node} {h : HeaderNodes} (above : List Node)
    (hpeer : Peer.of (.function s) w style = .ok p) (hpayload : p.delivery.returned.blank = false)
    (hs : s.IsNormal) (htree : ShowsHeader p s.passedOn tree h) :
    readDeclaration p.stub ⟨tree, above⟩ = .ok (.function {
      name := s.name
      modifiers := p.modifiers
      generics := s.generics
      parameters := s.passedOn
      isAsync := true
      throws := p.throws
      result := p.result?
      requirements := s.requirements
      isMember := isMember above }) := by
  obtain ⟨s', completion, hfunction, -, -, hdelivery, -, hfree, hp⟩ := Peer.of_eq_ok hpeer
  obtain rfl := Declaration.function.inj hfunction
  have hname : p.name = s.name := congrArg Peer.name hp
  have hmodifiers : p.modifiers = s.keptModifiers style.keepsModifiers := congrArg Peer.modifiers hp
  have hgenerics : p.generics = s.generics := congrArg Peer.generics hp
  have hclause : p.clause = Text.join ", ".toList (s.passedOn.map Parameter.declared) :=
    congrArg Peer.clause hp
  have hrequirements : p.requirements = s.requirements := congrArg Peer.requirements hp
  have hwords : ∀ m ∈ p.modifiers, m.IsWord := by
    rw [hmodifiers]
    intro m hm
    exact hs.modifiers m (List.mem_of_mem_filter hm)
  -- no parameter of a function with a peer is without a type
  have hparameters : ∀ q ∈ s.passedOn, q.IsNormal ∧ q.type ≠ [] := by
    intro q hq
    refine ⟨hs.parameters q hq, fun hnil => ?_⟩
    have hobstacle := hfree q hq
    rw [Parameter.obstacle?, hnil] at hobstacle
    split at hobstacle
    · simp at hobstacle
    · simp [Text.blank] at hobstacle
  have hresult : ∀ t ∈ p.result?, t.squeeze = t ∧ t ≠ [] := by
    intro t ht
    rw [Peer.result?, Option.mem_def] at ht
    split at ht
    · simp at ht
    · obtain rfl := Option.some.inj ht
      refine ⟨squeeze_returned hdelivery, fun hnil => ?_⟩
      rw [hnil] at hpayload
      simp [Text.blank] at hpayload
  have hread := readFunction_stub htree hwords (hgenerics ▸ hs.generics) hparameters hclause hresult
    (hrequirements ▸ hs.requirements) above
  simp only [readDeclaration, htree.kind, hread, hname, hgenerics, hrequirements]
  rfl

/-! ### A header with every part -/

/-- A generic function whose first parameter has no label, and whose other parameters have defaults. -/
def loadFunction : Signature where
  name := "load".toList
  modifiers := ["public".toList]
  generics := some "<T>".toList
  parameters := [
    { label := some "_".toList, name := "url".toList, type := "URL".toList },
    { name := "tries".toList, type := "Int".toList, defaultValue := some "3".toList },
    { name := "mode".toList, type := "M".toList, defaultValue := some ".fast".toList },
    { name := "done".toList, type := "(Result<T, E>) -> Void".toList }]
  requirements := some "T: P".toList

/-- Its peer. -/
def loadPeer : Peer where
  name := "load".toList
  modifiers := ["public".toList]
  generics := some "<T>".toList
  clause := "_ url: URL, tries: Int = 3, mode: M = .fast".toList
  delivery := .result "T".toList "E".toList
  requirements := some "T: P".toList
  suspension := { throwing := true }
  body := Body.lines loadFunction (.result "T".toList "E".toList) { throwing := true }
    "url, tries: tries, mode: mode".toList {}

/-- The nodes of its header.  Of the two defaults, only the first has a node for its sign. -/
def loadNodes : HeaderNodes where
  lead := [rule "modifiers" 0 6 [rule "visibility_modifier" 0 6 []]]
  func := token "func" 7 11
  name := rule "simple_identifier" 12 16 []
  generics := some (rule "type_parameters" 16 19 [])
  opening := token "(" 19 20
  clause := [
    rule "parameter" 20 30
      [rule "simple_identifier" 20 21 [], rule "simple_identifier" 22 25 [], token ":" 25 26,
        rule "user_type" 27 30 []],
    token "," 30 31,
    rule "parameter" 32 42
      [rule "simple_identifier" 32 37 [], token ":" 37 38, rule "user_type" 39 42 []],
    token "=" 43 44, rule "integer_literal" 45 46 [],
    token "," 46 47,
    rule "parameter" 48 55
      [rule "simple_identifier" 48 52 [], token ":" 52 53, rule "user_type" 54 55 []],
    rule "prefix_expression" 58 63 []]
  closing := token ")" 63 64
  effects := [token "async" 65 70, token "throws" 71 77, token "->" 78 80, rule "user_type" 81 82 []]
  requirements := some (rule "type_constraints" 83 93 [])
  body := rule "function_body" 94 96 []

lemma loadNodes_show : loadNodes.Show loadPeer loadFunction.passedOn where
  lead := by decide
  modifiers := ⟨by decide +kernel, trivial⟩
  unmarked := by decide
  func := rfl
  name := by decide +kernel
  generics := .some (by decide +kernel)
  opening := rfl
  clause := by
    refine @IsClause.more _ _ _ _ _ _ [] _ ?_ rfl ?_
      (@IsClause.more _ _ _ _ _ _ [token "=" 43 44, rule "integer_literal" 45 46 []] _ ?_ rfl ?_
        (.last ?_))
    · refine ⟨rfl, ⟨_, _, _, (rfl : _ = [_, _] ++ _ :: [_]), ?_, ?_, rfl, ?_⟩, .absent, ?_⟩
      · decide
      · exact ⟨by decide +kernel, by decide +kernel, trivial⟩
      · decide +kernel
      · decide
    · decide +kernel
    · refine ⟨rfl, ⟨_, _, _, (rfl : _ = [_] ++ _ :: [_]), ?_, ?_, rfl, ?_⟩, .signed rfl ?_, ?_⟩
      · decide
      · exact ⟨by decide +kernel, trivial⟩
      · decide +kernel
      · decide +kernel
      · decide
    · decide +kernel
    · refine ⟨rfl, ⟨_, _, _, (rfl : _ = [_] ++ _ :: [_]), ?_, ?_, rfl, ?_⟩, .bare rfl ?_ ?_ ?_, ?_⟩
      · decide
      · exact ⟨by decide +kernel, trivial⟩
      · decide +kernel
      · decide
      · decide +kernel
      · decide
      · decide
  closing := by decide +kernel
  effects := by decide
  requirements := .some (by decide +kernel)
  body := by decide +kernel

theorem readDeclaration_load : Peer.of (.function loadFunction) { throwing := true } {} = .ok loadPeer ∧
    readDeclaration loadPeer.stub
      ⟨rule "function_declaration" 0 96 loadNodes.all, [rule "class_body" 0 96 []]⟩ =
        .ok (.function {
          name := "load".toList
          modifiers := ["public".toList]
          generics := some "<T>".toList
          parameters := loadFunction.passedOn
          isAsync := true
          throws := true
          result := some "T".toList
          requirements := some "T: P".toList
          isMember := true }) := by
  have hpeer : Peer.of (.function loadFunction) { throwing := true } {} = .ok loadPeer := by
    decide +kernel
  have htree : ShowsHeader loadPeer loadFunction.passedOn
      (rule "function_declaration" 0 96 loadNodes.all) loadNodes :=
    ⟨rfl, by decide +kernel, rfl, by decide +kernel, loadNodes_show⟩
  have hread := readDeclaration_stub [rule "class_body" 0 96 []] hpeer (by decide +kernel)
    (by decide +kernel) htree
  exact ⟨hpeer, hread.trans (by decide +kernel)⟩

end Source

end AsyncPeer
