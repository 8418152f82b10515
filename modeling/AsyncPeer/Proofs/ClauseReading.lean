/-
# Parameter clauses are read back

The first half of reading a header: its parameters.  The reader takes the names of a parameter from
nodes, but its type and its default value from the source between two offsets, and these offsets depend
on what follows the parameter: a comma or the closing parenthesis, a node for the sign `=` or none.
`readParameter_entry` says for one parameter which text lies between the offsets, and
`readParameters_clause` follows the clause from comma to comma.

Only texts in the normal form of the reader can come back unchanged: `Parameter.IsNormal`.
-/
import Mathlib.Data.List.TakeWhile
import AsyncPeer.Proofs.HeaderTree
import AsyncPeer.Proofs.Layout

namespace AsyncPeer

/-- The texts of a parameter are as the reader gives them. -/
structure Parameter.IsNormal (p : Parameter) : Prop where
  label : p.label ≠ some p.name
  type : p.type.squeeze = p.type
  unsigned : p.type.getLast? ≠ some '='
  value : ∀ v ∈ p.defaultValue, v.trim = v ∧ v ≠ []

instance (p : Parameter) : Decidable p.IsNormal :=
  decidable_of_iff
    (p.label ≠ some p.name ∧ p.type.squeeze = p.type ∧ p.type.getLast? ≠ some '=' ∧
      ∀ v ∈ p.defaultValue, v.trim = v ∧ v ≠ [])
    ⟨fun ⟨h1, h2, h3, h4⟩ => ⟨h1, h2, h3, h4⟩, fun ⟨h1, h2, h3, h4⟩ => ⟨h1, h2, h3, h4⟩⟩

namespace Source

variable {source before : Text}

/-! ### Texts between offsets -/

lemma slice_of_isPrefix {a m : Text} (h : a ++ m <+: source) :
    slice source a.byteSize (a ++ m).byteSize = .ok m := by
  obtain ⟨b, rfl⟩ := h
  exact slice_eq_ok (List.append_assoc a m b) rfl (Text.byteSize_append a m).symm

lemma Node.Covers.text {n : Node} {t : Text} (h : n.Covers before t)
    (hs : before ++ t <+: source) : n.text source = .ok t := by
  rw [Node.text, h.1, h.2]
  exact slice_of_isPrefix hs

lemma CoverWords.texts {ws : List Text} {ns : List Node} (h : CoverWords before ws ns)
    (hs : before ++ Text.join [' '] ws <+: source) :
    List.Forall₂ (fun n w => n.text source = .ok w) ns ws := by
  induction ws generalizing before ns with
  | nil =>
    cases ns with
    | nil => exact List.Forall₂.nil
    | cons n ns => exact absurd h (by simp [CoverWords])
  | cons w ws ih =>
    cases ns with
    | nil => exact absurd h (by simp [CoverWords])
    | cons n ns =>
      obtain ⟨hcovers, hrest⟩ := h
      cases ws with
      | nil =>
        refine List.Forall₂.cons (hcovers.text hs) ?_
        cases ns with
        | nil => exact List.Forall₂.nil
        | cons m ns => exact absurd hrest (by simp [CoverWords])
      | cons v ws =>
        rw [Text.join_cons_cons, ← List.append_assoc, ← List.append_assoc] at hs
        refine List.Forall₂.cons (hcovers.text ?_) (ih hrest hs)
        exact (List.prefix_append _ [' ']).trans ((List.prefix_append _ _).trans hs)

/-! ### The first node of a kind -/

section First

variable {q : Node → Bool} {xs ys : List Node} {y : Node}

lemma takeWhile_append_cons (hx : ∀ x ∈ xs, q x = true) (hy : q y = false) :
    (xs ++ y :: ys).takeWhile q = xs := by
  rw [List.takeWhile_append_of_pos hx, List.takeWhile_cons_of_neg (by simp [hy]), List.append_nil]

lemma dropWhile_append_cons (hx : ∀ x ∈ xs, q x = true) (hy : q y = false) :
    (xs ++ y :: ys).dropWhile q = y :: ys := by
  rw [List.dropWhile_append_of_pos hx, List.dropWhile_cons_of_neg (by simp [hy])]

lemma find?_append_cons (hx : ∀ x ∈ xs, q x = false) (hy : q y = true) :
    (xs ++ y :: ys).find? q = some y := by
  have hnone : xs.find? q = none := List.find?_eq_none.2 fun x h => by simp [hx x h]
  rw [List.find?_append, hnone, List.find?_cons_of_pos hy]
  rfl

end First

/-! ### One parameter -/

lemma declared_eq {p : Parameter} (hp : p.IsNormal) :
    p.declared = p.typed ++ (p.defaultValue.map fun v => " = ".toList ++ v).getD [] := by
  obtain ⟨label, name, type, defaultValue⟩ := p
  have htype : type.squeeze = type := hp.type
  cases label with
  | none =>
    cases defaultValue with
    | none => simp [Parameter.declared, Parameter.typed, Parameter.words, htype]
    | some v =>
      simp [Parameter.declared, Parameter.typed, Parameter.words, htype, (hp.value v rfl).1]
  | some l =>
    have hne : l ≠ name := fun h => hp.label (congrArg some h)
    cases defaultValue with
    | none => simp [Parameter.declared, Parameter.typed, Parameter.words, htype, hne, Text.join]
    | some v =>
      simp [Parameter.declared, Parameter.typed, Parameter.words, htype, hne, Text.join,
        (hp.value v rfl).1]

/-- What the reader makes of the text between the colon and the end of the type. -/
lemma squeeze_type {t y : Text} (ht : t.squeeze = t) (hsign : t.getLast? ≠ some '=')
    (hy : y.blank = true) :
    ((Text.trim ([' '] ++ t ++ y)).dropEndWhile (· == '=')).squeeze = t := by
  rw [Text.trim_blank_append_blank (by decide) hy, Text.trim_of_squeezed ht,
    Text.dropEndWhile_eq_self fun c hc => ?_, ht]
  have hne : c ≠ '=' := fun h => hsign (h ▸ hc)
  simpa using hne

/-- The same, with the sign of the default value behind the type. -/
lemma squeeze_type_sign {t : Text} (ht : t.squeeze = t) (hne : t ≠ []) :
    ((Text.trim ([' '] ++ t ++ " = ".toList)).dropEndWhile (· == '=')).squeeze = t := by
  obtain ⟨c, u, rfl⟩ := List.exists_cons_of_ne_nil hne
  have hc : Text.isBlank c = false := Text.head?_of_trimmed (Text.trim_of_squeezed ht) c rfl
  have hsplit : [' '] ++ (c :: u) ++ " = ".toList = [' '] ++ (c :: u ++ [' '] ++ ['=']) ++ [' '] := by
    simp
  have htrim : Text.trim (c :: u ++ [' '] ++ ['=']) = c :: u ++ [' '] ++ ['='] := by
    refine Text.trim_eq_self (fun d hd => ?_) (fun d hd => ?_)
    · obtain rfl : c = d := by simpa using hd
      exact hc
    · rw [List.getLast?_concat, Option.mem_some] at hd
      subst hd
      decide
  have hdrop : Text.dropEndWhile (· == '=') (c :: u ++ [' '] ++ ['=']) = c :: u ++ [' '] := by
    rw [Text.dropEndWhile_append_of_all (by decide), Text.dropEndWhile_eq_self fun d hd => ?_]
    rw [List.getLast?_concat, Option.mem_some] at hd
    subst hd
    decide
  rw [hsplit, Text.trim_blank_append_blank (by decide) (by decide), htrim, hdrop]
  exact Text.squeeze_blank_append_blank (x := []) rfl (by decide) ht

lemma parameterNames?_words (p : Parameter) : parameterNames? p.words = some (p.label, p.name) := by
  rw [Parameter.words]
  cases p.label <;> rfl

lemma slice_max {a m : Text} (h : a ++ m <+: source) :
    slice source a.byteSize (max (a ++ m).byteSize a.byteSize) = .ok m := by
  have hle : a.byteSize ≤ (a ++ m).byteSize := by simp
  rw [Nat.max_eq_left hle]
  exact slice_of_isPrefix h

/-- The entry of a parameter is read back if its type and its default value are what lies between the
offsets.  The type ends at the sign `=`, at the value or at the end of the entry, and the value begins
behind the sign or with its own node. -/
lemma readParameter_of_slices {p : Parameter} {n stop : Node} {values rest : List Node}
    (he : IsEntry before p n values) (hp : p.IsNormal) (hstop : endsEntry stop = true)
    (hs : before ++ p.declared <+: source) {equals value : Option Node} {t : Text} {v : Option Text}
    (hequals : values.find? (fun m => m.kind == "=") = equals)
    (hvalue : values.find? (fun m => m.isNamed && m.kind != "attribute") = value)
    (htype : slice source (before ++ Text.join [' '] p.words ++ [':']).byteSize
      (max (((equals.map Node.start).or (value.map Node.start)).getD stop.start)
        (before ++ Text.join [' '] p.words ++ [':']).byteSize) = .ok t)
    (hv : ((equals.map Node.stop).or (value.map Node.start)).mapM
      (fun o => slice source o (max stop.start o)) = .ok v)
    (htext : (t.trim.dropEndWhile (· == '=')).squeeze = p.type)
    (hdefault : (v.map Text.trim).filter (fun t => !t.isEmpty) = p.defaultValue) :
    readParameter source n (values ++ stop :: rest) = .ok p := by
  obtain ⟨names, colon, types, hparts, hnames, hwords, hcolon, -, hcovers⟩ := he.parts
  rw [← hcovers] at htype
  -- the names stand in front of the colon
  have hbefore : n.parts.takeWhile (fun m => m.kind != ":") = names := by
    rw [hparts]
    exact takeWhile_append_cons (fun m hm => by simp [hnames m hm]) (by simp [hcolon])
  have hfind : n.parts.find? (fun m => m.kind == ":") = some colon := by
    rw [hparts]
    exact find?_append_cons (fun m hm => by simp [hnames m hm]) (by simp [hcolon])
  have htexts : names.mapM (Node.text source) = .ok p.words := by
    refine mapM_eq_ok (hwords.texts (List.IsPrefix.trans ?_ hs))
    rw [declared_eq hp, Parameter.typed]
    simp
  -- the entry goes up to `stop`
  have hplain : ∀ m ∈ values, endsEntry m = false := by
    intro m hm
    have := he.plain m hm
    simp only [headerKinds, List.mem_cons, not_or] at this
    simp [endsEntry, this.1, this.2.1]
  have hentry : (values ++ stop :: rest).takeWhile (fun m => !endsEntry m) = values :=
    takeWhile_append_cons (fun m hm => by simp [hplain m hm]) (by simp [hstop])
  have hends : (values ++ stop :: rest).find? endsEntry = some stop :=
    find?_append_cons hplain hstop
  simp only [readParameter, hbefore, hfind, htexts, hentry, hends, hequals, hvalue, htype, hv,
    parameterNames?_words, Option.map_some, Option.getD_some, bind, Except.bind, pure, Except.pure,
    htext, hdefault]

/-- The entry of a parameter is read back. -/
lemma readParameter_entry {p : Parameter} {n stop : Node} {values rest : List Node}
    (he : IsEntry before p n values) (hp : p.IsNormal) (hne : p.type ≠ [])
    (hstop : endsEntry stop = true) (hstart : stop.start = (before ++ p.declared).byteSize)
    (hs : before ++ p.declared <+: source) :
    readParameter source n (values ++ stop :: rest) = .ok p := by
  have hdeclared := hs
  -- the type and the default value lie behind the colon, in a source that begins with `start`
  obtain ⟨start, hcut⟩ : ∃ start, before ++ Text.join [' '] p.words ++ [':'] = start := ⟨_, rfl⟩
  have hsplit : before ++ p.declared =
      start ++ ([' '] ++ p.type ++ (p.defaultValue.map fun v => " = ".toList ++ v).getD []) := by
    rw [declared_eq hp, Parameter.typed, ← hcut]
    simp
  have htyped : before ++ p.typed = start ++ ([' '] ++ p.type) := by
    rw [Parameter.typed, ← hcut]
    simp
  rw [hsplit] at hs hstart
  have hvalue := he.value
  rw [htyped] at hvalue
  generalize hv : p.defaultValue = v at hvalue hs hstart
  cases hvalue with
  | absent =>
    refine readParameter_of_slices he hp hstop hdeclared rfl rfl ?_ rfl
      (squeeze_type hp.type hp.unsigned (y := []) rfl) hv.symm
    simp only [List.find?_nil, Option.map_none, Option.or_none, Option.getD_none, hstart, hcut]
    exact slice_max hs
  | @signed v equals more kind covers =>
    have hwhole : start ++ ([' '] ++ p.type ++ (" = ".toList ++ v)) =
        start ++ ([' '] ++ p.type) ++ [' '] ++ ['='] ++ ([' '] ++ v) := by
      simp
    rw [Option.map_some, Option.getD_some, hwhole] at hs hstart
    have htrim : Text.trim ([' '] ++ v) = v := by
      rw [Text.trim_space_append, (hp.value v hv).1]
    refine readParameter_of_slices he hp hstop hdeclared
      (List.find?_cons_of_pos (by simp [kind])) rfl (v := some ([' '] ++ v))
      (t := [' '] ++ p.type ++ [' ']) ?_ ?_ (squeeze_type hp.type hp.unsigned (by decide)) ?_
    · rw [Option.map_some, Option.some_or, Option.getD_some, covers.1, hcut, List.append_assoc]
      refine slice_max (List.IsPrefix.trans ?_ hs)
      simp
    · rw [Option.map_some, Option.some_or, Option.mapM_some, covers.2, hstart, slice_max hs]
      rfl
    · rw [Option.map_some, htrim, hv]
      simp [(hp.value v hv).2]
  | @bare v value more named kind begins unsigned =>
    -- without a node of its own the sign is read as part of the type
    have hwhole : start ++ ([' '] ++ p.type ++ (" = ".toList ++ v)) =
        start ++ ([' '] ++ p.type) ++ " = ".toList ++ v := by
      simp
    rw [Option.map_some, Option.getD_some, hwhole] at hs hstart
    refine readParameter_of_slices he hp hstop hdeclared
      (List.find?_eq_none.2 fun m hm => by simp [unsigned m hm])
      (List.find?_cons_of_pos (by simp [named, kind])) (v := some v)
      (t := [' '] ++ p.type ++ " = ".toList) ?_ ?_ (squeeze_type_sign hp.type hne) ?_
    · rw [Option.map_none, Option.none_or, Option.map_some, Option.getD_some, begins, hcut,
        List.append_assoc]
      refine slice_max (List.IsPrefix.trans ?_ hs)
      simp
    · rw [Option.map_none, Option.none_or, Option.map_some, Option.mapM_some, begins, hstart,
        slice_max hs]
      rfl
    · rw [Option.map_some, (hp.value v hv).1, hv]
      simp [(hp.value v hv).2]

/-! ### The parameter clause -/

lemma readParameters_skip {nodes : List Node} (h : ∀ m ∈ nodes, m.kind ≠ ")" ∧ m.kind ≠ "parameter")
    (rest : List Node) : readParameters source (nodes ++ rest) = readParameters source rest := by
  induction nodes with
  | nil => rfl
  | cons m nodes ih =>
    obtain ⟨hclose, hparameter⟩ := h m (by simp)
    rw [List.cons_append, readParameters, if_neg (by simp [hclose]), if_neg (by simp [hparameter])]
    exact ih fun l hl => h l (List.mem_cons_of_mem m hl)

lemma readParameters_cons_entry {p : Parameter} {ps : List Parameter} {n stop : Node}
    {values rest : List Node} (he : IsEntry before p n values)
    (hfirst : readParameter source n (values ++ stop :: rest) = .ok p)
    (hrest : readParameters source (stop :: rest) = .ok ps) :
    readParameters source (n :: values ++ stop :: rest) = .ok (p :: ps) := by
  have hplain : ∀ m ∈ values, m.kind ≠ ")" ∧ m.kind ≠ "parameter" := by
    intro m hm
    have := he.plain m hm
    simp only [headerKinds, List.mem_cons, not_or] at this
    exact ⟨this.2.1, this.2.2.1⟩
  rw [List.cons_append, readParameters, if_neg (by simp [he.kind]), if_pos (by simp [he.kind]), hfirst,
    readParameters_skip hplain, hrest]
  rfl

/-- The entries of a parameter clause are read back. -/
lemma readParameters_clause {ps : List Parameter} {nodes rest : List Node} {close : Node}
    (h : IsClause before ps nodes) (hp : ∀ p ∈ ps, p.IsNormal ∧ p.type ≠ [])
    (hkind : close.kind = ")")
    (hstart : close.start = (before ++ Text.join ", ".toList (ps.map Parameter.declared)).byteSize)
    (hs : before ++ Text.join ", ".toList (ps.map Parameter.declared) <+: source) :
    readParameters source (nodes ++ close :: rest) = .ok ps := by
  have hclose : endsEntry close = true := by simp [endsEntry, hkind]
  have hend : readParameters source (close :: rest) = .ok [] := by
    rw [readParameters, if_pos (by simp [hkind])]
  induction h with
  | nil => exact hend
  | @last before p n values entry =>
    obtain ⟨hnormal, htype⟩ := hp p (by simp)
    exact readParameters_cons_entry entry
      (readParameter_entry entry hnormal htype hclose hstart hs) hend
  | @more before p q ps n comma values nodes entry kind covers clause ih =>
    obtain ⟨hnormal, htype⟩ := hp p (by simp)
    have hjoin : before ++ Text.join ", ".toList ((p :: q :: ps).map Parameter.declared) =
        before ++ p.declared ++ ", ".toList ++
          Text.join ", ".toList ((q :: ps).map Parameter.declared) := by
      rw [List.map_cons, List.map_cons, Text.join_cons_cons, ← List.map_cons, ← List.append_assoc,
        ← List.append_assoc]
    rw [hjoin] at hs hstart
    -- the entry ends at the comma, and the rest of the clause is read behind it
    have hcomma : endsEntry comma = true := by simp [endsEntry, kind]
    have hrest := ih (fun r hr => hp r (List.mem_cons_of_mem p hr)) hstart hs
    have hskip : readParameters source (comma :: (nodes ++ close :: rest)) = .ok (q :: ps) := by
      rw [readParameters, if_neg (by simp [kind]), if_neg (by simp [kind])]
      exact hrest
    have hdeclared : before ++ p.declared <+: source :=
      (List.prefix_append _ _).trans ((List.prefix_append _ _).trans hs)
    rw [List.append_assoc]
    exact readParameters_cons_entry entry
      (readParameter_entry entry hnormal htype hcomma covers.1 hdeclared) hskip

end Source

end AsyncPeer
