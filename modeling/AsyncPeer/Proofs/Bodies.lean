/-
# Bodies are not looked at

The body of a function is the last of the nodes below its own.  It shows in three places of what is
read: it begins where the effects and the result end at the latest, the node of the function ends where
it does, and its flags are among those of the nodes.  Still, the function is read as its header alone
would be, from a source that ends in front of the body (`readDeclaration_header_iff`): of the nodes
behind a closing parenthesis only their beginnings count, and no place of the header reaches into the
body.  So two functions that share a header are read alike, whatever their bodies are and whatever
follows them (`readDeclaration_body_irrelevant`).
-/
import AsyncPeer.Proofs.Comments
import AsyncPeer.Proofs.Cuts

namespace AsyncPeer

/-- What is cut out of the front of a text does not depend on the rest. -/
lemma Text.slice?_append_of_le {a : Text} {i j : Nat} (hj : j ≤ a.byteSize) (b : Text) :
    (a ++ b).slice? i j = a.slice? i j := by
  refine Option.ext fun t => ?_
  rw [Text.slice?_eq_some_iff, Text.slice?_eq_some_iff]
  constructor
  · rintro ⟨x, y, hsplit, hx, hy⟩
    rw [← List.append_assoc] at hsplit
    obtain ⟨m, rfl, -⟩ := Text.exists_append_of_le hsplit.symm (by rw [Text.byteSize_append]; omega)
    exact ⟨x, m, List.append_assoc x t m, hx, hy⟩
  · rintro ⟨x, y, rfl, hx, hy⟩
    exact ⟨x, y ++ b, by simp only [List.append_assoc], hx, hy⟩

namespace Source

/-! ### Only offsets count -/

/-- The offsets between which the place is. -/
def Place.ends (p : Place) : Span :=
  ⟨p.start, p.stop⟩

/-- The offsets between which the parts of a header are. -/
def ends? (n : Node) : Option (HeaderParts Span) :=
  (layout? n).map (HeaderParts.map Place.ends)

/-- A function is read from the texts between these offsets. -/
lemma readFunction_eq_ok_iff_ends {source : Text} {n : Node} {above : List Node} {s : Signature} :
    readFunction source n above = .ok s ↔
      ∃ h, ends? n = some h ∧ (∀ e ∈ h.cut, (source.slice? e.start e.stop).isSome) ∧
        (h.map fun e => (source.slice? e.start e.stop).getD []).signature (isMember above) = s := by
  rw [readFunction_eq_ok_iff]
  constructor
  · rintro ⟨h, hlayout, hoks, hsignature⟩
    refine ⟨h.map Place.ends, by rw [ends?, hlayout, Option.map_some], ?_, ?_⟩
    · rw [HeaderParts.cut_map]
      exact List.forall_mem_map.2 hoks
    · rw [HeaderParts.map_map]
      exact hsignature
  · rintro ⟨_, hends, hoks, hsignature⟩
    obtain ⟨h, hlayout, rfl⟩ := Option.map_eq_some_iff.1 hends
    refine ⟨h, hlayout, fun p hp => ?_, ?_⟩
    · rw [HeaderParts.cut_map] at hoks
      exact hoks p.ends (List.mem_map_of_mem (f := Place.ends) hp)
    · rw [HeaderParts.map_map] at hsignature
      exact hsignature

lemma HeaderParts.map_congr {α β : Type} {f g : α → β} {h : HeaderParts α}
    (hfg : ∀ a ∈ h.cut, f a = g a) : h.map f = h.map g := by
  simp only [cut, List.forall_mem_cons, List.forall_mem_append, List.forall_mem_flatMap] at hfg
  obtain ⟨heffects, hname, hmodifiers, hgenerics, hparameters, hrequirements⟩ := hfg
  have hps : h.parameters.map (ParameterParts.map f) = h.parameters.map (ParameterParts.map g) :=
    List.map_congr_left fun ps hmem => ParameterParts.map_congr (hparameters ps hmem)
  simp only [map, hname, heffects, hps, List.map_congr_left hmodifiers, List.map_congr_left hgenerics,
    List.map_congr_left hrequirements]

/-! ### Nodes behind the closing parenthesis -/

lemma takeWhile_append_of_exists {α : Type} {p : α → Bool} {l : List α} (h : ∃ a ∈ l, p a = false)
    (t : List α) : (l ++ t).takeWhile p = l.takeWhile p := by
  induction l with
  | nil => simp at h
  | cons b l ih =>
    rw [List.cons_append, List.takeWhile_cons, List.takeWhile_cons]
    cases hb : p b with
    | false => rfl
    | true =>
      obtain ⟨a, ha, hpa⟩ := h
      have hal : a ∈ l := (List.mem_cons.1 ha).resolve_left fun heq => by simp [heq, hb] at hpa
      rw [ih ⟨a, hal, hpa⟩]

/-- What is behind an element that stops a reading does not change where it stops. -/
lemma takeWhile_dropWhile_append {α : Type} {p : α → Bool} {l rest : List α} {a : α}
    (h : l.dropWhile p = a :: rest) (t : List α) :
    (l ++ t).takeWhile p = l.takeWhile p ∧ (l ++ t).dropWhile p = a :: (rest ++ t) := by
  have hstop : ∃ b ∈ l, p b = false := by
    by_contra hall
    have hnil : l.dropWhile p = [] := List.dropWhile_eq_nil_iff.2 (by simpa using hall)
    exact List.cons_ne_nil a rest (h.symm.trans hnil)
  refine ⟨takeWhile_append_of_exists hstop t, ?_⟩
  rw [List.dropWhile_append, h]
  rfl

lemma find?_append_of_exists {α : Type} {p : α → Bool} {l : List α} (h : ∃ a ∈ l, p a = true)
    (t : List α) : (l ++ t).find? p = l.find? p := by
  obtain ⟨a, ha⟩ := Option.isSome_iff_exists.1 (List.find?_isSome.2 h)
  rw [List.find?_append, ha, Option.some_or]

section Behind

variable {n : Node} {following : List Node}

/-- The entry of a parameter is over before the nodes that come behind its end. -/
lemma parameterLayout?_append (h : ∃ m ∈ following, endsEntry m = true) (behind : List Node) :
    parameterLayout? n (following ++ behind) = parameterLayout? n following := by
  have hentry : (following ++ behind).takeWhile (fun p => !endsEntry p) =
      following.takeWhile fun p => !endsEntry p :=
    takeWhile_append_of_exists (by simpa using h) behind
  have hend : entryEnd n (following ++ behind) = entryEnd n following := by
    rw [entryEnd, entryEnd, find?_append_of_exists h]
  have hequals : equals? (following ++ behind) = equals? following := by
    rw [equals?, equals?, hentry]
  have hvalue : value? (following ++ behind) = value? following := by
    rw [value?, value?, hentry]
  simp only [parameterLayout?, parameterParts, typeEnd, defaultStart?, hend, hequals, hvalue]

/-- The parameters are over before the nodes that come behind the closing parenthesis. -/
lemma parameterLayouts?_append (h : ∃ m ∈ following, m.kind = ")") (behind : List Node) :
    parameterLayouts? (following ++ behind) = parameterLayouts? following := by
  induction following with
  | nil => simp at h
  | cons m rest ih =>
    rw [List.cons_append, parameterLayouts?, parameterLayouts?]
    by_cases hclose : m.kind = ")"
    · simp [hclose]
    · obtain ⟨close, hmem, hkind⟩ := h
      have hrest : close ∈ rest :=
        (List.mem_cons.1 hmem).resolve_left fun heq => hclose (heq ▸ hkind)
      have hends : ∃ m ∈ rest, endsEntry m = true := ⟨close, hrest, by simp [endsEntry, hkind]⟩
      rw [parameterLayout?_append hends, ih ⟨close, hrest, hkind⟩]

end Behind

/-! ### The header alone -/

/-- Below the node of a function stand the nodes of its header and then its body.  The body begins
where the text in front of it ends, inside the node, and no node of the header reaches into it. -/
structure HasHeader (lead : Text) (header : List Node) (n : Node) : Prop where
  kind : n.kind = "function_declaration"
  inside : ∀ c ∈ header, ∀ m ∈ c.nodes, m.start ≤ lead.byteSize ∧ m.stop ≤ lead.byteSize
  body : ∃ b, b.kind = "function_body" ∧ n.children = header ++ [b] ∧ b.start = lead.byteSize ∧
    lead.byteSize ≤ n.stop

/-- The node of a function that has only its header. -/
def headerNode (lead : Text) (header : List Node) : Node :=
  rule "function_declaration" 0 lead.byteSize header

section Header

variable {lead : Text} {header : List Node} {n : Node}

/-- In a well-placed tree every node with a body has a header. -/
lemma HasHeader.of_placed {source : Text} {b : Node} (placed : ∀ m ∈ n.nodes, Placed source m)
    (hkind : n.kind = "function_declaration") (hchildren : n.children = header ++ [b])
    (hbody : b.kind = "function_body") (hstart : b.start = lead.byteSize) : HasHeader lead header n := by
  have hn := placed n n.self_mem_nodes
  have hchild : ∀ c ∈ header ++ [b], c ∈ n.nodes := fun c hc => Node.child_mem_nodes (hchildren ▸ hc)
  refine ⟨hkind, fun c hc m hm => ?_, b, hbody, hchildren, hstart, ?_⟩
  · have hcn : c ∈ n.nodes := hchild c (List.mem_append_left [b] hc)
    have hwithin := Placed.within (fun k hk => placed k (Node.mem_nodes_trans hk hcn)) hm
    have hle := (placed m (Node.mem_nodes_trans hm hcn)).le
    have hfront : c.stop ≤ b.start := by
      have hordered := hn.ordered
      rw [hchildren, List.pairwise_append] at hordered
      exact hordered.2.2 c hc b List.mem_cons_self
    omega
  · have hle := (placed b (hchild b (by simp))).le
    have hin := (hn.inside b (hchildren ▸ by simp)).2
    omega

/-- The effects end in front of the body, if nothing else ends them before. -/
lemma ends_effectsPlace {b close : Node} {rest : List Node} (hkind : b.kind = "function_body")
    (hstart : b.start = lead.byteSize) (hstop : lead.byteSize ≤ n.stop) :
    (effectsPlace n close (rest ++ [b])).ends =
      (effectsPlace (headerNode lead header) close rest).ends := by
  have hlast : (rest ++ [b]).filter (fun p => p.kind == "type_constraints" || p.kind == "function_body") =
      rest.filter (fun p => p.kind == "type_constraints" || p.kind == "function_body") ++ [b] := by
    rw [List.filter_append, List.filter_cons_of_pos (by simp [hkind]), List.filter_nil]
  have hoffset : b.front.offset = lead.byteSize := hstart
  have hmin : min lead.byteSize n.back.offset = lead.byteSize := Nat.min_eq_left hstop
  -- the end of the node gives way to the beginning of the body, wherever this comes in
  have hfold : ∀ os : List Nat, (os ++ [b.front.offset]).foldl min n.back.offset =
      os.foldl min (headerNode lead header).back.offset := by
    intro os
    calc (os ++ [b.front.offset]).foldl min n.back.offset
      _ = min (os.foldl min n.back.offset) lead.byteSize := by rw [List.foldl_append, hoffset]; rfl
      _ = min lead.byteSize (os.foldl min n.back.offset) := Nat.min_comm _ _
      _ = os.foldl min (min lead.byteSize n.back.offset) := List.foldl_assoc.symm
      _ = os.foldl min lead.byteSize := by rw [hmin]
  simp only [effectsPlace, hlast, Place.ends, Place.start, Place.stop, List.map_append, List.map_cons,
    List.map_nil, hfold]

/-- The parts of a header are where they are without the body. -/
lemma map_ends_headerParts {b name close : Node} {rest : List Node} {pss : List (ParameterParts Place)}
    (hkind : b.kind = "function_body") (hstart : b.start = lead.byteSize)
    (hstop : lead.byteSize ≤ n.stop) (hclose : ∃ m ∈ rest, m.kind = ")")
    (hfront : n.parts.takeWhile (fun p => p.kind != "func") =
      (headerNode lead header).parts.takeWhile fun p => p.kind != "func") :
    (headerParts n name (rest ++ [b]) pss close).map Place.ends =
      (headerParts (headerNode lead header) name rest pss close).map Place.ends := by
  have hclause : (rest ++ [b]).takeWhile (fun p => p.kind != ")") =
      rest.takeWhile fun p => p.kind != ")" :=
    takeWhile_append_of_exists (by simpa using hclose) [b]
  have hrequirements : nodesOf "type_constraints" (rest ++ [b]) = nodesOf "type_constraints" rest := by
    rw [nodesOf, nodesOf, List.filter_append, List.filter_cons_of_neg (by simp [hkind]), List.filter_nil,
      List.append_nil]
  have heffects : (effectsPlace n close (rest ++ [b])).ends =
      (effectsPlace (headerNode lead header) close rest).ends := ends_effectsPlace hkind hstart hstop
  simp only [headerParts, HeaderParts.map, hfront, hclause, hrequirements, heffects]

/-- The parts of the node are those of the header and the body. -/
lemma HasHeader.exists_parts (h : HasHeader lead header n) :
    ∃ b, b.kind = "function_body" ∧ b.start = lead.byteSize ∧ lead.byteSize ≤ n.stop ∧
      n.parts = (headerNode lead header).parts ++ [b] := by
  obtain ⟨b, hkind, hchildren, hstart, hstop⟩ := h.body
  refine ⟨b, hkind, hstart, hstop, ?_⟩
  rw [Node.parts, hchildren, List.filter_append,
    List.filter_cons_of_pos (by simp [Node.isComment, hkind])]
  rfl

lemma find?_close_append {b : Node} (hkind : b.kind = "function_body") (rest : List Node) :
    (rest ++ [b]).find? (fun p => p.kind == ")") = rest.find? fun p => p.kind == ")" := by
  have hbody : [b].find? (fun p => p.kind == ")") = none := by simp [hkind]
  rw [List.find?_append, hbody, Option.or_none]

/-- The parts of a header are found without the body. -/
lemma ends?_eq (h : HasHeader lead header n) : ends? n = ends? (headerNode lead header) := by
  obtain ⟨b, hkind, hstart, hstop, hparts⟩ := h.exists_parts
  have hflags : n.parts.any (fun p => p.kind != "function_body" && (p.hasError || p.isMissing)) =
      (headerNode lead header).parts.any
        fun p => p.kind != "function_body" && (p.hasError || p.isMissing) := by
    rw [hparts, List.any_append, List.any_cons, hkind]
    simp
  rw [ends?, ends?, layout?, layout?, hflags]
  by_cases hbad : ((headerNode lead header).parts.any fun p =>
      p.kind != "function_body" && (p.hasError || p.isMissing)) = true
  · rw [if_pos hbad, if_pos hbad]
  rw [if_neg hbad, if_neg hbad]
  cases hfront : (headerNode lead header).parts.dropWhile fun p => p.kind != "func" with
  | nil =>
    have hdrop : n.parts.dropWhile (fun p => p.kind != "func") = [] := by
      rw [hparts, List.dropWhile_append, hfront, List.dropWhile_cons, hkind]
      rfl
    rw [hdrop]
  | cons func front =>
    obtain ⟨hlead, hdrop⟩ := takeWhile_dropWhile_append hfront [b]
    rw [← hparts] at hlead hdrop
    rw [hdrop]
    cases front with
    | nil => rfl
    | cons name rest =>
      dsimp only [List.cons_append]
      rw [find?_close_append hkind]
      cases hfind : rest.find? fun p => p.kind == ")" with
      | none =>
        -- without a closing parenthesis there is no layout at all
        cases parameterLayouts? rest <;> cases parameterLayouts? (rest ++ [b]) <;> rfl
      | some close =>
        have hclose : ∃ m ∈ rest, m.kind = ")" :=
          ⟨close, List.mem_of_find?_eq_some hfind, by simpa using List.find?_some hfind⟩
        rw [parameterLayouts?_append hclose]
        cases parameterLayouts? rest with
        | none => rfl
        | some pss => exact congrArg some (map_ends_headerParts hkind hstart hstop hclose hlead)

lemma isMember_congr {above above' : List Node} (h : above.map Node.kind = above'.map Node.kind) :
    isMember above = isMember above' := by
  induction above generalizing above' with
  | nil =>
    obtain rfl := List.map_eq_nil_iff.1 h.symm
    rfl
  | cons p above ih =>
    cases above' with
    | nil => cases h
    | cons p' above' =>
      obtain ⟨hkind, hrest⟩ := List.cons.inj h
      rw [isMember, isMember, hkind, ih hrest]

/-- No part of a header reaches behind the nodes of a tree. -/
lemma Place.IsOf.stop_le {tree : Node} {o : Nat} (hnodes : ∀ m ∈ tree.nodes, m.start ≤ o ∧ m.stop ≤ o)
    {p : Place} (hp : p.IsOf tree) : p.stop ≤ o := by
  have hedge : ∀ e : Edge, e.IsOf tree → e.offset ≤ o := by
    rintro e ⟨m, hm, rfl | rfl⟩
    · exact (hnodes m hm).1
    · exact (hnodes m hm).2
  cases p with
  | node s =>
    obtain ⟨m, hm, rfl⟩ := hp
    exact (hnodes m hm).2
  | gap left right others =>
    obtain ⟨hleft, hright, hothers⟩ := hp
    refine Nat.max_le.2 ⟨?_, hedge left hleft⟩
    rcases foldl_min_cases right.offset (others.map Edge.offset) with h | h
    · rw [h]
      exact hedge right hright
    · obtain ⟨e, he, hoffset⟩ := List.mem_map.1 h
      rw [← hoffset]
      exact hedge e (hothers e he)

/-- The offsets of a header are in front of the body. -/
lemma stop_le_of_ends? (h : HasHeader lead header n) {hs : HeaderParts Span}
    (hends : ends? (headerNode lead header) = some hs) :
    ∀ e ∈ hs.cut, e.stop ≤ lead.byteSize := by
  obtain ⟨hp, hlayout, rfl⟩ := Option.map_eq_some_iff.1 hends
  have hnodes : ∀ m ∈ (headerNode lead header).nodes,
      m.start ≤ lead.byteSize ∧ m.stop ≤ lead.byteSize := by
    intro m hm
    rcases Node.mem_nodes_iff.1 hm with rfl | ⟨c, hc, hmc⟩
    · exact ⟨Nat.zero_le _, Nat.le_refl _⟩
    · exact h.inside c hc m hmc
  rw [HeaderParts.cut_map]
  exact List.forall_mem_map.2 fun p hp => (isOf_of_layout? hlayout p hp).stop_le hnodes

lemma readDeclaration_eq_ok_iff {source : Text} {l : Located}
    (hkind : l.node.kind = "function_declaration") {d : Declaration} :
    readDeclaration source l = .ok d ↔
      ∃ s, readFunction source l.node l.above = .ok s ∧ .function s = d := by
  simp only [readDeclaration, hkind]
  cases readFunction source l.node l.above <;> simp [Except.map]

/-- A function is read as its header alone is from the text in front of the body. -/
lemma readDeclaration_header_iff {l : Located} (h : HasHeader lead header l.node) (tail : Text)
    {d : Declaration} :
    readDeclaration (lead ++ tail) l = .ok d ↔
      readDeclaration lead ⟨headerNode lead header, l.above⟩ = .ok d := by
  rw [readDeclaration_eq_ok_iff h.kind,
    readDeclaration_eq_ok_iff (l := ⟨headerNode lead header, l.above⟩) rfl]
  refine exists_congr fun s => and_congr_left fun _ => ?_
  rw [readFunction_eq_ok_iff_ends, readFunction_eq_ok_iff_ends, ends?_eq h]
  refine exists_congr fun hs => and_congr_right fun hends => ?_
  have hcut : ∀ e ∈ hs.cut,
      (lead ++ tail).slice? e.start e.stop = lead.slice? e.start e.stop := fun e he =>
    Text.slice?_append_of_le (stop_le_of_ends? h hends e he) tail
  have hsome : (∀ e ∈ hs.cut, ((lead ++ tail).slice? e.start e.stop).isSome) ↔
      ∀ e ∈ hs.cut, (lead.slice? e.start e.stop).isSome :=
    forall₂_congr fun e he => by rw [hcut e he]
  have htexts : hs.map (fun e => ((lead ++ tail).slice? e.start e.stop).getD []) =
      hs.map fun e => (lead.slice? e.start e.stop).getD [] :=
    HeaderParts.map_congr fun e he => by rw [hcut e he]
  rw [hsome, htexts]

end Header

/-- **Bodies are not looked at.**  Two functions with the same header, in front of any two bodies and
whatever follows these, are read alike if the kinds of the nodes above them are the same: either both
are read, as the same declaration, or neither is. -/
theorem readDeclaration_body_irrelevant {lead tail tail' : Text} {header : List Node} (l l' : Located)
    (h : HasHeader lead header l.node) (h' : HasHeader lead header l'.node)
    (habove : l.above.map Node.kind = l'.above.map Node.kind) (d : Declaration) :
    readDeclaration (lead ++ tail) l = .ok d ↔ readDeclaration (lead ++ tail') l' = .ok d := by
  rw [readDeclaration_header_iff h, readDeclaration_header_iff h', readDeclaration_eq_ok_iff rfl,
    readDeclaration_eq_ok_iff rfl]
  simp only [readFunction_eq_ok_iff, isMember_congr habove]

/-! ### A sound and a malformed body -/

/-- The text in front of the bodies. -/
def commonLead : Text :=
  "func f(c: (Int) -> Void) throws -> Int ".toList

/-- The nodes of its header. -/
def commonHeader : List Node :=
  [token "func" 0 4, rule "simple_identifier" 5 6 [], token "(" 6 7,
    rule "parameter" 7 23
      [rule "simple_identifier" 7 8 [], token ":" 8 9, rule "function_type" 10 23 []],
    token ")" 23 24, token "throws" 25 31, token "->" 32 34, rule "user_type" 35 38 []]

/-- The function in front of `\x7b 1 \x7d`. -/
def soundFunction : Node :=
  rule "function_declaration" 0 44
    (commonHeader ++ [rule "function_body" 39 44 [rule "statements" 41 42 []]])

/-- The function in front of `\x7b where ) -> (`, in which the parser gets stuck. -/
def malformedFunction : Node :=
  ⟨"function_declaration", true, false, true, 0, 53,
    commonHeader ++ [⟨"function_body", true, false, true, 39, 53,
      [token "\x7b" 39 40, ⟨"ERROR", true, false, true, 41, 53,
        [rule "type_constraints" 41 46 [], token ")" 47 48, token "->" 49 51]⟩]⟩]⟩

theorem readDeclaration_body_irrelevant_malformed :
    HasHeader commonLead commonHeader soundFunction ∧
      HasHeader commonLead commonHeader malformedFunction ∧
      ∃ s, readDeclaration (commonLead ++ "\x7b 1 \x7d\n".toList)
          ⟨soundFunction, [rule "source_file" 0 45 [soundFunction]]⟩ = .ok (.function s) ∧
        readDeclaration (commonLead ++ "\x7b where ) -> (".toList)
          ⟨malformedFunction, [⟨"source_file", true, false, true, 0, 53, [malformedFunction]⟩]⟩ =
          .ok (.function s) := by
  have hsoundPlaced : ∀ m ∈ soundFunction.nodes, Placed (commonLead ++ "\x7b 1 \x7d\n".toList) m := by
    decide +kernel
  have hmalformedPlaced :
      ∀ m ∈ malformedFunction.nodes, Placed (commonLead ++ "\x7b where ) -> (".toList) m := by
    decide +kernel
  have hsound : HasHeader commonLead commonHeader soundFunction :=
    .of_placed hsoundPlaced rfl rfl rfl rfl
  have hmalformed : HasHeader commonLead commonHeader malformedFunction :=
    .of_placed hmalformedPlaced rfl rfl rfl rfl
  have hread : readDeclaration (commonLead ++ "\x7b 1 \x7d\n".toList)
      ⟨soundFunction, [rule "source_file" 0 45 [soundFunction]]⟩ = .ok (.function
        { name := "f".toList
          parameters := [{ name := "c".toList, type := "(Int) -> Void".toList }]
          throws := true
          result := some "Int".toList
          isMember := false }) := by
    decide +kernel
  exact ⟨hsound, hmalformed, _, hread,
    (readDeclaration_body_irrelevant ⟨soundFunction, _⟩ ⟨malformedFunction, _⟩ hsound hmalformed rfl _).1
      hread⟩

end Source

end AsyncPeer
