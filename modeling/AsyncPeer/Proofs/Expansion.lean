/-
# Expansion is a splice

The expansion of a source computes its edits from the offsets of the source and makes them one by
one.  This file shows that for the tree of a parser the outcome is a single splice of the source:

* every site that has a peer deletes the range of its removal, unless attributes shall stay;
* at the end of its declaration the peer goes in, indented like the attribute;
* every other character of the source is kept, once and in order.

The work is to tell the edits apart.  The nodes of a tree are nested or follow each other, so that an
attribute stands inside a function, in front of it or behind it (`removal_apart`); and since both begin
and end with characters that are not blank, no removal reaches the end of a function.
-/
import AsyncPeer.Proofs.Indentation
import AsyncPeer.Proofs.Marks
import AsyncPeer.Proofs.Placement
import AsyncPeer.Proofs.Removal

namespace AsyncPeer.Source

/-! ### The reference -/

/-- The site deletes the character at an offset: it has a peer, attributes shall not stay, and the
offset lies in what is taken away with its attribute. -/
def Site.deletes (style : Style) (keepAttributes : Bool) (taken : Edit) (s : Site) (o : Nat) : Bool :=
  match s.peer style with
  | .ok _ => !keepAttributes && taken.start ≤ o && o < taken.stop
  | .error _ => false

/-- The indentation of the site is the gap at the beginning of the line of its attribute. -/
def Site.HasIndent (source : Text) (s : Site) : Prop :=
  ∃ before head tail behind rest, OnLine source s before head tail behind ∧
    source = before ++ (s.indent ++ rest) ∧ IsGap s.indent rest

/-- The block is the peer of the site behind the indentation of its attribute. -/
def Site.ShowsPeer (style : Style) (s : Site) (block : Text) : Prop :=
  ∀ peer, s.peer style = .ok peer → IsIndented s.indent peer block

/-- What the site adds at an offset, where its peer is shown by a block: an empty line and the block, if
the site has a peer and its declaration ends there. -/
def Site.adds (style : Style) (block : Text) (s : Site) (o : Nat) : Text :=
  match s.peer style with
  | .ok _ => if s.declarationStop = o then "\n\n".toList ++ block else []
  | .error _ => []

/-- The source with all sites expanded at once, from what is taken away with their attributes and the
blocks that show their peers. -/
def expansion (source : Text) (style : Style) (keepAttributes : Bool) (taken : Site → Edit)
    (block : Site → Text) (found : List Site) : Text :=
  Text.splice (fun o => found.any fun s => s.deletes style keepAttributes (taken s) o)
    (fun o => found.flatMap fun s => s.adds style (block s) o) 0 source

/-- The edits of a site as a list. -/
def Site.editList (source : Text) (style : Style) (keepAttributes : Bool) (s : Site) : List Edit :=
  match s.edits source style keepAttributes with
  | .ok edits => edits
  | .error _ => []

section EditList

variable {source : Text} {style : Style} {keepAttributes : Bool} {s : Site}

/-- A site on boundaries has its edits. -/
lemma Site.edits_eq_ok (hs : source.IsBoundary s.start) (ht : source.IsBoundary s.stop)
    (hle : s.start ≤ s.stop) :
    s.edits source style keepAttributes = .ok (s.editList source style keepAttributes) := by
  obtain ⟨e, he, -⟩ := exists_removal hs ht hle
  have hok : ∃ edits, s.edits source style keepAttributes = .ok edits := by
    unfold Site.edits
    split
    · exact ⟨_, rfl⟩
    · split
      · exact ⟨_, rfl⟩
      · exact ⟨[e, _], by simp only [he, bind, Except.bind, pure, Except.pure]; rfl⟩
  obtain ⟨edits, hedits⟩ := hok
  rw [Site.editList, hedits]

/-- An edit of a site takes its attribute away or puts its peer in. -/
lemma Site.mem_editList (hs : source.IsBoundary s.start) (ht : source.IsBoundary s.stop)
    (hle : s.start ≤ s.stop) {e : Edit} (he : e ∈ s.editList source style keepAttributes) :
    TakesAway source s e ∨ ∃ peer, s.peer style = .ok peer ∧ e = insertion s peer := by
  obtain ⟨r, hr, hremoval⟩ := exists_removal hs ht hle
  cases hpeer : s.peer style with
  | error r => simp [Site.editList, Site.edits, hpeer] at he
  | ok peer =>
    cases keepAttributes with
    | true =>
      simp only [Site.editList, Site.edits, hpeer, if_true, List.mem_singleton] at he
      exact Or.inr ⟨peer, rfl, he⟩
    | false =>
      simp only [Site.editList, Site.edits, hpeer, hr, bind, Except.bind, pure, Except.pure,
        Bool.false_eq_true, if_false, List.mem_cons, List.not_mem_nil, or_false] at he
      rcases he with rfl | rfl
      · exact Or.inl hremoval.takesAway
      · exact Or.inr ⟨peer, rfl, rfl⟩

/-- The edits of a site take out what the site deletes. -/
lemma Site.takesOut_editList {taken : Edit} (htaken : removal source s = .ok taken) (o : Nat) :
    Edit.takesOut (s.editList source style keepAttributes) o =
      s.deletes style keepAttributes taken o := by
  have hpoint : ∀ peer, Edit.takesOut [insertion s peer] o = false := by
    intro peer
    by_cases hlt : o < s.declarationStop
    · simp [Edit.takesOut, insertion, Nat.not_le.2 hlt]
    · simp [Edit.takesOut, insertion, hlt]
  cases hpeer : s.peer style with
  | error r => simp [Site.editList, Site.edits, Site.deletes, Edit.takesOut, hpeer]
  | ok peer =>
    cases keepAttributes with
    | true =>
      simp only [Site.editList, Site.edits, Site.deletes, hpeer, if_true, hpoint]
      rfl
    | false =>
      simp only [Site.editList, Site.edits, Site.deletes, hpeer, htaken, bind, Except.bind, pure,
        Except.pure, Bool.false_eq_true, if_false]
      rw [Edit.takesOut_cons, hpoint, Bool.or_false]
      rfl

/-- The edits of a site put in what the site adds. -/
lemma Site.putsIn_editList (hs : source.IsBoundary s.start) (ht : source.IsBoundary s.stop)
    (hle : s.start ≤ s.stop) {block : Text} (hblock : s.ShowsPeer style block) (o : Nat) :
    Edit.putsIn (s.editList source style keepAttributes) o = s.adds style block o := by
  obtain ⟨e, he, hremoval⟩ := exists_removal hs ht hle
  cases hpeer : s.peer style with
  | error r => simp [Site.editList, Site.edits, Site.adds, Edit.putsIn, hpeer]
  | ok peer =>
    have hone : Edit.putsIn [insertion s peer] o = s.adds style block o := by
      rw [Edit.putsIn_cons, Site.adds, hpeer, isIndented_iff.1 (hblock peer hpeer)]
      exact List.append_nil _
    cases keepAttributes with
    | true => simpa only [Site.editList, Site.edits, hpeer, if_true] using hone
    | false =>
      simp only [Site.editList, Site.edits, hpeer, he, bind, Except.bind, pure, Except.pure,
        Bool.false_eq_true, if_false]
      rw [Edit.putsIn_cons, hone, hremoval.takesAway.replacement, ite_self, List.nil_append]

end EditList

/-! ### Sites of a well-placed tree -/

/-- The site at an attribute, if there is one. -/
def site? (source : Text) (a : Located) : Option Site :=
  match siteAt? source a with
  | .ok s => s
  | .error _ => none

/-- Where a site comes from: an attribute with text, and a declaration around it. -/
structure ComesFrom (source : Text) (tree : Node) (s : Site) (mark declared : Node) : Prop where
  mark_mem : mark ∈ tree.nodes
  kind : mark.kind = "attribute"
  start : s.start = mark.start
  stop : s.stop = mark.stop
  lt : s.start < s.stop
  declared_mem : declared ∈ tree.nodes
  inside : mark ∈ declared.nodes
  declarationStop : s.declarationStop = declared.stop
  indent : s.HasIndent source
  function : ∀ signature, s.declaration = .ok (.function signature) →
    declared.kind = "function_declaration"

/-- Only a node of the kind of functions is read as a function. -/
lemma kind_of_readDeclaration {source : Text} {l : Located} {signature : Signature}
    (h : readDeclaration source l = .ok (.function signature)) :
    l.node.kind = "function_declaration" := by
  unfold readDeclaration at h
  split at h
  · next hkind => exact hkind
  · exact absurd h (by simp)
  · exact absurd h (by simp)
  · cases hi : introducer source l.node <;> simp [hi, Except.map] at h

section Sites

variable {source : Text} {tree : Node}

/-- Looking for a site at an attribute succeeds if nodes lie on boundaries of the source. -/
lemma siteAt?_eq_ok (placed : ∀ n ∈ tree.nodes, Placed source n) {a : Located}
    (ha : a ∈ attributesIn [] tree) : siteAt? source a = .ok (site? source a) := by
  rcases siteAt?_cases (placed a.node (mem_attributesIn ha).1) with
    ⟨hnone, -⟩ | ⟨_, _, _, -, -, hsome, -⟩
  · rw [site?, hnone]
  · rw [site?, hsome]

/-- A site is described by the attribute that it is found at. -/
lemma describes_of_site? (placed : ∀ n ∈ tree.nodes, Placed source n) {a : Located}
    (ha : a ∈ attributesIn [] tree) {s : Site} (hs : site? source a = some s) :
    ∃ g d, NamesGenerator source a.node g ∧ a.Decorates d ∧ s.Describes source a g d := by
  rcases siteAt?_cases (placed a.node (mem_attributesIn ha).1) with
    ⟨hnone, -⟩ | ⟨g, d, t, hnames, hdecorates, hsome, hdescribes⟩
  · rw [site?, hnone] at hs
    cases hs
  · rw [site?, hsome] at hs
    obtain rfl := Option.some.inj hs
    exact ⟨g, d, hnames, hdecorates, hdescribes⟩

/-- The sites are those at the attributes, in order. -/
lemma sites_of_placed (placed : ∀ n ∈ tree.nodes, Placed source n) :
    sites source tree = .ok ((attributesIn [] tree).filterMap (site? source)) := by
  have hall := mapM_eq_ok_map fun a (ha : a ∈ attributesIn [] tree) => siteAt?_eq_ok placed ha
  simp only [sites, hall, bind, Except.bind, pure, Except.pure, List.filterMap_map]
  rfl

lemma sites_eq_ok (h : WellPlaced source tree) :
    sites source tree = .ok ((attributesIn [] tree).filterMap (site? source)) :=
  sites_of_placed h.placed

/-- An attribute that is collected stands inside what it decorates. -/
lemma Located.Decorates.inside {a d : Located} (h : a.Decorates d) (ha : a ∈ attributesIn [] tree) :
    d.node ∈ tree.nodes ∧ a.node ∈ d.node.nodes := by
  rcases (mem_attributesIn ha).2.2 _ h.mem with hnil | hin
  · exact absurd hnil (by simp)
  · exact hin

/-- A site is described with the indentation of its line. -/
lemma Site.Describes.hasIndent {s : Site} {a d : Located} {g : Generator}
    (h : s.Describes source a g d) (ha : Placed source a.node) : s.HasIndent source := by
  obtain ⟨before, behind, hsource, hsize, -, -, hindent⟩ := h.position
  rw [← h.start] at hsize
  have hstop : source.IsBoundary s.stop := h.stop ▸ ha.stop
  have hle : s.start ≤ s.stop := by
    rw [h.start, h.stop]
    exact ha.le
  obtain ⟨cut, _, x, y, hcut, -, honLine⟩ :=
    exists_onLine (Text.isBoundary_iff.2 ⟨before, behind, hsource, hsize⟩) hstop hle
  have hbefore : slice source 0 s.start = .ok before :=
    slice_eq_ok (a := []) hsource rfl (by simpa using hsize)
  obtain rfl : before = cut := Except.ok.inj (hbefore.symm.trans hcut)
  refine ⟨x, _, _, _, (lastLine before ++ behind).dropWhile isIndent, honLine, ?_,
    hindent ▸ isGap_takeWhile _⟩
  -- in front of the attribute stand the source up to its line and the beginning of the line
  obtain ⟨mark, hsplit, -⟩ := honLine.split
  rw [← List.append_assoc, hsource] at hsplit
  have hline : before = x ++ lastLine before := by
    refine (Text.append_inj_of_byteSize hsplit ?_).1
    rw [Text.byteSize_append, honLine.start, hsize]
  rw [hindent, List.takeWhile_append_dropWhile, ← List.append_assoc, ← hline]
  exact hsource

/-- A site comes from the attribute that it was found at. -/
lemma comesFrom_of_site? (placed : ∀ n ∈ tree.nodes, Placed source n) {a : Located}
    (ha : a ∈ attributesIn [] tree) {s : Site} (hs : site? source a = some s) :
    ∃ declared, ComesFrom source tree s a.node declared := by
  obtain ⟨g, d, hnames, hdecorates, hdescribes⟩ := describes_of_site? placed ha hs
  obtain ⟨hmem, hkind, -⟩ := mem_attributesIn ha
  obtain ⟨hdmem, hinside⟩ := hdecorates.inside ha
  have hlt : s.start < s.stop := by
    rw [hdescribes.start, hdescribes.stop]
    exact hnames.lt
  exact ⟨d.node, hmem, hkind, hdescribes.start, hdescribes.stop, hlt, hdmem, hinside,
    hdescribes.declarationStop, hdescribes.hasIndent (placed _ hmem), fun signature hsig =>
      kind_of_readDeclaration (hdescribes.declaration ▸ hsig)⟩

lemma exists_comesFrom (h : WellPlaced source tree) {s : Site}
    (hs : s ∈ (attributesIn [] tree).filterMap (site? source)) :
    ∃ mark declared, ComesFrom source tree s mark declared := by
  obtain ⟨a, ha, hsa⟩ := List.mem_filterMap.1 hs
  obtain ⟨declared, hcomes⟩ := comesFrom_of_site? h.placed ha hsa
  exact ⟨a.node, declared, hcomes⟩

/-- The attributes of the sites follow each other if nodes do. -/
lemma pairwise_sites_of_placed (placed : ∀ n ∈ tree.nodes, Placed source n) :
    ((attributesIn [] tree).filterMap (site? source)).Pairwise fun s t => s.stop ≤ t.start := by
  rw [List.pairwise_filterMap]
  refine (pairwise_attributesIn placed []).imp_of_mem fun {a b} ha hb hab s hs t ht => ?_
  obtain ⟨_, hs⟩ := comesFrom_of_site? placed ha hs
  obtain ⟨_, ht⟩ := comesFrom_of_site? placed hb ht
  rw [hs.stop, ht.start]
  exact hab

lemma pairwise_sites (h : WellPlaced source tree) :
    ((attributesIn [] tree).filterMap (site? source)).Pairwise fun s t => s.stop ≤ t.start :=
  pairwise_sites_of_placed h.placed

/-! ### The edits of the sites are apart -/

/-- A site with a peer belongs to a function. -/
lemma ComesFrom.isFunction {s : Site} {mark declared : Node}
    (h : ComesFrom source tree s mark declared) {style : Style} {peer : Text}
    (hpeer : s.peer style = .ok peer) : declared.kind = "function_declaration" := by
  cases hread : s.declaration with
  | error r => exact absurd hpeer (by simp [Site.peer, hread, bind, Except.bind])
  | ok d =>
    cases d with
    | function signature => exact h.function signature hread
    | other word =>
      exact absurd hpeer
        (by simp [Site.peer, hread, Peer.of, Declaration.eligible, bind, Except.bind])

/-- An attribute of a site begins and ends with characters that are not blank. -/
lemma ComesFrom.tight (h : WellPlaced source tree) {s : Site} {mark declared : Node}
    (hs : ComesFrom source tree s mark declared) :
    (∃ c, source.StandsAt s.start c ∧ Text.isBlank c = false) ∧
      ∃ o c, source.StandsAt o c ∧ Text.isBlank c = false ∧ o + c.utf8Size = s.stop := by
  have htight := h.tight mark hs.mark_mem (Or.inl hs.kind)
  have hplaced := h.placed mark hs.mark_mem
  have hlt : mark.start < mark.stop := by
    rw [← hs.start, ← hs.stop]
    exact hs.lt
  obtain ⟨o, c, hc, hblank, -, hend⟩ := htight.standsAt_stop hplaced hlt
  rw [hs.start, hs.stop]
  exact ⟨htight.standsAt_start hplaced hlt, o, c, hc, hblank, hend⟩

/-- A function and the removal of an attribute in it, or in front of it, or behind it. -/
lemma removal_apart (h : WellPlaced source tree) {s : Site} {e : Edit} {mark declared f : Node}
    (hs : ComesFrom source tree s mark declared) (he : TakesAway source s e) (hf : f ∈ tree.nodes)
    (hkind : f.kind = "function_declaration") (hlt : f.start < f.stop) :
    (mark ∈ f.nodes → e.stop ≤ f.stop) ∧ (s.stop ≤ f.start → e.stop ≤ f.stop) ∧
      (f.stop ≤ s.start → f.stop ≤ e.start) := by
  have htight := h.tight f hf (Or.inr hkind)
  have hplaced := h.placed f hf
  obtain ⟨b, hb, hbblank⟩ := htight.standsAt_start hplaced hlt
  obtain ⟨o, c, hc, hcblank, -, hend⟩ := htight.standsAt_stop hplaced hlt
  refine ⟨?_, ?_, ?_⟩
  · -- the function ends strictly behind the attribute, and with something that is not blank
    intro hin
    have hne := h.ends_apart f hf hkind mark hin hs.kind
    have hwithin := Placed.within (fun n hn => h.placed n (Node.mem_nodes_trans hn hf)) hin
    have hmark := (h.placed mark hs.mark_mem).stop
    rcases hc.le_or_le hmark with hle | hle
    · have := he.stop_le hc hcblank (by rw [hs.stop]; exact hle)
      omega
    · omega
  · intro hbefore
    have := he.stop_le hb hbblank hbefore
    omega
  · intro hbehind
    rw [← hend]
    exact he.le_start hc hcblank (by omega)

variable {style : Style}

/-- A removal is in front of the peer of the same site, or of a later one. -/
lemma removal_stop_le (h : WellPlaced source tree) {s t : Site} {e : Edit} {peer : Text}
    {mark declared mark' declared' : Node} (hs : ComesFrom source tree s mark declared)
    (ht : ComesFrom source tree t mark' declared') (he : TakesAway source s e)
    (hpeer : t.peer style = .ok peer) (horder : s = t ∧ mark = mark' ∨ s.stop ≤ t.start) :
    e.stop ≤ t.declarationStop := by
  have hwithin := Placed.within (fun n hn => h.placed n (Node.mem_nodes_trans hn ht.declared_mem))
    ht.inside
  have hltT := ht.lt
  have hltS := hs.lt
  rw [ht.start, ht.stop] at hltT
  rw [hs.start, hs.stop] at hltS
  obtain ⟨hin, hbefore, -⟩ := removal_apart h hs he ht.declared_mem (ht.isFunction hpeer)
    (by omega)
  rw [ht.declarationStop]
  rcases horder with ⟨rfl, rfl⟩ | horder
  · exact hin ht.inside
  · rw [hs.stop, ht.start] at horder
    rcases nested_or_apart h.placed hs.mark_mem ht.declared_mem with hnest | hnest | hapart | hapart
    · exact hin hnest
    · -- the later attribute would lie inside the earlier one
      have hinside := Placed.within
        (fun n hn => h.placed n (Node.mem_nodes_trans hn hs.mark_mem)) hnest
      omega
    · exact hbefore (by rw [hs.stop]; exact hapart)
    · omega

/-- The peer of a site and the removal of a later one. -/
lemma insertion_apart (h : WellPlaced source tree) {s t : Site} {e : Edit} {peer : Text}
    {mark declared mark' declared' : Node} (hs : ComesFrom source tree s mark declared)
    (ht : ComesFrom source tree t mark' declared') (he : TakesAway source t e)
    (hpeer : s.peer style = .ok peer) (horder : s.stop ≤ t.start) :
    Edit.Apart (insertion s peer) e := by
  have hwithin := Placed.within (fun n hn => h.placed n (Node.mem_nodes_trans hn hs.declared_mem))
    hs.inside
  have hltT := ht.lt
  have hltS := hs.lt
  have hstart := he.start_le
  have hstop := he.le_stop
  rw [hs.start, hs.stop] at hltS
  obtain ⟨hin, -, hbehind⟩ := removal_apart h ht he hs.declared_mem (hs.isFunction hpeer)
    (by omega)
  simp only [Edit.Apart, insertion, hs.declarationStop]
  rw [hs.stop] at horder
  rcases nested_or_apart h.placed ht.mark_mem hs.declared_mem with hnest | hnest | hapart | hapart
  · -- the later attribute stands inside the function, whose end is behind the removal
    have := hin hnest
    exact Or.inr ⟨this, by omega⟩
  · have hinside := Placed.within
      (fun n hn => h.placed n (Node.mem_nodes_trans hn ht.mark_mem)) hnest
    rw [ht.start] at horder
    omega
  · rw [ht.stop] at hltT
    omega
  · exact Or.inl (hbehind (by rw [ht.start]; exact hapart))

variable {keepAttributes : Bool}

lemma ComesFrom.boundaries (h : WellPlaced source tree) {s : Site} {mark declared : Node}
    (hs : ComesFrom source tree s mark declared) :
    source.IsBoundary s.start ∧ source.IsBoundary s.stop ∧ s.start ≤ s.stop := by
  rw [hs.start, hs.stop]
  have hplaced := h.placed mark hs.mark_mem
  exact ⟨hplaced.start, hplaced.stop, hplaced.le⟩

/-- All edits of a site are in range. -/
lemma inRange_of_mem_editList (h : WellPlaced source tree) {s : Site} {mark declared : Node}
    (hs : ComesFrom source tree s mark declared) {e : Edit}
    (he : e ∈ s.editList source style keepAttributes) : Edit.InRange source e := by
  obtain ⟨hstart, hstop, hle⟩ := hs.boundaries h
  rcases Site.mem_editList hstart hstop hle he with htakes | ⟨peer, -, rfl⟩
  · exact htakes.range
  · have hend : source.IsBoundary s.declarationStop := by
      rw [hs.declarationStop]
      exact (h.placed declared hs.declared_mem).stop
    exact ⟨hend, hend, Nat.le_refl _⟩

/-- The removal of a site comes before its peer. -/
lemma pairwise_editList (h : WellPlaced source tree) {s : Site} {mark declared : Node}
    (hs : ComesFrom source tree s mark declared) :
    (s.editList source style keepAttributes).Pairwise Edit.Apart := by
  obtain ⟨hstart, hstop, hle⟩ := hs.boundaries h
  obtain ⟨e, he, hremoval⟩ := exists_removal hstart hstop hle
  cases hpeer : s.peer style with
  | error r => simp [Site.editList, Site.edits, hpeer]
  | ok peer =>
    cases keepAttributes with
    | true => simp [Site.editList, Site.edits, hpeer]
    | false =>
      simp only [Site.editList, Site.edits, hpeer, he, bind, Except.bind, pure, Except.pure,
        Bool.false_eq_true, if_false]
      refine List.pairwise_pair.2 (Or.inl ?_)
      exact removal_stop_le h hs hs hremoval.takesAway hpeer (Or.inl ⟨rfl, rfl⟩)

/-- The edits of two sites are apart. -/
lemma apart_of_mem_editList (h : WellPlaced source tree) {s t : Site}
    {mark declared mark' declared' : Node} (hs : ComesFrom source tree s mark declared)
    (ht : ComesFrom source tree t mark' declared') (horder : s.stop ≤ t.start) {e f : Edit}
    (he : e ∈ s.editList source style keepAttributes)
    (hf : f ∈ t.editList source style keepAttributes) : Edit.Apart e f := by
  obtain ⟨hsstart, hsstop, hsle⟩ := hs.boundaries h
  obtain ⟨htstart, htstop, htle⟩ := ht.boundaries h
  -- the attributes are in order, but a peer can come in behind attributes of later sites
  rcases Site.mem_editList hsstart hsstop hsle he with hetakes | ⟨peer, hpeer, rfl⟩
  · rcases Site.mem_editList htstart htstop htle hf with hftakes | ⟨peer', hpeer', rfl⟩
    · obtain ⟨-, o, c, hc, hcblank, hend⟩ := hs.tight h
      obtain ⟨⟨d, hd, hdblank⟩, -⟩ := ht.tight h
      exact Or.inl (hetakes.stop_le_start hftakes horder hc hcblank hend hd hdblank)
    · exact Or.inl (removal_stop_le h hs ht hetakes hpeer' (Or.inr horder))
  · rcases Site.mem_editList htstart htstop htle hf with hftakes | ⟨peer', -, rfl⟩
    · exact insertion_apart h hs ht hftakes hpeer horder
    · simp only [Edit.Apart, insertion]
      omega

/-- The expansion makes the edits of all sites at once. -/
lemma expand_eq_ok (h : WellPlaced source tree) {found : List Site}
    (hfound : sites source tree = .ok found) :
    expand source tree style keepAttributes = .ok
      { output := Text.splice (Edit.takesOut (found.flatMap (Site.editList source style keepAttributes)))
          (Edit.putsIn (found.flatMap (Site.editList source style keepAttributes))) 0 source
        outcomes := found.map (Site.outcome style) } := by
  have horder := pairwise_sites h
  have hcomes := fun s => exists_comesFrom h (s := s)
  rw [← Except.ok.inj (hfound.symm.trans (sites_eq_ok h))] at horder hcomes
  have hedits : found.mapM (Site.edits source style keepAttributes) =
      .ok (found.map (Site.editList source style keepAttributes)) := by
    refine mapM_eq_ok_map ?_
    intro s hs
    obtain ⟨mark, declared, hs⟩ := hcomes s hs
    obtain ⟨hstart, hstop, hle⟩ := hs.boundaries h
    exact Site.edits_eq_ok hstart hstop hle
  -- the edits can be told apart, so making them is a splice
  have hapart : (found.flatMap (Site.editList source style keepAttributes)).Pairwise Edit.Apart := by
    rw [List.pairwise_flatMap]
    refine ⟨fun s hs => ?_, horder.imp_of_mem fun {s t} hs ht hst e he f hf => ?_⟩
    · obtain ⟨mark, declared, hs⟩ := hcomes s hs
      exact pairwise_editList h hs
    · obtain ⟨mark, declared, hs⟩ := hcomes s hs
      obtain ⟨mark', declared', ht⟩ := hcomes t ht
      exact apart_of_mem_editList h hs ht hst he hf
  have hrange : ∀ e ∈ found.flatMap (Site.editList source style keepAttributes),
      Edit.InRange source e := by
    intro e he
    obtain ⟨s, hs, he⟩ := List.mem_flatMap.1 he
    obtain ⟨mark, declared, hs⟩ := hcomes s hs
    exact inRange_of_mem_editList h hs he
  simp only [expand, hfound, hedits, bind, Except.bind, pure, Except.pure, ← List.flatMap_def,
    Edit.applyAll_eq_splice hapart hrange]

/-- Offset by offset, the edits of the sites take out and put in what the sites delete and add. -/
lemma splice_editList (h : WellPlaced source tree) {found : List Site}
    (hfound : sites source tree = .ok found) {taken : Site → Edit} {block : Site → Text}
    (htaken : ∀ s ∈ found, removal source s = .ok (taken s))
    (hblock : ∀ s ∈ found, s.ShowsPeer style (block s)) :
    Text.splice (Edit.takesOut (found.flatMap (Site.editList source style keepAttributes)))
        (Edit.putsIn (found.flatMap (Site.editList source style keepAttributes))) 0 source =
      expansion source style keepAttributes taken block found := by
  have hcomes := fun s => exists_comesFrom h (s := s)
  rw [← Except.ok.inj (hfound.symm.trans (sites_eq_ok h))] at hcomes
  refine Text.splice_congr (fun o _ => ?_) (fun o _ => ?_)
  · rw [Edit.takesOut, List.any_flatMap, Bool.eq_iff_iff, List.any_eq_true, List.any_eq_true]
    refine exists_congr fun s => and_congr_right fun hs => ?_
    rw [← Site.takesOut_editList (htaken s hs) o, Edit.takesOut]
  · rw [Edit.putsIn, List.filter_flatMap, List.flatMap_assoc]
    refine List.flatMap_congr ?_
    intro s hs
    have hshows := hblock s hs
    obtain ⟨mark, declared, hs⟩ := hcomes s hs
    obtain ⟨hstart, hstop, hle⟩ := hs.boundaries h
    exact Site.putsIn_editList hstart hstop hle hshows o

end Sites

/-- The removal of the attribute of a site, if there is one. -/
def Site.taken (source : Text) (s : Site) : Edit :=
  match removal source s with
  | .ok e => e
  | .error _ => { start := s.start, stop := s.stop, replacement := [] }

/-- A peer is shown by its indented lines. -/
lemma Site.showsPeer_indentLines (style : Style) (s : Site) :
    s.ShowsPeer style (indentLines s.indent ((s.peer style).toOption.getD [])) := by
  intro peer hpeer
  rw [hpeer]
  exact isIndented_iff.2 rfl

/-- What is taken away counts for the sites only, and the blocks that show the peers leave no choice. -/
lemma expansion_congr {source : Text} {style : Style} {keepAttributes : Bool} {found : List Site}
    {taken taken' : Site → Edit} {block block' : Site → Text}
    (htaken : ∀ s ∈ found, taken s = taken' s) (h : ∀ s ∈ found, s.ShowsPeer style (block s))
    (h' : ∀ s ∈ found, s.ShowsPeer style (block' s)) :
    expansion source style keepAttributes taken block found =
      expansion source style keepAttributes taken' block' found := by
  have hadds : ∀ s ∈ found, ∀ o, s.adds style (block s) o = s.adds style (block' s) o := by
    intro s hs o
    cases hpeer : s.peer style with
    | error r => simp only [Site.adds, hpeer]
    | ok peer =>
      have hsame : block s = block' s :=
        (isIndented_iff.1 (h s hs peer hpeer)).trans (isIndented_iff.1 (h' s hs peer hpeer)).symm
      rw [hsame]
  refine Text.splice_congr (fun o _ => ?_) fun o _ => List.flatMap_congr fun s hs => hadds s hs o
  rw [Bool.eq_iff_iff, List.any_eq_true, List.any_eq_true]
  exact exists_congr fun s => and_congr_right fun hs => by rw [htaken s hs]

/-- **Expansion is a splice.**  For a well-placed tree the sites are found in the order of their
attributes, with each attribute its line is taken away or else the spaces and tabs behind it, all edits
are in range, and the output is the source with this deleted at the sites with a peer and their peers
put in, each at the end of its declaration and in the order of the attributes.  The peers are put in as
blocks that show their lines, each line that is not empty behind the spaces and tabs that the line of
the attribute begins with. -/
theorem expand_eq_splice {source : Text} {tree : Node} (h : WellPlaced source tree) (style : Style)
    (keepAttributes : Bool) :
    ∃ found taken block, sites source tree = .ok found ∧
      found.Pairwise (fun s t => s.stop ≤ t.start) ∧
      (∀ s ∈ found, removal source s = .ok (taken s) ∧ IsRemoval source s (taken s)) ∧
      (∀ s ∈ found, s.HasIndent source ∧ s.ShowsPeer style (block s)) ∧
      expand source tree style keepAttributes = .ok
        { output := expansion source style keepAttributes taken block found
          outcomes := found.map (Site.outcome style) } := by
  have hfound := sites_eq_ok h
  have horder := pairwise_sites h
  have hcomes := fun s => exists_comesFrom h (s := s)
  generalize (attributesIn [] tree).filterMap (site? source) = found at hfound horder hcomes
  have hremoval : ∀ s ∈ found, ∃ e, removal source s = .ok e ∧ IsRemoval source s e := by
    intro s hs
    obtain ⟨mark, declared, hs⟩ := hcomes s hs
    obtain ⟨hstart, hstop, hle⟩ := hs.boundaries h
    exact exists_removal hstart hstop hle
  have htaken : ∀ s ∈ found, removal source s = .ok (s.taken source) ∧
      IsRemoval source s (s.taken source) := by
    intro s hs
    obtain ⟨e, he, hremoval⟩ := hremoval s hs
    rw [Site.taken, he]
    exact ⟨rfl, hremoval⟩
  have hindent : ∀ s ∈ found, s.HasIndent source := by
    intro s hs
    obtain ⟨mark, declared, hs⟩ := hcomes s hs
    exact hs.indent
  have hshows := Site.showsPeer_indentLines style
  refine ⟨found, Site.taken source, fun s => indentLines s.indent ((s.peer style).toOption.getD []),
    hfound, horder, htaken, fun s hs => ⟨hindent s hs, hshows s⟩, ?_⟩
  rw [expand_eq_ok h hfound, splice_editList h hfound (fun s hs => (htaken s hs).1) fun s _ => hshows s]

/-! ### A source with three sites on one function -/

deriving instance DecidableEq for Site

/-- The first attribute has a line of its own, the others do not, and the second one asks for a peer
that there is not. -/
def threeMarks : Text :=
  "  @Asyncify\n  @AsyncifyThrowing @AsyncifyUnchecked func f(c: (Int) -> Void) \x7b\x7d\n".toList

/-- Its tree. -/
def threeMarksTree : Node :=
  rule "source_file" 2 79
    [rule "function_declaration" 2 78
      [rule "modifiers" 2 50
        [rule "attribute" 2 11 [], rule "attribute" 14 31 [], rule "attribute" 32 50 []],
        token "func" 51 55, rule "simple_identifier" 56 57 [], token "(" 57 58,
        rule "parameter" 58 74
          [rule "simple_identifier" 58 59 [], token ":" 59 60, rule "function_type" 61 74 []],
        token ")" 74 75, rule "function_body" 76 78 []]]

/-- The site of an attribute. -/
def threeMarksSite (generator : Generator) (start stop line column : Nat) : Site where
  generator := generator
  start := start
  stop := stop
  line := line
  column := column
  declaration := .ok (.function
    { name := "f".toList
      parameters := [{ name := "c".toList, type := "(Int) -> Void".toList }]
      isMember := false })
  declarationStop := 78
  indent := "  ".toList

/-- Its sites. -/
def threeMarksSites : List Site :=
  [threeMarksSite .plain 2 11 1 3, threeMarksSite .throwing 14 31 2 3, threeMarksSite .unchecked 32 50 2 21]

/-- The source with the peers of the first and the last attribute. -/
def threeMarksExpanded : Text :=
  Text.join ['\n'] ([
    "  @AsyncifyThrowing func f(c: (Int) -> Void) \x7b\x7d",
    "",
    "  func f() async -> Int \x7b",
    "      await withCheckedContinuation \x7b continuation in",
    "          f \x7b object in",
    "              continuation.resume(returning: object)",
    "          \x7d",
    "      \x7d",
    "  \x7d",
    "",
    "  func f() async -> Int \x7b",
    "      await withUnsafeContinuation \x7b continuation in",
    "          f \x7b object in",
    "              continuation.resume(returning: object)",
    "          \x7d",
    "      \x7d",
    "  \x7d",
    ""].map String.toList)

/-- What goes with its attributes: the first line, and the space behind each of the others. -/
def threeMarksTaken (s : Site) : Edit where
  start := if s.start = 2 then 0 else s.start
  stop := s.stop + 1
  replacement := []

theorem expand_threeMarks : WellPlaced threeMarks threeMarksTree ∧
    sites threeMarks threeMarksTree = .ok threeMarksSites ∧
    (∀ s ∈ threeMarksSites, IsRemoval threeMarks s (threeMarksTaken s)) ∧
    (∀ s ∈ threeMarksSites, s.HasIndent threeMarks) ∧
    (∃ block, (∀ s ∈ threeMarksSites, s.ShowsPeer {} (block s)) ∧
      expansion threeMarks {} false threeMarksTaken block threeMarksSites = threeMarksExpanded) ∧
    (expand threeMarks threeMarksTree {} false).map
        (fun r => (r.output, r.outcomes.map Outcome.failure?)) =
      .ok (threeMarksExpanded, [none, some .noResult, none]) := by
  have hplaced : WellPlaced threeMarks threeMarksTree := by decide +kernel
  have hsites : sites threeMarks threeMarksTree = .ok threeMarksSites := by decide +kernel
  have hremoval : ∀ s ∈ threeMarksSites, removal threeMarks s = .ok (threeMarksTaken s) := by
    decide +kernel
  obtain ⟨found, taken, block, hfound, -, htaken, hblock, hexpand⟩ := expand_eq_splice hplaced {} false
  obtain rfl : threeMarksSites = found := Except.ok.inj (hsites.symm.trans hfound)
  have hsame : ∀ s ∈ threeMarksSites, taken s = threeMarksTaken s := fun s hs =>
    Except.ok.inj ((htaken s hs).1.symm.trans (hremoval s hs))
  have hshows : ∀ s ∈ threeMarksSites, s.ShowsPeer {} (block s) := fun s hs => (hblock s hs).2
  have houtput : expansion threeMarks {} false threeMarksTaken block threeMarksSites =
      threeMarksExpanded := by
    rw [expansion_congr (fun _ _ => rfl) hshows fun s _ => s.showsPeer_indentLines {}]
    decide +kernel
  have hfailures : (threeMarksSites.map (Site.outcome {})).map Outcome.failure? =
      [none, some .noResult, none] := by decide +kernel
  refine ⟨hplaced, hsites, fun s hs => hsame s hs ▸ (htaken s hs).2, fun s hs => (hblock s hs).1,
    ⟨block, hshows, houtput⟩, ?_⟩
  rw [hexpand, expansion_congr hsame hshows hshows, houtput, Except.map, hfailures]

end AsyncPeer.Source
