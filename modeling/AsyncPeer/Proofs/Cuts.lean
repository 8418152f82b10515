/-
# Cuts in range

All texts that are read from a source are cut out of it between offsets that come from its tree, often
from two different nodes: a type begins behind the colon of its parameter and ends where another node
begins, which need not be there in a tree that a parser put together from a malformed source.  An offset
that does not fit gives the refusal `misplaced`, and no reader turns this refusal into another one.

Here it is shown that the refusal never arises (`reading_in_range`).  Of the tree only the offsets are
known, `Placed`; kinds, flags and the nodes that there are can be anything.  Each end of a cut is an
edge of some node of the tree (`Place.IsOf`), and so a boundary, and the ends are put in order before
the cut is made.  Where the parts of a node are taken apart at one of them, this one is counted
(`SplitsAt`).
-/
import AsyncPeer.Proofs.HeaderLayout
import AsyncPeer.Proofs.Expansion

namespace AsyncPeer.Source

/-! ### Places between nodes -/

/-- The edge of a node of the tree. -/
def Edge.IsOf (tree : Node) (e : Edge) : Prop :=
  ∃ m ∈ tree.nodes, e = m.front ∨ e = m.back

/-- The place of a node of the tree, or one between edges of such nodes. -/
def Place.IsOf (tree : Node) : Place → Prop
  | .node s => ∃ m ∈ tree.nodes, s = m.span
  | .gap left right others => left.IsOf tree ∧ right.IsOf tree ∧ ∀ e ∈ others, e.IsOf tree

lemma Edge.isOf_front {tree m : Node} (hm : m ∈ tree.nodes) : m.front.IsOf tree :=
  ⟨m, hm, Or.inl rfl⟩

lemma Edge.isOf_back {tree m : Node} (hm : m ∈ tree.nodes) : m.back.IsOf tree :=
  ⟨m, hm, Or.inr rfl⟩

lemma Place.isOf_place {tree m : Node} (hm : m ∈ tree.nodes) : m.place.IsOf tree :=
  ⟨m, hm, rfl⟩

lemma Node.child_mem_nodes {n c : Node} (hc : c ∈ n.children) : c ∈ n.nodes :=
  Node.mem_nodes_of_child hc c.self_mem_nodes

lemma Node.part_mem_nodes {n c : Node} (hc : c ∈ n.parts) : c ∈ n.nodes :=
  Node.child_mem_nodes (List.mem_of_mem_filter hc)

section Places

variable {tree : Node}

lemma mem_of_equals? {following : List Node} {m : Node} (hm : equals? following = some m) :
    m ∈ following :=
  (List.takeWhile_sublist _).subset (List.mem_of_find?_eq_some hm)

lemma mem_of_value? {following : List Node} {m : Node} (hm : value? following = some m) :
    m ∈ following :=
  (List.takeWhile_sublist _).subset (List.mem_of_find?_eq_some hm)

variable {n : Node} {following : List Node}

lemma isOf_entryEnd (hn : n ∈ tree.nodes) (hfollowing : ∀ m ∈ following, m ∈ tree.nodes) :
    (entryEnd n following).IsOf tree := by
  rw [entryEnd]
  cases hfind : following.find? endsEntry with
  | none => exact Edge.isOf_back hn
  | some m => exact Edge.isOf_front (hfollowing m (List.mem_of_find?_eq_some hfind))

lemma isOf_typeEnd (hn : n ∈ tree.nodes) (hfollowing : ∀ m ∈ following, m ∈ tree.nodes) :
    (typeEnd n following).IsOf tree := by
  rw [typeEnd]
  cases hequals : equals? following with
  | some m => exact Edge.isOf_front (hfollowing m (mem_of_equals? hequals))
  | none =>
    cases hvalue : value? following with
    | some m => exact Edge.isOf_front (hfollowing m (mem_of_value? hvalue))
    | none => exact isOf_entryEnd hn hfollowing

lemma isOf_defaultStart? (hfollowing : ∀ m ∈ following, m ∈ tree.nodes) {e : Edge}
    (he : defaultStart? following = some e) : e.IsOf tree := by
  rw [defaultStart?] at he
  cases hequals : equals? following with
  | some m =>
    rw [hequals] at he
    obtain rfl := Option.some.inj he
    exact Edge.isOf_back (hfollowing m (mem_of_equals? hequals))
  | none =>
    rw [hequals, Option.map_none, Option.none_or] at he
    obtain ⟨m, hm, rfl⟩ := Option.map_eq_some_iff.1 he
    exact Edge.isOf_front (hfollowing m (mem_of_value? hm))

/-- The parts of a parameter are places of the tree that it stands in. -/
lemma isOf_of_parameterLayout? (hn : n ∈ tree.nodes) (hfollowing : ∀ m ∈ following, m ∈ tree.nodes)
    {ps : ParameterParts Place} (h : parameterLayout? n following = some ps) :
    ∀ p ∈ ps.toList, p.IsOf tree := by
  obtain ⟨colon, hcolon, h⟩ := Option.bind_eq_some_iff.1 h
  obtain ⟨⟨label, name⟩, hnames, rfl⟩ := Option.map_eq_some_iff.1 h
  have hpart : ∀ m ∈ n.parts, m ∈ tree.nodes := fun m hm =>
    Node.mem_nodes_trans (Node.part_mem_nodes hm) hn
  refine forall_mem_parameterParts.2 ⟨fun m hm => ?_, ⟨?_, isOf_typeEnd hn hfollowing, by simp⟩,
    fun e he => ⟨isOf_defaultStart? hfollowing he, isOf_entryEnd hn hfollowing, by simp⟩⟩
  · rw [← eq_of_labelAndName? hnames] at hm
    exact Place.isOf_place (hpart m ((List.takeWhile_sublist _).subset hm))
  · exact Edge.isOf_back (hpart colon (List.mem_of_find?_eq_some hcolon))

lemma isOf_of_parameterLayouts? {ns : List Node} (hns : ∀ m ∈ ns, m ∈ tree.nodes)
    {pss : List (ParameterParts Place)} (h : parameterLayouts? ns = some pss) :
    ∀ p ∈ pss.flatMap ParameterParts.toList, p.IsOf tree := by
  induction ns generalizing pss with
  | nil =>
    obtain rfl := Option.some.inj h
    simp
  | cons n rest ih =>
    obtain ⟨hn, hrest⟩ := List.forall_mem_cons.1 hns
    rw [parameterLayouts?] at h
    split at h
    · obtain rfl := Option.some.inj h
      simp
    split at h
    · obtain ⟨ps, hps, h⟩ := Option.bind_eq_some_iff.1 h
      obtain ⟨qss, hqss, h⟩ := Option.bind_eq_some_iff.1 h
      obtain rfl := Option.some.inj h
      rw [List.flatMap_cons, List.forall_mem_append]
      exact ⟨isOf_of_parameterLayout? hn hrest hps, ih hrest hqss⟩
    · exact ih hrest h

lemma modifier_mem_nodes {m m' : Node} (hm : m ∈ tree.nodes) (hm' : m' ∈ modifiersIn [m]) :
    m' ∈ tree.nodes := by
  have hmem := List.mem_of_mem_filter hm'
  simp only [modifierNodes, List.flatMap_cons, List.flatMap_nil, List.append_nil] at hmem
  split at hmem
  · exact Node.mem_nodes_trans (Node.part_mem_nodes hmem) hm
  · rw [List.mem_singleton.1 hmem]
    exact hm

lemma isOf_effectsPlace {close : Node} {rest : List Node} (hn : n ∈ tree.nodes)
    (hclose : close ∈ tree.nodes) (hrest : ∀ m ∈ rest, m ∈ tree.nodes) :
    (effectsPlace n close rest).IsOf tree := by
  refine ⟨Edge.isOf_back hclose, Edge.isOf_back hn, fun e he => ?_⟩
  obtain ⟨m, hm, rfl⟩ := List.mem_map.1 he
  exact Edge.isOf_front (hrest m (List.mem_of_mem_filter hm))

lemma mem_of_nodesOf {kind : String} {ns : List Node} {m : Node} (hm : m ∈ nodesOf kind ns) : m ∈ ns :=
  List.mem_of_mem_filter hm

/-- Every part of a header is a place of the tree of its function. -/
lemma isOf_of_layout? {h : HeaderParts Place} (hlayout : layout? n = some h) :
    ∀ p ∈ h.cut, p.IsOf n := by
  rw [layout?] at hlayout
  split at hlayout
  · cases hlayout
  split at hlayout
  · next func name rest hdrop =>
    obtain ⟨pss, hpss, hlayout⟩ := Option.bind_eq_some_iff.1 hlayout
    obtain ⟨close, hclose, rfl⟩ := Option.map_eq_some_iff.1 hlayout
    have hbehind : ∀ m ∈ func :: name :: rest, m ∈ n.nodes := by
      intro m hm
      rw [← hdrop] at hm
      exact Node.part_mem_nodes ((List.dropWhile_sublist _).subset hm)
    have hrest : ∀ m ∈ rest, m ∈ n.nodes := fun m hm => hbehind m (by simp [hm])
    have heffects := isOf_effectsPlace n.self_mem_nodes
      (hrest close (List.mem_of_find?_eq_some hclose)) hrest
    refine forall_mem_headerParts.2 ⟨heffects, Place.isOf_place (hbehind name (by simp)),
      fun m hm m' hm' => ?_, fun m hm => ?_, isOf_of_parameterLayouts? hrest hpss, fun m hm => ?_⟩
    · have hpart : m ∈ n.nodes := Node.part_mem_nodes ((List.takeWhile_sublist _).subset hm)
      exact Place.isOf_place (modifier_mem_nodes hpart hm')
    · exact Place.isOf_place (hrest m ((List.takeWhile_sublist _).subset (mem_of_nodesOf hm)))
    · exact Place.isOf_place (hrest m (mem_of_nodesOf hm))
  · cases hlayout

end Places

/-! ### Places in range -/

/-- The place begins and ends on boundaries of the source, in this order. -/
structure Place.InRange (source : Text) (p : Place) : Prop where
  start : source.IsBoundary p.start
  stop : source.IsBoundary p.stop
  le : p.start ≤ p.stop

section InRange

variable {source : Text} {tree : Node}

lemma Place.InRange.isSome_cut? {p : Place} (h : p.InRange source) : (p.cut? source).isSome := by
  obtain ⟨a, m, b, hsource, ha, hm⟩ := Text.exists_split h.start h.stop h.le
  rw [Place.cut?, Text.slice?_eq_some_iff.2 ⟨a, b, hsource, ha, hm⟩]
  rfl

lemma Edge.IsOf.isBoundary (placed : ∀ n ∈ tree.nodes, Placed source n) {e : Edge}
    (he : e.IsOf tree) : source.IsBoundary e.offset := by
  obtain ⟨m, hm, rfl | rfl⟩ := he
  · exact (placed m hm).start
  · exact (placed m hm).stop

/-- The least of some offsets is one of them. -/
lemma foldl_min_cases (o : Nat) (os : List Nat) : os.foldl min o = o ∨ os.foldl min o ∈ os := by
  induction os generalizing o with
  | nil => exact Or.inl rfl
  | cons p os ih =>
    rw [List.foldl_cons]
    rcases ih (min o p) with h | h
    · rw [h]
      rcases Nat.le_total o p with hle | hle
      · exact Or.inl (Nat.min_eq_left hle)
      · rw [Nat.min_eq_right hle]
        exact Or.inr List.mem_cons_self
    · exact Or.inr (List.mem_cons_of_mem p h)

/-- In a well-placed tree every place is in range. -/
lemma Place.IsOf.inRange (placed : ∀ n ∈ tree.nodes, Placed source n) {p : Place} (hp : p.IsOf tree) :
    p.InRange source := by
  cases p with
  | node s =>
    obtain ⟨m, hm, rfl⟩ := hp
    exact ⟨(placed m hm).start, (placed m hm).stop, (placed m hm).le⟩
  | gap left right others =>
    obtain ⟨hleft, hright, hothers⟩ := hp
    have hleast : source.IsBoundary ((others.map Edge.offset).foldl min right.offset) := by
      rcases foldl_min_cases right.offset (others.map Edge.offset) with h | h
      · rw [h]
        exact hright.isBoundary placed
      · obtain ⟨e, he, hoffset⟩ := List.mem_map.1 h
        rw [← hoffset]
        exact (hothers e he).isBoundary placed
    refine ⟨hleft.isBoundary placed, ?_, Nat.le_max_right _ _⟩
    rw [Place.stop]
    rcases Nat.le_total ((others.map Edge.offset).foldl min right.offset) left.offset with hle | hle
    · rw [Nat.max_eq_right hle]
      exact hleft.isBoundary placed
    · rw [Nat.max_eq_left hle]
      exact hleast

end InRange

/-! ### Parts that are counted -/

/-- The part at the index is the first of its kind, and what a reader takes from in front of it and from
behind it are the parts up to there and from there on. -/
structure SplitsAt (parts : List Node) (kind : String) (i : Nat) : Prop where
  lt : i < parts.length
  found : parts.find? (fun p => p.kind == kind) = parts[i]?
  before : parts.takeWhile (fun p => p.kind != kind) = parts.take i
  from_on : parts.dropWhile (fun p => p.kind != kind) = parts.drop i
  next : ∀ first name rest, parts.dropWhile (fun p => p.kind != kind) = first :: name :: rest →
    i + 2 ≤ parts.length ∧ parts[i + 1]? = some name ∧ rest = parts.drop (i + 2)

/-- Parts with one of the kind are split at the first of these. -/
lemma exists_splitsAt {parts : List Node} {kind : String} (h : ∃ p ∈ parts, p.kind = kind) :
    ∃ i, SplitsAt parts kind i := by
  have hkind : ∃ p ∈ parts, (p.kind == kind) = true := by simpa using h
  obtain ⟨m, hm⟩ := Option.isSome_iff_exists.1 (List.find?_isSome.2 hkind)
  obtain ⟨hmkind, before, behind, hparts, hbefore⟩ := List.find?_eq_some_iff_append.1 hm
  have hother : ∀ p ∈ before, (p.kind != kind) = true := hbefore
  have hstop : ¬ (m.kind != kind) = true := by simpa using hmkind
  have htake : parts.takeWhile (fun p => p.kind != kind) = before := by
    rw [hparts, List.takeWhile_append_of_pos hother, List.takeWhile_cons, if_neg hstop, List.append_nil]
  have hdrop : parts.dropWhile (fun p => p.kind != kind) = m :: behind := by
    rw [hparts, List.dropWhile_append_of_pos hother, List.dropWhile_cons, if_neg hstop]
  refine ⟨before.length, ⟨?_, ?_, ?_, ?_, ?_⟩⟩
  · rw [hparts, List.length_append, List.length_cons]
    omega
  · rw [hm, hparts, List.getElem?_append_right (Nat.le_refl _), Nat.sub_self, List.getElem?_cons_zero]
  · rw [htake, hparts, List.take_left]
  · rw [hdrop, hparts, List.drop_left]
  · intro first name rest hnext
    rw [hdrop] at hnext
    obtain ⟨rfl, rfl⟩ := List.cons.inj hnext
    have hlist : parts = (before ++ [m, name]) ++ rest := by
      rw [hparts, List.append_assoc]
      rfl
    have hlength : (before ++ [m, name]).length = before.length + 2 := by
      rw [List.length_append, List.length_cons, List.length_singleton]
    refine ⟨?_, ?_, ?_⟩
    · rw [hlist, List.length_append, hlength]
      omega
    · rw [hparts, List.getElem?_append_right (Nat.le_add_right _ 1), Nat.add_sub_cancel_left]
      rfl
    · rw [hlist, ← hlength, List.drop_left]

/-! ### Readers in range -/

/-- The computation gives a result, or refuses for another reason than offsets that do not fit. -/
def Fits {α : Type} (x : Except Refusal α) : Prop :=
  ∀ i j, x ≠ .error (.misplaced i j)

/-- A cut fits exactly if its ends are boundaries in order. -/
lemma fits_slice_iff {source : Text} {i j : Nat} :
    Fits (slice source i j) ↔ source.IsBoundary i ∧ source.IsBoundary j ∧ i ≤ j := by
  constructor
  · intro h
    cases hcut : source.slice? i j with
    | none => exact absurd (by rw [slice, hcut]) (h i j)
    | some m =>
      obtain ⟨a, b, hsource, rfl, rfl⟩ := Text.slice?_eq_some_iff.1 hcut
      refine ⟨Text.isBoundary_iff.2 ⟨a, m ++ b, hsource, rfl⟩, Text.isBoundary_iff.2 ⟨a ++ m, b, ?_, ?_⟩,
        Nat.le_add_right _ _⟩
      · rw [hsource, List.append_assoc]
      · rw [Text.byteSize_append]
  · rintro ⟨hi, hj, hle⟩
    obtain ⟨a, m, b, hsource, ha, hm⟩ := Text.exists_split hi hj hle
    rw [slice, Text.slice?_eq_some_iff.2 ⟨a, b, hsource, ha, hm⟩]
    rintro i j ⟨⟩

namespace Fits

variable {α β : Type}

lemma ok (a : α) : Fits (.ok a) := by
  rintro i j ⟨⟩

lemma of_isOk {x : Except Refusal α} (h : ∃ a, x = .ok a) : Fits x := by
  obtain ⟨a, rfl⟩ := h
  exact ok a

lemma bind {x : Except Refusal α} {f : α → Except Refusal β} (hx : Fits x)
    (hf : ∀ a, x = .ok a → Fits (f a)) : Fits (x >>= f) := by
  cases x with
  | error r =>
    intro i j h
    exact hx i j (congrArg Except.error (Except.error.inj h))
  | ok a => exact hf a rfl

lemma map {x : Except Refusal α} (hx : Fits x) (f : α → β) : Fits (x.map f) := by
  cases x with
  | error r =>
    intro i j h
    exact hx i j (congrArg Except.error (Except.error.inj h))
  | ok a => exact ok (f a)

lemma mapM {f : α → Except Refusal β} {l : List α} (h : ∀ a ∈ l, Fits (f a)) : Fits (l.mapM f) := by
  induction l with
  | nil => exact ok []
  | cons a l ih =>
    obtain ⟨ha, hl⟩ := List.forall_mem_cons.1 h
    rw [List.mapM_cons]
    exact ha.bind fun b _ => (ih hl).bind fun bs _ => ok (b :: bs)

lemma option_mapM {f : α → Except Refusal β} {o : Option α} (h : ∀ a ∈ o, Fits (f a)) :
    Fits (o.mapM f) := by
  cases o with
  | none => exact ok none
  | some a => exact (h a rfl).map some

end Fits

section Readers

variable {source : Text} {tree : Node} (placed : ∀ n ∈ tree.nodes, Placed source n)
include placed

lemma fits_slice {p : Place} (hp : p.IsOf tree) : Fits (slice source p.start p.stop) :=
  have hrange := hp.inRange placed
  fits_slice_iff.2 ⟨hrange.start, hrange.stop, hrange.le⟩

lemma fits_text {n : Node} (hn : n ∈ tree.nodes) : Fits (n.text source) :=
  fits_slice placed (Place.isOf_place hn)

lemma fits_unreadable {α : Type} {n : Node} (hn : n ∈ tree.nodes) :
    Fits (.error (unreadable source n) : Except Refusal α) := by
  intro i j h
  have hreason := Except.error.inj h
  rw [unreadable] at hreason
  split at hreason
  · cases hreason
  · next r hr =>
    rw [hreason] at hr
    exact fits_text placed hn i j hr

lemma fits_readParameter {n : Node} {following : List Node} (hn : n ∈ tree.nodes)
    (hfollowing : ∀ m ∈ following, m ∈ tree.nodes) : Fits (readParameter source n following) := by
  have hpart : ∀ m ∈ n.parts, m ∈ tree.nodes := fun m hm =>
    Node.mem_nodes_trans (Node.part_mem_nodes hm) hn
  rw [readParameter]
  cases hcolon : n.parts.find? fun p => p.kind == ":" with
  | none => exact fits_unreadable placed hn
  | some colon =>
    have hback : colon.stop = colon.back.offset := rfl
    have hbackOf : colon.back.IsOf tree :=
      Edge.isOf_back (hpart colon (List.mem_of_find?_eq_some hcolon))
    dsimp only
    rw [← equals?, ← value?, ← offset_typeEnd, ← offset_defaultStart?, ← offset_entryEnd, hback]
    refine Fits.bind (.mapM fun m hm => ?_) fun names _ => Fits.bind ?_ fun type _ => ?_
    · exact fits_text placed (hpart m ((List.takeWhile_sublist _).subset hm))
    · exact fits_slice placed (p := .gap colon.back (typeEnd n following) [])
        ⟨hbackOf, isOf_typeEnd hn hfollowing, by simp⟩
    · cases parameterNames? names with
      | none => exact fits_unreadable placed hn
      | some words =>
        refine Fits.bind (.option_mapM fun o ho => ?_) fun _ _ => .ok _
        obtain ⟨e, he, rfl⟩ := Option.map_eq_some_iff.1 ho
        exact fits_slice placed (p := .gap e (entryEnd n following) [])
          ⟨isOf_defaultStart? hfollowing he, isOf_entryEnd hn hfollowing, by simp⟩

lemma fits_readParameters {ns : List Node} (hns : ∀ m ∈ ns, m ∈ tree.nodes) :
    Fits (readParameters source ns) := by
  induction ns with
  | nil => exact .ok []
  | cons n rest ih =>
    obtain ⟨hn, hrest⟩ := List.forall_mem_cons.1 hns
    rw [readParameters]
    split
    · exact .ok []
    split
    · exact (fits_readParameter placed hn hrest).bind fun p _ => (ih hrest).bind fun ps _ => .ok (p :: ps)
    · exact ih hrest

lemma fits_readModifiers {n : Node} (hn : n ∈ tree.nodes) : Fits (readModifiers source n) := by
  refine Fits.bind (.mapM fun m hm => ?_) fun _ _ => .ok _
  refine fits_text placed (modifier_mem_nodes hn ?_)
  simpa only [modifiersIn, modifierNodes, List.flatMap_cons, List.flatMap_nil, List.append_nil] using hm

lemma fits_readFunction {n : Node} (hn : n ∈ tree.nodes) (above : List Node) :
    Fits (readFunction source n above) := by
  have hpart : ∀ m ∈ n.parts, m ∈ tree.nodes := fun m hm =>
    Node.mem_nodes_trans (Node.part_mem_nodes hm) hn
  rw [readFunction]
  split
  · exact fits_unreadable placed hn
  dsimp only
  cases hdrop : n.parts.dropWhile fun p => p.kind != "func" with
  | nil => exact fits_unreadable placed hn
  | cons func behind =>
    have hbehind : ∀ m ∈ behind, m ∈ tree.nodes := by
      intro m hm
      have hmem : m ∈ n.parts.dropWhile fun p => p.kind != "func" := by
        rw [hdrop]
        exact List.mem_cons_of_mem func hm
      exact hpart m ((List.dropWhile_sublist _).subset hmem)
    cases behind with
    | nil => rintro i j ⟨⟩
    | cons name rest =>
      obtain ⟨hname, hrest⟩ := List.forall_mem_cons.1 hbehind
      refine (fits_text placed hname).bind fun _ _ => Fits.bind (.mapM fun m hm => ?_) fun _ _ =>
        Fits.bind (.mapM fun m hm => ?_) fun _ _ =>
        (fits_readParameters placed hrest).bind fun _ _ =>
        Fits.bind (.mapM fun m hm => ?_) fun _ _ => ?_
      · exact fits_readModifiers placed (hpart m ((List.takeWhile_sublist _).subset hm))
      · exact fits_text placed (hrest m ((List.takeWhile_sublist _).subset (mem_of_nodesOf hm)))
      · exact fits_text placed (hrest m (mem_of_nodesOf hm))
      · cases hclose : rest.find? fun p => p.kind == ")" with
        | none => rintro i j ⟨⟩
        | some close =>
          have hplace := isOf_effectsPlace hn (hrest close (List.mem_of_find?_eq_some hclose)) hrest
          refine Fits.bind (.of_isOk ⟨_, slice_effects_eq_ok_iff.2 ⟨?_, rfl⟩⟩) fun _ _ => .ok _
          exact (hplace.inRange placed).isSome_cut?

lemma fits_introducer {n : Node} (hn : n ∈ tree.nodes) : Fits (introducer source n) := by
  refine Fits.bind (.option_mapM fun m hm => ?_) fun _ _ => .ok _
  exact fits_text placed (Node.mem_nodes_trans (Node.part_mem_nodes (List.mem_of_find?_eq_some hm)) hn)

lemma fits_readDeclaration {n : Node} (hn : n ∈ tree.nodes) (above : List Node) :
    Fits (readDeclaration source ⟨n, above⟩) := by
  rw [readDeclaration]
  split
  · exact (fits_readFunction placed hn above).map _
  · rintro i j ⟨⟩
  · exact fits_unreadable placed hn
  · exact (fits_introducer placed hn).map _

lemma fits_firstDeclaration (isMember : Bool) : Fits (firstDeclaration source tree isMember) := by
  rw [firstDeclaration]
  cases hfind : tree.parts.find? Node.isNamed with
  | none => rintro i j ⟨⟩
  | some n =>
    have hn : n ∈ tree.nodes := Node.part_mem_nodes (List.mem_of_find?_eq_some hfind)
    refine (fits_readDeclaration placed hn [tree]).bind fun d _ => ?_
    cases d with
    | function s => exact .ok _
    | other word => exact .ok _

/-- What is found in the tree has a declaration that is read in range, and can be taken away. -/
lemma fits_of_mem_sites {s : Site} (hs : s ∈ (attributesIn [] tree).filterMap (site? source)) :
    Fits s.declaration ∧ ∃ e, removal source s = .ok e ∧ TakesAway source s e := by
  obtain ⟨a, ha, hsite⟩ := List.mem_filterMap.1 hs
  obtain ⟨g, d, -, hdecorates, hdescribes⟩ := describes_of_site? placed ha hsite
  have hmark := placed a.node (mem_attributesIn ha).1
  have hremoval : ∃ e, removal source s = .ok e ∧ IsRemoval source s e := by
    refine exists_removal ?_ ?_ ?_
    · rw [hdescribes.start]
      exact hmark.start
    · rw [hdescribes.stop]
      exact hmark.stop
    · rw [hdescribes.start, hdescribes.stop]
      exact hmark.le
  refine ⟨?_, hremoval.imp fun e he => ⟨he.1, he.2.takesAway⟩⟩
  rw [hdescribes.declaration]
  exact fits_readDeclaration placed (hdecorates.inside ha).1 d.above

end Readers

/-- All that is cut out of a source for its tree is in range, and all that is counted is there. -/
structure ReadsInRange (source : Text) (tree : Node) : Prop where
  /-- A cut fits exactly if its ends are boundaries in order. -/
  cuts : ∀ i j, Fits (slice source i j) ↔ source.IsBoundary i ∧ source.IsBoundary j ∧ i ≤ j
  declarations : ∀ n ∈ tree.nodes, ∀ above, Fits (readDeclaration source ⟨n, above⟩)
  /-- Every part of a header that is cut out lies in the source, also where nothing is made of it. -/
  places : ∀ n ∈ tree.nodes, ∀ h, layout? n = some h → ∀ p ∈ h.cut, p.InRange source
  indices : ∀ n ∈ tree.nodes, ∀ kind, (∃ p ∈ n.parts, p.kind = kind) → ∃ i, SplitsAt n.parts kind i
  first : ∀ isMember, Fits (firstDeclaration source tree isMember)
  found : ∃ found, sites source tree = .ok found ∧ ∀ s ∈ found,
    Fits s.declaration ∧ ∃ e, removal source s = .ok e ∧ TakesAway source s e

/-- **Nothing is cut out of range.**  Of a tree of which only the offsets are known all cuts fit: those
for the declaration at any node, those for the first declaration, those for the sites, which are found,
with their declarations, and those for the removal of the attribute of each site. -/
theorem reading_in_range {source : Text} {tree : Node} (placed : ∀ n ∈ tree.nodes, Placed source n) :
    ReadsInRange source tree where
  cuts _ _ := fits_slice_iff
  declarations _ hn above := fits_readDeclaration placed hn above
  places n hn _ hlayout p hp :=
    have hplaced : ∀ m ∈ n.nodes, Placed source m := fun m hm => placed m (Node.mem_nodes_trans hm hn)
    (isOf_of_layout? hlayout p hp).inRange hplaced
  indices _ _ _ hkind := exists_splitsAt hkind
  first isMember := fits_firstDeclaration placed isMember
  found := ⟨_, sites_of_placed placed, fun _ hs => fits_of_mem_sites placed hs⟩

/-! ### A malformed source -/

/-- The requirements stand inside the parentheses, no type stands behind a sign `=`, and the second
attribute belongs to no declaration. -/
def malformed : Text :=
  "@Asyncify func f(where a:é)=\n@Asyncify \x7d\n".toList

/-- A tree that a parser could put together from it. -/
def malformedTree : Node :=
  ⟨"source_file", true, false, true, 0, 42,
    [rule "function_declaration" 0 29
      [rule "modifiers" 0 9 [rule "attribute" 0 9 []], token "func" 10 14,
        rule "simple_identifier" 15 16 [], token "(" 16 17, rule "type_constraints" 17 22 [],
        rule "parameter" 23 25 [rule "simple_identifier" 23 24 [], token ":" 24 25],
        token ")" 27 28, token "=" 28 29],
      ⟨"ERROR", true, false, true, 30, 41, [rule "attribute" 30 39 []]⟩]⟩

theorem reading_in_range_malformed :
    (∀ n ∈ malformedTree.nodes, Placed malformed n) ∧ ReadsInRange malformed malformedTree :=
  ⟨by decide +kernel, reading_in_range (by decide +kernel)⟩

end AsyncPeer.Source
