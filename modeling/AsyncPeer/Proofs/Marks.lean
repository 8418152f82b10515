/-
# Attributes of generators

Which attributes of a tree are those of generators is said here without walking through the tree.  A node
is found by its path from the root, `Node.at?`, so that equal nodes at different places are told apart.
An attribute counts if it stands inside no other attribute (`IsOuterAttribute`), names a generator
(`NamesGenerator`) and has a declaration above it (`Located.Decorates`).

The walk collects the attributes of exactly these paths, each once and in order (`exists_paths`), and
what is found at each of them is described by `siteAt?_cases`.
-/
import AsyncPeer.Proofs.Removal

namespace AsyncPeer

lemma Generator.named?_eq_some_iff {name : Text} {g : Generator} :
    named? name = some g ↔ g.name = name := by
  constructor
  · intro h
    simpa using List.find?_some h
  · rintro rfl
    exact named?_name g

namespace Source

/-! ### Nodes and their paths -/

/-- The node with further nodes above it. -/
def Located.under (above : List Node) (a : Located) : Located :=
  ⟨a.node, a.above ++ above⟩

/-- The node that a path leads to.  Each step says which of the nodes directly below is next. -/
def Node.at? (n : Node) : List Nat → Option Located
  | [] => some ⟨n, []⟩
  | i :: path => n.children[i]?.bind fun c => (c.at? path).map (Located.under [n])

/-- The path leads to an attribute that stands inside no other attribute. -/
structure IsOuterAttribute (tree : Node) (path : List Nat) (a : Located) : Prop where
  leads : tree.at? path = some a
  kind : a.node.kind = "attribute"
  outer : ∀ n ∈ a.above, n.kind ≠ "attribute"

lemma Located.under_nil (a : Located) : a.under [] = a := by
  rw [under, List.append_nil]

lemma Located.under_under (a : Located) (above above' : List Node) :
    (a.under above).under above' = a.under (above ++ above') := by
  rw [under, under, under, List.append_assoc]

lemma Node.at?_cons_eq_some_iff {n : Node} {i : Nat} {path : List Nat} {a : Located} :
    n.at? (i :: path) = some a ↔
      ∃ c b, n.children[i]? = some c ∧ c.at? path = some b ∧ b.under [n] = a := by
  rw [Node.at?, Option.bind_eq_some_iff]
  refine exists_congr fun c => ?_
  rw [Option.map_eq_some_iff]
  exact ⟨fun ⟨hc, b, hb, ha⟩ => ⟨b, hc, hb, ha⟩, fun ⟨b, hc, hb, ha⟩ => ⟨hc, b, hb, ha⟩⟩

lemma Node.mem_nodes_of_at? {n : Node} {path : List Nat} {a : Located} (h : n.at? path = some a) :
    a.node ∈ n.nodes := by
  induction path generalizing n a with
  | nil =>
    obtain rfl := Option.some.inj h
    exact n.self_mem_nodes
  | cons i path ih =>
    obtain ⟨c, b, hc, hb, rfl⟩ := Node.at?_cons_eq_some_iff.1 h
    have hmem : b.node ∈ c.nodes := ih hb
    exact Node.mem_nodes_of_child (List.mem_of_getElem? hc) hmem

section Paths

variable {tree : Node}

/-- An attribute hides everything below it. -/
lemma isOuterAttribute_iff_of_kind (hkind : tree.kind = "attribute") {path : List Nat} {a : Located} :
    IsOuterAttribute tree path a ↔ path = [] ∧ a = ⟨tree, []⟩ := by
  constructor
  · rintro ⟨hleads, -, houter⟩
    cases path with
    | nil => exact ⟨rfl, (Option.some.inj hleads).symm⟩
    | cons i path =>
      obtain ⟨c, b, -, -, rfl⟩ := Node.at?_cons_eq_some_iff.1 hleads
      exact absurd hkind (houter tree (by simp [Located.under]))
  · rintro ⟨rfl, rfl⟩
    exact ⟨rfl, hkind, by simp⟩

/-- Other nodes pass on the attributes of the nodes directly below. -/
lemma isOuterAttribute_iff_of_kind_ne (hkind : tree.kind ≠ "attribute") {path : List Nat} {a : Located} :
    IsOuterAttribute tree path a ↔
      ∃ i c rest b, path = i :: rest ∧ tree.children[i]? = some c ∧ IsOuterAttribute c rest b ∧
        a = b.under [tree] := by
  constructor
  · rintro ⟨hleads, hattribute, houter⟩
    cases path with
    | nil =>
      obtain rfl := Option.some.inj hleads
      exact absurd hattribute hkind
    | cons i path =>
      obtain ⟨c, b, hc, hb, rfl⟩ := Node.at?_cons_eq_some_iff.1 hleads
      exact ⟨i, c, path, b, rfl, hc,
        ⟨hb, hattribute, fun n hn => houter n (List.mem_append_left [tree] hn)⟩, rfl⟩
  · rintro ⟨i, c, rest, b, rfl, hc, ⟨hleads, hattribute, houter⟩, rfl⟩
    refine ⟨Node.at?_cons_eq_some_iff.2 ⟨c, b, hc, hleads, rfl⟩, hattribute, fun n hn => ?_⟩
    rcases List.mem_append.1 hn with hn | hn
    · exact houter n hn
    · rw [List.mem_singleton.1 hn]
      exact hkind

lemma pairwise_zipIdx {α : Type} (l : List α) (k : Nat) :
    (l.zipIdx k).Pairwise fun x y => x.2 < y.2 := by
  induction l generalizing k with
  | nil => exact .nil
  | cons a l ih => exact .cons (fun y hy => List.le_snd_of_mem_zipIdx hy) (ih (k + 1))

/-- The paths of the attributes that are collected, in the order of the source. -/
lemma exists_paths (tree : Node) : ∃ paths : List (List Nat),
    paths.Pairwise (· < ·) ∧
      (∀ path, path ∈ paths ↔ ∃ a, IsOuterAttribute tree path a) ∧
      ∀ above, (attributesIn above tree).map some =
        paths.map fun path => (tree.at? path).map (Located.under above) := by
  induction tree using Node.byChildren with
  | step tree ih =>
    by_cases hkind : tree.kind = "attribute"
    · refine ⟨[[]], List.pairwise_singleton _ _, fun path => ?_, fun above => ?_⟩
      · simp [isOuterAttribute_iff_of_kind hkind]
      · rw [attributesIn_eq, if_pos hkind]
        rfl
    · choose! pathsOf hordered hcomplete hcollects using ih
      have hchild : ∀ x ∈ tree.children.zipIdx, tree.children[x.2]? = some x.1 := fun x hx =>
        List.mem_zipIdx_iff_getElem?.1 hx
      have hmem : ∀ x ∈ tree.children.zipIdx, x.1 ∈ tree.children := fun x hx =>
        List.mem_of_getElem? (hchild x hx)
      refine ⟨tree.children.zipIdx.flatMap fun x => (pathsOf x.1).map (x.2 :: ·), ?_,
        fun path => ?_, fun above => ?_⟩
      · rw [List.pairwise_flatMap]
        constructor
        · intro x hx
          refine List.pairwise_map.2 ((hordered x.1 (hmem x hx)).imp fun h => ?_)
          exact List.cons_lt_cons_iff.2 (Or.inr ⟨rfl, h⟩)
        · refine (pairwise_zipIdx tree.children 0).imp fun {x y} hlt p hp q hq => ?_
          obtain ⟨p, -, rfl⟩ := List.mem_map.1 hp
          obtain ⟨q, -, rfl⟩ := List.mem_map.1 hq
          exact List.cons_lt_cons_iff.2 (Or.inl hlt)
      · simp only [isOuterAttribute_iff_of_kind_ne hkind, List.mem_flatMap, List.mem_map]
        constructor
        · rintro ⟨x, hx, rest, hrest, rfl⟩
          obtain ⟨b, hb⟩ := (hcomplete x.1 (hmem x hx) rest).1 hrest
          exact ⟨_, x.2, x.1, rest, b, rfl, hchild x hx, hb, rfl⟩
        · rintro ⟨a, i, c, rest, b, rfl, hc, hb, -⟩
          exact ⟨(c, i), List.mem_zipIdx_iff_getElem?.2 hc, rest,
            (hcomplete c (List.mem_of_getElem? hc) rest).2 ⟨b, hb⟩, rfl⟩
      · have hzip : tree.children.flatMap (attributesIn (tree :: above)) =
            tree.children.zipIdx.flatMap fun x => attributesIn (tree :: above) x.1 := by
          nth_rewrite 1 [← List.zipIdx_map_fst 0 tree.children]
          rw [List.flatMap_map]
        rw [attributesIn_eq, if_neg hkind, hzip, List.map_flatMap, List.map_flatMap]
        refine List.flatMap_congr fun x hx => ?_
        rw [hcollects x.1 (hmem x hx), List.map_map]
        refine List.map_congr_left fun path _ => ?_
        rw [Function.comp_apply, Node.at?, hchild x hx, Option.bind_some, Option.map_map]
        congr 1
        funext b
        exact (b.under_under [tree] above).symm

/-- The walk finds every attribute that stands inside no other one. -/
lemma IsOuterAttribute.mem {path : List Nat} {a : Located} (h : IsOuterAttribute tree path a) :
    a ∈ attributesIn [] tree := by
  obtain ⟨paths, -, hcomplete, hcollects⟩ := exists_paths tree
  have hmem : some a ∈ (attributesIn [] tree).map some := by
    rw [hcollects, List.mem_map]
    refine ⟨path, (hcomplete path).2 ⟨a, h⟩, ?_⟩
    rw [h.leads, Option.map_some, a.under_nil]
  simpa using hmem

end Paths

/-! ### Generators and declarations -/

/-- The text of the node gives the name of the generator. -/
def NamesGenerator (source : Text) (n : Node) (g : Generator) : Prop :=
  ∃ t, source.slice? n.start n.stop = some t ∧ attributeName? t = some g.name

/-- The second node is directly above the first one, or above the modifiers that the first one stands
in. -/
def Located.Decorates (a d : Located) : Prop :=
  (d.node.kind ≠ "modifiers" ∧ a.above = d.node :: d.above) ∨
    ∃ m : Node, m.kind = "modifiers" ∧ a.above = m :: d.node :: d.above

lemma attachedTo?_eq_some_iff {a d : Located} : attachedTo? a = some d ↔ a.Decorates d := by
  obtain ⟨node, above⟩ := a
  obtain ⟨declared, higher⟩ := d
  cases above with
  | nil => simp [attachedTo?, Located.parent?, Located.Decorates]
  | cons p above =>
    by_cases hp : p.kind = "modifiers"
    · have hattached : attachedTo? ⟨node, p :: above⟩ = Located.parent? ⟨p, above⟩ := by
        simp [attachedTo?, Located.parent?, hp]
      rw [hattached, Located.Decorates]
      constructor
      · intro h
        cases above with
        | nil => cases h
        | cons q above =>
          cases h
          exact Or.inr ⟨p, hp, rfl⟩
      · rintro (⟨hne, habove⟩ | ⟨m, -, habove⟩)
        · obtain ⟨rfl, -⟩ := List.cons.inj habove
          exact absurd hp hne
        · obtain ⟨-, rfl⟩ := List.cons.inj habove
          rfl
    · have hattached : attachedTo? ⟨node, p :: above⟩ = some ⟨p, above⟩ := by
        simp [attachedTo?, Located.parent?, hp]
      rw [hattached, Located.Decorates]
      constructor
      · intro h
        cases h
        exact Or.inl ⟨hp, rfl⟩
      · rintro (⟨-, habove⟩ | ⟨m, hm, habove⟩)
        · obtain ⟨rfl, rfl⟩ := List.cons.inj habove
          rfl
        · obtain ⟨rfl, -⟩ := List.cons.inj habove
          exact absurd hm hp

lemma Located.Decorates.mem {a d : Located} (h : a.Decorates d) : d.node ∈ a.above := by
  rcases h with ⟨-, habove⟩ | ⟨m, -, habove⟩
  · rw [habove]
    exact List.mem_cons_self
  · rw [habove]
    exact List.mem_cons_of_mem m List.mem_cons_self

/-- A text that names an attribute is not empty. -/
lemma ne_nil_of_attributeName? {t name : Text} (h : attributeName? t = some name) : t ≠ [] := by
  rintro rfl
  exact absurd h (by simp [attributeName?])

/-- A node that names a generator has text. -/
lemma NamesGenerator.lt {source : Text} {n : Node} {g : Generator} (h : NamesGenerator source n g) :
    n.start < n.stop := by
  obtain ⟨t, ht, hname⟩ := h
  obtain ⟨x, y, -, hx, hsize⟩ := Text.slice?_eq_some_iff.1 ht
  have := Text.byteSize_pos (ne_nil_of_attributeName? hname)
  omega

/-! ### What is found at an attribute -/

/-- The site is that of the attribute `a` of the generator `g` at the declaration `d`.  Line and column
are counted in what stands before the attribute. -/
structure Site.Describes (s : Site) (source : Text) (a : Located) (g : Generator) (d : Located) :
    Prop where
  generator : s.generator = g
  start : s.start = a.node.start
  stop : s.stop = a.node.stop
  position : ∃ before behind, source = before ++ behind ∧ before.byteSize = a.node.start ∧
    s.line = before.count '\n' + 1 ∧ s.column = (lastLine before).byteSize + 1 ∧
    s.indent = (lastLine before ++ behind).takeWhile isIndent
  declaration : s.declaration = readDeclaration source d
  declarationStop : s.declarationStop = d.node.stop

/-- An attribute on boundaries of the source has a site exactly if it names a generator and has a
declaration above it. -/
lemma siteAt?_cases {source : Text} {a : Located} (ha : Placed source a.node) :
    (siteAt? source a = .ok none ∧ ¬∃ g d, NamesGenerator source a.node g ∧ a.Decorates d) ∨
      ∃ g d s, NamesGenerator source a.node g ∧ a.Decorates d ∧ siteAt? source a = .ok (some s) ∧
        s.Describes source a g d := by
  obtain ⟨x, m, y, hsource, hx, hm⟩ := Text.exists_split ha.start ha.stop ha.le
  have hslice : source.slice? a.node.start a.node.stop = some m :=
    Text.slice?_eq_some_iff.2 ⟨x, y, hsource, hx, hm⟩
  have htext : a.node.text source = .ok m := slice_eq_ok hsource hx hm
  have hbefore : slice source 0 a.node.start = .ok x :=
    slice_eq_ok (a := []) hsource rfl (by simpa using hx)
  have hbehind : slice source a.node.start source.byteSize = .ok (m ++ y) := by
    refine slice_eq_ok (b := []) (by simpa using hsource) hx ?_
    rw [hsource]
    simp only [Text.byteSize_append]
  have hnames : ∀ g, NamesGenerator source a.node g ↔
      (attributeName? m).bind Generator.named? = some g := by
    intro g
    rw [NamesGenerator, hslice, Option.bind_eq_some_iff]
    simp only [Option.some.injEq, exists_eq_left', Generator.named?_eq_some_iff]
    exact ⟨fun h => ⟨_, h, rfl⟩, fun ⟨name, h, hg⟩ => hg ▸ h⟩
  simp only [hnames, ← attachedTo?_eq_some_iff]
  cases hname : (attributeName? m).bind Generator.named? with
  | none =>
    refine Or.inl ⟨?_, by simp⟩
    simp only [siteAt?, htext, hname, bind, Except.bind, pure, Except.pure]
  | some g =>
    cases hdeclared : attachedTo? a with
    | none =>
      refine Or.inl ⟨?_, by simp⟩
      simp only [siteAt?, htext, hname, hdeclared, bind, Except.bind, pure, Except.pure]
    | some d =>
      have hsome : ∃ s, siteAt? source a = .ok (some s) ∧ s.Describes source a g d := by
        simp only [siteAt?, htext, hname, hdeclared, hbefore, hbehind, bind, Except.bind, pure,
          Except.pure]
        exact ⟨_, rfl, rfl, rfl, rfl, ⟨x, m ++ y, hsource, hx, rfl, rfl, rfl⟩, rfl, rfl⟩
      obtain ⟨s, hs, hdescribes⟩ := hsome
      exact Or.inr ⟨g, d, s, rfl, rfl, hs, hdescribes⟩

end Source

end AsyncPeer
