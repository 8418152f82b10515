/-
# Well-placed trees

What a parser promises about the offsets of a syntax tree: every node lies on boundaries of the
source, the nodes directly below it lie inside it, and they follow each other.  From these local
conditions the file derives how any two nodes of a tree lie with respect to each other:

* `Placed.within`: a node lies inside every node above it;
* `nested_or_apart`: of two nodes, one is below the other, or one ends before the other begins;
* `pairwise_attributesIn`: the attributes that are collected from a tree follow each other.

`WellPlaced` adds what the parser promises about attributes and functions in particular: they begin
and end with characters that are not blank, and no function ends where an attribute inside it does.
-/
import Mathlib.Data.List.Basic
import Mathlib.Data.List.Forall2
import AsyncPeer.Proofs.Boundary
import AsyncPeer.Source.Node

namespace AsyncPeer.Source

/-! ### The nodes of a tree -/

mutual

/-- The nodes of a tree: its root and everything below. -/
def Node.nodes : Node → List Node
  | ⟨kind, isNamed, isMissing, hasError, start, stop, children⟩ =>
    ⟨kind, isNamed, isMissing, hasError, start, stop, children⟩ :: nodesOfAll children

/-- The nodes of trees that stand side by side. -/
def nodesOfAll : List Node → List Node
  | [] => []
  | n :: ns => n.nodes ++ nodesOfAll ns

end

/-- A node without a name of its own. -/
def token (kind : String) (start stop : Nat) : Node :=
  ⟨kind, false, false, false, start, stop, []⟩

/-- A named node. -/
def rule (kind : String) (start stop : Nat) (children : List Node) : Node :=
  ⟨kind, true, false, false, start, stop, children⟩

/-- Induction over a tree: from the nodes directly below to the node itself. -/
@[elab_as_elim]
theorem Node.byChildren {motive : Node → Prop}
    (step : ∀ n : Node, (∀ c ∈ n.children, motive c) → motive n) (n : Node) : motive n := by
  refine @Node.rec motive (fun ns => ∀ c ∈ ns, motive c) ?_ ?_ ?_ n
  · intro kind isNamed isMissing hasError start stop children ih
    exact step _ ih
  · intro c hc
    exact absurd hc (by simp)
  · intro c cs hc hcs d hd
    rcases List.mem_cons.1 hd with rfl | hd
    · exact hc
    · exact hcs d hd

lemma nodesOfAll_eq_flatMap (ns : List Node) : nodesOfAll ns = ns.flatMap Node.nodes := by
  induction ns with
  | nil => rfl
  | cons n ns ih => rw [nodesOfAll, ih, List.flatMap_cons]

lemma Node.nodes_eq (n : Node) : n.nodes = n :: n.children.flatMap Node.nodes := by
  rw [← nodesOfAll_eq_flatMap]
  cases n
  rfl

lemma Node.mem_nodes_iff {m n : Node} :
    m ∈ n.nodes ↔ m = n ∨ ∃ c ∈ n.children, m ∈ c.nodes := by
  rw [n.nodes_eq, List.mem_cons, List.mem_flatMap]

@[simp] lemma Node.self_mem_nodes (n : Node) : n ∈ n.nodes :=
  Node.mem_nodes_iff.2 (Or.inl rfl)

lemma Node.mem_nodes_of_child {m c n : Node} (hc : c ∈ n.children) (hm : m ∈ c.nodes) :
    m ∈ n.nodes :=
  Node.mem_nodes_iff.2 (Or.inr ⟨c, hc, hm⟩)

lemma Node.mem_nodes_trans {l m n : Node} (hl : l ∈ m.nodes) (hm : m ∈ n.nodes) :
    l ∈ n.nodes := by
  induction n using Node.byChildren with
  | step n ih =>
    rcases Node.mem_nodes_iff.1 hm with rfl | ⟨c, hc, hm⟩
    · exact hl
    · exact Node.mem_nodes_of_child hc (ih c hc hm)

/-! ### Texts of nodes -/

lemma slice_eq_ok {source : Text} {o p : Nat} {a m b : Text} (hsource : source = a ++ (m ++ b))
    (ho : a.byteSize = o) (hp : a.byteSize + m.byteSize = p) : slice source o p = .ok m := by
  rw [slice, Text.slice?_eq_some_iff.2 ⟨a, b, hsource, ho, hp⟩]

/-- A computation over a list succeeds if it does at each element. -/
lemma mapM_eq_ok {α β : Type} {f : α → Except Refusal β} {l : List α} {r : List β}
    (h : List.Forall₂ (fun a b => f a = .ok b) l r) : l.mapM f = .ok r := by
  induction h with
  | nil => rfl
  | cons hfirst _ ih =>
    rw [List.mapM_cons, hfirst, ih]
    rfl

lemma mapM_eq_ok_map {α β : Type} {f : α → Except Refusal β} {g : α → β} {l : List α}
    (h : ∀ a ∈ l, f a = .ok (g a)) : l.mapM f = .ok (l.map g) :=
  mapM_eq_ok (List.forall₂_map_right_iff.2 (List.forall₂_same.2 h))

/-! ### Offsets that fit together -/

/-- The offsets of a node are boundaries of the source in order, and the nodes directly below it lie
inside it and follow each other. -/
structure Placed (source : Text) (n : Node) : Prop where
  start : source.IsBoundary n.start
  stop : source.IsBoundary n.stop
  le : n.start ≤ n.stop
  inside : ∀ c ∈ n.children, n.start ≤ c.start ∧ c.stop ≤ n.stop
  ordered : n.children.Pairwise fun c d => c.stop ≤ d.start

instance (source : Text) (n : Node) : Decidable (Placed source n) :=
  decidable_of_iff
    (source.IsBoundary n.start ∧ source.IsBoundary n.stop ∧ n.start ≤ n.stop ∧
      (∀ c ∈ n.children, n.start ≤ c.start ∧ c.stop ≤ n.stop) ∧
      n.children.Pairwise fun c d => c.stop ≤ d.start)
    ⟨fun ⟨h1, h2, h3, h4, h5⟩ => ⟨h1, h2, h3, h4, h5⟩,
      fun ⟨h1, h2, h3, h4, h5⟩ => ⟨h1, h2, h3, h4, h5⟩⟩

variable {source : Text} {tree : Node}

lemma placed_child (h : ∀ n ∈ tree.nodes, Placed source n) {c : Node} (hc : c ∈ tree.children) :
    ∀ n ∈ c.nodes, Placed source n :=
  fun n hn => h n (Node.mem_nodes_of_child hc hn)

/-- A node lies inside every node above it. -/
lemma Placed.within (h : ∀ n ∈ tree.nodes, Placed source n) {m : Node} (hm : m ∈ tree.nodes) :
    tree.start ≤ m.start ∧ m.stop ≤ tree.stop := by
  induction tree using Node.byChildren with
  | step tree ih =>
    rcases Node.mem_nodes_iff.1 hm with rfl | ⟨c, hc, hm⟩
    · exact ⟨Nat.le_refl _, Nat.le_refl _⟩
    · have hinside := (h tree (by simp)).inside c hc
      have hbelow := ih c hc (placed_child h hc) hm
      omega

/-- Two different places in a list of nodes that follow each other. -/
lemma eq_or_apart {ns : List Node} (h : ns.Pairwise fun c d => c.stop ≤ d.start) {c d : Node}
    (hc : c ∈ ns) (hd : d ∈ ns) : c = d ∨ c.stop ≤ d.start ∨ d.stop ≤ c.start := by
  induction h with
  | nil => exact absurd hc (by simp)
  | cons hfirst _ ih =>
    rcases List.mem_cons.1 hc with rfl | hc'
    · rcases List.mem_cons.1 hd with rfl | hd'
      · exact Or.inl rfl
      · exact Or.inr (Or.inl (hfirst d hd'))
    · rcases List.mem_cons.1 hd with rfl | hd'
      · exact Or.inr (Or.inr (hfirst c hc'))
      · exact ih hc' hd'

/-- Two nodes of a tree are one below the other, or one ends before the other begins. -/
theorem nested_or_apart (h : ∀ n ∈ tree.nodes, Placed source n) {m n : Node} (hm : m ∈ tree.nodes)
    (hn : n ∈ tree.nodes) :
    m ∈ n.nodes ∨ n ∈ m.nodes ∨ m.stop ≤ n.start ∨ n.stop ≤ m.start := by
  induction tree using Node.byChildren with
  | step tree ih =>
    rcases Node.mem_nodes_iff.1 hm with rfl | ⟨c, hc, hmc⟩
    · exact Or.inr (Or.inl hn)
    rcases Node.mem_nodes_iff.1 hn with rfl | ⟨d, hd, hnd⟩
    · exact Or.inl hm
    have hmin := Placed.within (placed_child h hc) hmc
    have hnin := Placed.within (placed_child h hd) hnd
    rcases eq_or_apart (h tree (by simp)).ordered hc hd with rfl | hcd | hdc
    · exact ih c hc (placed_child h hc) hmc hnd
    · exact Or.inr (Or.inr (Or.inl (by omega)))
    · exact Or.inr (Or.inr (Or.inr (by omega)))

/-! ### Attributes -/

lemma attributesInAll_eq_flatMap (above ns : List Node) :
    attributesInAll above ns = ns.flatMap (attributesIn above) := by
  induction ns with
  | nil => rfl
  | cons n ns ih => rw [attributesInAll, ih, List.flatMap_cons]

lemma attributesIn_eq (above : List Node) (n : Node) :
    attributesIn above n =
      if n.kind = "attribute" then [⟨n, above⟩] else n.children.flatMap (attributesIn (n :: above)) := by
  rw [← attributesInAll_eq_flatMap]
  cases n
  rw [attributesIn]
  simp only [beq_iff_eq]

/-- An attribute that is collected belongs to the tree, and every node recorded above it that is new
lies in the tree and has the attribute below it. -/
lemma mem_attributesIn {above : List Node} {a : Located} (ha : a ∈ attributesIn above tree) :
    a.node ∈ tree.nodes ∧ a.node.kind = "attribute" ∧
      ∀ p ∈ a.above, p ∈ above ∨ (p ∈ tree.nodes ∧ a.node ∈ p.nodes) := by
  induction tree using Node.byChildren generalizing above with
  | step tree ih =>
    rw [attributesIn_eq] at ha
    split at ha
    · next hkind =>
      rw [List.mem_singleton] at ha
      subst ha
      exact ⟨by simp, hkind, fun p hp => Or.inl hp⟩
    · obtain ⟨c, hc, ha⟩ := List.mem_flatMap.1 ha
      obtain ⟨hnode, hkind, habove⟩ := ih c hc ha
      refine ⟨Node.mem_nodes_of_child hc hnode, hkind, fun p hp => ?_⟩
      rcases habove p hp with hp | ⟨hp, hap⟩
      · rcases List.mem_cons.1 hp with rfl | hp
        · exact Or.inr ⟨by simp, Node.mem_nodes_of_child hc hnode⟩
        · exact Or.inl hp
      · exact Or.inr ⟨Node.mem_nodes_of_child hc hp, hap⟩

/-- The attributes that are collected follow each other. -/
lemma pairwise_attributesIn (h : ∀ n ∈ tree.nodes, Placed source n) (above : List Node) :
    (attributesIn above tree).Pairwise fun a b => a.node.stop ≤ b.node.start := by
  induction tree using Node.byChildren generalizing above with
  | step tree ih =>
    rw [attributesIn_eq]
    split
    · exact List.pairwise_singleton _ _
    · rw [List.pairwise_flatMap]
      refine ⟨fun c hc => ih c hc (placed_child h hc) (tree :: above), ?_⟩
      have hordered := (h tree (by simp)).ordered
      refine hordered.imp_of_mem fun {c d} hc hd hcd a ha b hb => ?_
      have hin := Placed.within (placed_child h hc) (mem_attributesIn ha).1
      have hin' := Placed.within (placed_child h hd) (mem_attributesIn hb).1
      omega

/-! ### Attributes and functions -/

/-- The text of a node neither begins nor ends with a blank. -/
def Tight (source : Text) (n : Node) : Prop :=
  ∀ t ∈ source.slice? n.start n.stop,
    (∀ c ∈ t.head?, Text.isBlank c = false) ∧ (∀ c ∈ t.getLast?, Text.isBlank c = false)

instance (source : Text) (n : Node) : Decidable (Tight source n) :=
  decidable_of_iff
    (∀ t ∈ source.slice? n.start n.stop,
      t.head?.any Text.isBlank = false ∧ t.getLast?.any Text.isBlank = false)
    (by simp [Tight, Option.any_eq_false])

/-- What a parser promises about the tree of a source. -/
structure WellPlaced (source : Text) (tree : Node) : Prop where
  placed : ∀ n ∈ tree.nodes, Placed source n
  tight : ∀ n ∈ tree.nodes, n.kind = "attribute" ∨ n.kind = "function_declaration" →
    Tight source n
  ends_apart : ∀ f ∈ tree.nodes, f.kind = "function_declaration" →
    ∀ a ∈ f.nodes, a.kind = "attribute" → a.stop ≠ f.stop

instance (source : Text) (tree : Node) : Decidable (WellPlaced source tree) :=
  decidable_of_iff
    ((∀ n ∈ tree.nodes, Placed source n) ∧
      (∀ n ∈ tree.nodes, n.kind = "attribute" ∨ n.kind = "function_declaration" →
        Tight source n) ∧
      ∀ f ∈ tree.nodes, f.kind = "function_declaration" →
        ∀ a ∈ f.nodes, a.kind = "attribute" → a.stop ≠ f.stop)
    ⟨fun ⟨h1, h2, h3⟩ => ⟨h1, h2, h3⟩, fun ⟨h1, h2, h3⟩ => ⟨h1, h2, h3⟩⟩

/-- A tight node with text begins with a character that is not blank. -/
lemma Tight.standsAt_start {n : Node} (h : Tight source n) (hn : Placed source n)
    (hlt : n.start < n.stop) :
    ∃ c, source.StandsAt n.start c ∧ Text.isBlank c = false := by
  obtain ⟨a, m, b, hsource, ha, hm⟩ := Text.exists_split hn.start hn.stop hn.le
  cases m with
  | nil => simp at hm; omega
  | cons c m =>
    have htext := h (c :: m) (Text.slice?_eq_some_iff.2 ⟨a, b, hsource, ha, hm⟩)
    exact ⟨c, ⟨a, m ++ b, hsource, ha⟩, htext.1 c rfl⟩

/-- A tight node with text ends with a character that is not blank. -/
lemma Tight.standsAt_stop {n : Node} (h : Tight source n) (hn : Placed source n)
    (hlt : n.start < n.stop) :
    ∃ o c, source.StandsAt o c ∧ Text.isBlank c = false ∧ n.start ≤ o ∧
      o + c.utf8Size = n.stop := by
  obtain ⟨a, m, b, hsource, ha, hm⟩ := Text.exists_split hn.start hn.stop hn.le
  rcases m.eq_nil_or_concat' with rfl | ⟨m, c, rfl⟩
  · simp at hm
    omega
  · have htext := h (m ++ [c]) (Text.slice?_eq_some_iff.2 ⟨a, b, hsource, ha, hm⟩)
    refine ⟨(a ++ m).byteSize, c, ⟨a ++ m, b, ?_, rfl⟩, htext.2 c (by simp), ?_, ?_⟩
    · rw [hsource]
      simp only [List.append_assoc, List.cons_append, List.nil_append]
    · rw [Text.byteSize_append]
      omega
    · simp only [Text.byteSize_append, Text.byteSize_cons, Text.byteSize_nil] at hm ⊢
      omega

end AsyncPeer.Source
