/-
# Putting a text into a source

When a text is put into a source, everything behind it moves.  This file follows the places of a
header, the texts at these places and the nodes of a tree:

* a place is *around* an offset if what is put in there comes to stand inside of it.
  `Place.cut?_move` says that all other places keep their texts, and `Place.cut?_move_of_isAround`
  that a place around the offset gets the new text in the middle of its own;
* `Node.move` moves the nodes of a tree, and `Node.bare` leaves the comments of a tree out.  Both
  keep what a layout is found by, and `Keeps.layout?` says that the layout changes as the nodes do;
* `Commented` says that a tree is another one with a comment put in, and `Commented.layout?` that
  the layout of its header has moved.
-/
import AsyncPeer.Proofs.HeaderLayout

namespace AsyncPeer

/-! ### Texts between two offsets -/

namespace Text

variable {a b t : Text} {i j : Nat}

/-- What is in front stays. -/
lemma slice?_insert_of_le (h : (a ++ b).slice? i j = some t) (hj : j ≤ a.byteSize) (c : Text) :
    (a ++ (c ++ b)).slice? i j = some t := by
  obtain ⟨x, y, hsplit, hx, hy⟩ := slice?_eq_some_iff.1 h
  rw [← List.append_assoc] at hsplit
  obtain ⟨m, rfl, rfl⟩ := exists_append_of_le hsplit.symm (by rw [byteSize_append]; omega)
  exact slice?_eq_some_iff.2 ⟨x, m ++ (c ++ b), by simp only [List.append_assoc], hx, hy⟩

/-- What is behind moves. -/
lemma slice?_insert_of_ge (h : (a ++ b).slice? i j = some t) (hi : a.byteSize ≤ i) (c : Text) :
    (a ++ (c ++ b)).slice? (i + c.byteSize) (j + c.byteSize) = some t := by
  obtain ⟨x, y, hsplit, hx, hy⟩ := slice?_eq_some_iff.1 h
  obtain ⟨m, rfl, rfl⟩ := exists_append_of_le hsplit (by omega)
  rw [byteSize_append] at hx hy
  refine slice?_eq_some_iff.2 ⟨a ++ (c ++ m), y, by simp only [List.append_assoc], ?_, ?_⟩
  · simp only [byteSize_append]
    omega
  · simp only [byteSize_append]
    omega

/-- What is around gets the text in its middle. -/
lemma slice?_insert_of_mem (h : (a ++ b).slice? i j = some t) (hi : i ≤ a.byteSize)
    (hj : a.byteSize ≤ j) (c : Text) :
    ∃ u v, a.from? i = some u ∧ b.upTo? (j - a.byteSize) = some v ∧ t = u ++ v ∧
      (a ++ (c ++ b)).slice? i (j + c.byteSize) = some (u ++ (c ++ v)) := by
  obtain ⟨x, y, hsplit, rfl, hy⟩ := slice?_eq_some_iff.1 h
  obtain ⟨u, rfl, hu⟩ := exists_append_of_le hsplit.symm hi
  rw [byteSize_append] at hj
  obtain ⟨v, rfl, rfl⟩ := exists_append_of_le hu.symm (by omega)
  rw [byteSize_append] at hy
  refine ⟨u, v, from?_append x u, ?_, rfl, slice?_eq_some_iff.2 ⟨x, y, ?_, rfl, ?_⟩⟩
  · rw [byteSize_append, show j - (x.byteSize + u.byteSize) = v.byteSize by omega]
    exact upTo?_append v y
  · simp only [List.append_assoc]
  · simp only [byteSize_append]
    omega

end Text

namespace Source

variable {o k : Nat}

/-! ### Moving offsets -/

/-- The node is behind the offset, so that what is put in there comes in front of it. -/
def Span.IsBehind (o : Nat) (s : Span) : Prop :=
  o < s.start ∨ o = s.start ∧ s.start < s.stop

instance (o : Nat) (s : Span) : Decidable (s.IsBehind o) :=
  inferInstanceAs (Decidable (_ ∨ _))

/-- The offsets of a node after `k` bytes have been put in at `o`. -/
def Span.move (o k : Nat) (s : Span) : Span where
  start := if s.IsBehind o then s.start + k else s.start
  stop := if o < s.stop then s.stop + k else s.stop

/-- The edge is behind the offset. -/
def Edge.IsBehind (o : Nat) : Edge → Prop
  | front s => s.IsBehind o
  | back s => o < s.stop

/-- The place is around the offset: it begins before and ends behind. -/
def Place.IsAround (o : Nat) : Place → Prop
  | node s => s.start < o ∧ o < s.stop
  | gap left right others =>
    ¬ left.IsBehind o ∧ right.IsBehind o ∧ ∀ e ∈ others, e.IsBehind o

/-- The offset `x` becomes `x'`: it moves if it is behind `o`, and stays if it is not. -/
structure Moves (o k : Nat) (behind : Prop) (x x' : Nat) : Prop where
  moves : behind → x' = x + k ∧ o ≤ x
  stays : ¬ behind → x' = x ∧ x ≤ o

lemma Edge.moves (e : Edge) : Moves o k (e.IsBehind o) e.offset (e.map (Span.move o k)).offset := by
  cases e with
  | front s =>
    by_cases h : s.IsBehind o
    · refine ⟨fun _ => ⟨if_pos h, ?_⟩, fun h' => absurd h h'⟩
      rcases h with h | ⟨h, -⟩
      · exact Nat.le_of_lt h
      · exact Nat.le_of_eq h
    · refine ⟨fun h' => absurd h' h, fun _ => ⟨if_neg h, ?_⟩⟩
      exact Nat.le_of_not_lt fun hlt => h (Or.inl hlt)
  | back s =>
    by_cases h : o < s.stop
    · exact ⟨fun _ => ⟨if_pos h, Nat.le_of_lt h⟩, fun h' => absurd h h'⟩
    · exact ⟨fun h' => absurd h' h, fun _ => ⟨if_neg h, Nat.le_of_not_lt h⟩⟩

/-- The nearer of two offsets moves if both do. -/
lemma Moves.inf {p q : Prop} {x x' y y' : Nat} (hx : Moves o k p x x') (hy : Moves o k q y y') :
    Moves o k (p ∧ q) (min x y) (min x' y') := by
  by_cases hp : p
  · obtain ⟨rfl, hox⟩ := hx.moves hp
    by_cases hq : q
    · obtain ⟨rfl, hoy⟩ := hy.moves hq
      exact ⟨fun _ => by omega, fun h => absurd ⟨hp, hq⟩ h⟩
    · obtain ⟨rfl, hoy⟩ := hy.stays hq
      exact ⟨fun h => absurd h.2 hq, fun _ => by omega⟩
  · obtain ⟨rfl, hox⟩ := hx.stays hp
    refine ⟨fun h => absurd h.1 hp, fun _ => ?_⟩
    by_cases hq : q
    · obtain ⟨rfl, hoy⟩ := hy.moves hq
      omega
    · obtain ⟨rfl, hoy⟩ := hy.stays hq
      omega

lemma Moves.foldl {p : Prop} {x x' : Nat} (hx : Moves o k p x x') (es : List Edge) :
    Moves o k (p ∧ ∀ e ∈ es, e.IsBehind o) ((es.map Edge.offset).foldl min x)
      (((es.map (Edge.map (Span.move o k))).map Edge.offset).foldl min x') := by
  induction es generalizing p x x' with
  | nil => simpa using hx
  | cons e es ih =>
    have h := ih (hx.inf e.moves)
    rwa [and_assoc, ← List.forall_mem_cons (p := fun e => Edge.IsBehind o e)] at h

namespace Place

variable {a b t : Text} {p : Place}

lemma start_le_stop (h : p.cut? a = some t) : p.start ≤ p.stop := by
  obtain ⟨x, y, -, hx, hy⟩ := Text.slice?_eq_some_iff.1 h
  omega

/-- The ends of a node move or stay. -/
lemma node_moves (s : Span) :
    Moves o k (s.IsBehind o) (node s).start ((node s).map (Span.move o k)).start ∧
      Moves o k (o < s.stop) (node s).stop ((node s).map (Span.move o k)).stop :=
  ⟨(Edge.front s).moves, (Edge.back s).moves⟩

/-- The ends of a gap move or stay. -/
lemma gap_moves (left right : Edge) (others : List Edge) :
    Moves o k (left.IsBehind o) (gap left right others).start
        ((gap left right others).map (Span.move o k)).start ∧
      ∃ x x', Moves o k (right.IsBehind o ∧ ∀ e ∈ others, e.IsBehind o) x x' ∧
        (gap left right others).stop = max x (gap left right others).start ∧
        ((gap left right others).map (Span.move o k)).stop =
          max x' ((gap left right others).map (Span.move o k)).start :=
  ⟨left.moves, _, _, right.moves.foldl others, rfl, rfl⟩

/-- A place that is not around the offset keeps its text. -/
lemma cut?_move (h : p.cut? (a ++ b) = some t) (hp : ¬ p.IsAround a.byteSize) (c : Text) :
    (p.map (Span.move a.byteSize c.byteSize)).cut? (a ++ (c ++ b)) = some t := by
  have hle := start_le_stop h
  -- either both ends stay, or both move
  have hmoves :
      (p.map (Span.move a.byteSize c.byteSize)).start = p.start ∧
        (p.map (Span.move a.byteSize c.byteSize)).stop = p.stop ∧ p.stop ≤ a.byteSize ∨
      (p.map (Span.move a.byteSize c.byteSize)).start = p.start + c.byteSize ∧
        (p.map (Span.move a.byteSize c.byteSize)).stop = p.stop + c.byteSize ∧ a.byteSize ≤ p.start := by
    cases p with
    | node s =>
      obtain ⟨hfront, hback⟩ := node_moves (o := a.byteSize) (k := c.byteSize) s
      by_cases hs : a.byteSize < s.stop
      · have hbehind : s.IsBehind a.byteSize := by
          have : ¬ (s.start < a.byteSize ∧ a.byteSize < s.stop) := hp
          rw [Span.IsBehind]
          omega
        have := hfront.moves hbehind
        have := hback.moves hs
        omega
      · have hbefore : ¬ s.IsBehind a.byteSize := by
          replace hle : s.start ≤ s.stop := hle
          rw [Span.IsBehind]
          omega
        have := hfront.stays hbefore
        have := hback.stays hs
        omega
    | gap left right others =>
      obtain ⟨hleft, x, x', hright, hstop, hstop'⟩ :=
        gap_moves (o := a.byteSize) (k := c.byteSize) left right others
      by_cases hl : left.IsBehind a.byteSize
      · obtain ⟨hstart, hal⟩ := hleft.moves hl
        by_cases hr : right.IsBehind a.byteSize ∧ ∀ e ∈ others, e.IsBehind a.byteSize
        · have := hright.moves hr
          omega
        · have := hright.stays hr
          omega
      · obtain ⟨hstart, hal⟩ := hleft.stays hl
        have := hright.stays fun hr => hp ⟨hl, hr⟩
        omega
  rcases hmoves with ⟨hstart, hstop, hbefore⟩ | ⟨hstart, hstop, hbehind⟩
  · rw [cut?, hstart, hstop]
    exact Text.slice?_insert_of_le h hbefore c
  · rw [cut?, hstart, hstop]
    exact Text.slice?_insert_of_ge h hbehind c

/-- A place around the offset gets the text that is put in. -/
lemma cut?_move_of_isAround (h : p.cut? (a ++ b) = some t) (hp : p.IsAround a.byteSize) (c : Text) :
    ∃ u v, a.from? p.start = some u ∧ b.upTo? (p.stop - a.byteSize) = some v ∧ t = u ++ v ∧
      (p.map (Span.move a.byteSize c.byteSize)).cut? (a ++ (c ++ b)) = some (u ++ (c ++ v)) := by
  have hmoves : p.start ≤ a.byteSize ∧ a.byteSize ≤ p.stop ∧
      (p.map (Span.move a.byteSize c.byteSize)).start = p.start ∧
      (p.map (Span.move a.byteSize c.byteSize)).stop = p.stop + c.byteSize := by
    cases p with
    | node s =>
      obtain ⟨hfront, hback⟩ := node_moves (o := a.byteSize) (k := c.byteSize) s
      obtain ⟨hstart, hstop⟩ : s.start < a.byteSize ∧ a.byteSize < s.stop := hp
      have hbefore : ¬ s.IsBehind a.byteSize := by
        rw [Span.IsBehind]
        omega
      have := hfront.stays hbefore
      have := hback.moves hstop
      omega
    | gap left right others =>
      obtain ⟨hleft, x, x', hright, hstop, hstop'⟩ :=
        gap_moves (o := a.byteSize) (k := c.byteSize) left right others
      have := hleft.stays hp.1
      have := hright.moves hp.2
      omega
  obtain ⟨hbefore, hbehind, hstart, hstop⟩ := hmoves
  rw [cut?, hstart, hstop]
  exact Text.slice?_insert_of_mem h hbefore hbehind c

end Place

/-! ### Moving and stripping trees -/

mutual

/-- The tree after `k` bytes have been put in at `o`. -/
def Node.move (o k : Nat) : Node → Node
  | ⟨kind, isNamed, isMissing, hasError, start, stop, children⟩ =>
    ⟨kind, isNamed, isMissing, hasError, (Span.move o k ⟨start, stop⟩).start,
      (Span.move o k ⟨start, stop⟩).stop, moveAll o k children⟩

/-- Trees that stand side by side, after `k` bytes have been put in at `o`. -/
def moveAll (o k : Nat) : List Node → List Node
  | [] => []
  | n :: ns => n.move o k :: moveAll o k ns

end

mutual

/-- The tree without the comments in it. -/
def Node.bare : Node → Node
  | ⟨kind, isNamed, isMissing, hasError, start, stop, children⟩ =>
    ⟨kind, isNamed, isMissing, hasError, start, stop, bareAll children⟩

/-- Trees that stand side by side, without the comments. -/
def bareAll : List Node → List Node
  | [] => []
  | n :: ns => if n.isComment then bareAll ns else n.bare :: bareAll ns

end

/-- A change of trees that keeps everything but offsets, which it changes by `g`, and perhaps
comments. -/
structure Keeps (f : Node → Node) (g : Span → Span) : Prop where
  kind : ∀ n, (f n).kind = n.kind
  isNamed : ∀ n, (f n).isNamed = n.isNamed
  isMissing : ∀ n, (f n).isMissing = n.isMissing
  hasError : ∀ n, (f n).hasError = n.hasError
  span : ∀ n, (f n).span = g n.span
  parts : ∀ n, (f n).parts = n.parts.map f

lemma moveAll_eq_map (o k : Nat) (ns : List Node) : moveAll o k ns = ns.map (Node.move o k) := by
  induction ns with
  | nil => rfl
  | cons n ns ih => rw [moveAll, ih, List.map_cons]

lemma bareAll_eq_map (ns : List Node) :
    bareAll ns = (ns.filter fun n => !n.isComment).map Node.bare := by
  induction ns with
  | nil => rfl
  | cons n ns ih =>
    rw [bareAll, ih]
    split
    · next hn => rw [List.filter_cons_of_neg (by simp [hn])]
    · next hn => rw [List.filter_cons_of_pos (by simp [hn]), List.map_cons]

lemma keeps_move (o k : Nat) : Keeps (Node.move o k) (Span.move o k) where
  kind n := by cases n; rfl
  isNamed n := by cases n; rfl
  isMissing n := by cases n; rfl
  hasError n := by cases n; rfl
  span n := by cases n; rfl
  parts n := by
    have hcomment : ∀ m : Node, (m.move o k).isComment = m.isComment := by
      intro m
      cases m
      rfl
    have hchildren : (n.move o k).children = n.children.map (Node.move o k) := by
      rw [← moveAll_eq_map]
      cases n
      rfl
    rw [Node.parts, Node.parts, hchildren, List.filter_map]
    simp only [Function.comp_def, hcomment]

lemma keeps_bare : Keeps Node.bare id where
  kind n := by cases n; rfl
  isNamed n := by cases n; rfl
  isMissing n := by cases n; rfl
  hasError n := by cases n; rfl
  span n := by cases n; rfl
  parts n := by
    have hcomment : ∀ m : Node, m.bare.isComment = m.isComment := by
      intro m
      cases m
      rfl
    have hchildren : n.bare.children = n.parts.map Node.bare := by
      rw [Node.parts, ← bareAll_eq_map]
      cases n
      rfl
    rw [Node.parts, hchildren, List.filter_map]
    simp only [Function.comp_def, hcomment, Node.parts, List.filter_filter, Bool.and_self]

namespace Keeps

variable {f : Node → Node} {g : Span → Span}

lemma place (h : Keeps f g) (n : Node) : (f n).place = n.place.map g :=
  congrArg Place.node (h.span n)

lemma front (h : Keeps f g) (n : Node) : (f n).front = n.front.map g :=
  congrArg Edge.front (h.span n)

lemma back (h : Keeps f g) (n : Node) : (f n).back = n.back.map g :=
  congrArg Edge.back (h.span n)

lemma endsEntry (h : Keeps f g) (n : Node) : endsEntry (f n) = endsEntry n := by
  rw [Source.endsEntry, Source.endsEntry, h.kind]

lemma entryEnd (h : Keeps f g) (n : Node) (following : List Node) :
    entryEnd (f n) (following.map f) = (entryEnd n following).map g := by
  simp only [Source.entryEnd, List.find?_map, Function.comp_def, h.endsEntry, h.back]
  cases following.find? Source.endsEntry with
  | none => rfl
  | some m => exact h.front m

lemma equals? (h : Keeps f g) (following : List Node) :
    equals? (following.map f) = (equals? following).map f := by
  simp only [Source.equals?, List.takeWhile_map, List.find?_map, Function.comp_def, h.endsEntry, h.kind]

lemma value? (h : Keeps f g) (following : List Node) :
    value? (following.map f) = (value? following).map f := by
  simp only [Source.value?, List.takeWhile_map, List.find?_map, Function.comp_def, h.endsEntry, h.kind,
    h.isNamed]

lemma typeEnd (h : Keeps f g) (n : Node) (following : List Node) :
    typeEnd (f n) (following.map f) = (typeEnd n following).map g := by
  rw [Source.typeEnd, Source.typeEnd, h.equals?, h.value?, h.entryEnd]
  cases Source.equals? following with
  | some m => exact h.front m
  | none =>
    cases Source.value? following with
    | some m => exact h.front m
    | none => rfl

lemma defaultStart? (h : Keeps f g) (following : List Node) :
    defaultStart? (following.map f) = (defaultStart? following).map (Edge.map g) := by
  rw [Source.defaultStart?, Source.defaultStart?, h.equals?, h.value?]
  cases Source.equals? following with
  | some m => exact congrArg some (h.back m)
  | none =>
    cases Source.value? following with
    | some m => exact congrArg some (h.front m)
    | none => rfl

lemma labelAndName?_map {α β : Type} (f : α → β) (l : List α) :
    labelAndName? (l.map f) = (labelAndName? l).map fun (label, name) => (label.map f, f name) := by
  match l with
  | [] => rfl
  | [_] => rfl
  | [_, _] => rfl
  | _ :: _ :: _ :: _ => rfl

lemma parameterLayout? (h : Keeps f g) (n : Node) (following : List Node) :
    parameterLayout? (f n) (following.map f) =
      (parameterLayout? n following).map (ParameterParts.map (Place.map g)) := by
  have hparts : ∀ label name colon,
      parameterParts (f n) (following.map f) (Option.map f label) (f name) (f colon) =
        (parameterParts n following label name colon).map (Place.map g) := by
    intro label name colon
    simp only [parameterParts, ParameterParts.map, Place.map, Option.map_map, Function.comp_def, h.place,
      h.back, h.typeEnd, h.entryEnd, h.defaultStart?, List.map_nil]
  simp only [Source.parameterLayout?, h.parts, List.find?_map, List.takeWhile_map, Function.comp_def,
    h.kind, labelAndName?_map]
  cases n.parts.find? fun p => p.kind == ":" with
  | none => rfl
  | some colon =>
    cases labelAndName? (n.parts.takeWhile fun p => p.kind != ":") with
    | none => rfl
    | some words => exact congrArg some (hparts words.1 words.2 colon)

lemma parameterLayouts? (h : Keeps f g) (ns : List Node) :
    parameterLayouts? (ns.map f) =
      (parameterLayouts? ns).map (List.map (ParameterParts.map (Place.map g))) := by
  induction ns with
  | nil => rfl
  | cons n rest ih =>
    simp only [List.map_cons, Source.parameterLayouts?, h.kind, h.parameterLayout?, ih]
    split
    · rfl
    · split
      · cases Source.parameterLayout? n rest with
        | none => rfl
        | some ps => cases Source.parameterLayouts? rest <;> rfl
      · rfl

lemma modifiersIn (h : Keeps f g) (lead : List Node) :
    modifiersIn (lead.map f) = (modifiersIn lead).map f := by
  have hnodes : modifierNodes (lead.map f) = (modifierNodes lead).map f := by
    simp only [modifierNodes, List.flatMap_map, List.map_flatMap, h.kind, h.parts]
    refine List.flatMap_congr fun n _ => ?_
    split <;> rfl
  simp only [Source.modifiersIn, hnodes, List.filter_map, Function.comp_def, h.kind]

lemma nodesOf (h : Keeps f g) (kind : String) (ns : List Node) :
    nodesOf kind (ns.map f) = (nodesOf kind ns).map f := by
  simp only [Source.nodesOf, List.filter_map, Function.comp_def, h.kind]

lemma effectsPlace (h : Keeps f g) (n close : Node) (rest : List Node) :
    effectsPlace (f n) (f close) (rest.map f) = (effectsPlace n close rest).map g := by
  simp only [Source.effectsPlace, Place.map, List.filter_map, List.map_map, Function.comp_def, h.kind,
    h.back, h.front]

/-- The layout of a header changes as the nodes do. -/
lemma layout? (h : Keeps f g) (n : Node) :
    layout? (f n) = (layout? n).map (HeaderParts.map (Place.map g)) := by
  have hheader : ∀ name rest parameters close,
      headerParts (f n) (f name) (rest.map f) (parameters.map (ParameterParts.map (Place.map g)))
          (f close) =
        (headerParts n name rest parameters close).map (Place.map g) := by
    intro name rest parameters close
    simp only [headerParts, HeaderParts.map, List.map_map, Function.comp_def, h.place, h.parts, h.kind,
      h.modifiersIn, h.nodesOf, h.effectsPlace, List.takeWhile_map]
  simp only [Source.layout?, h.parts, List.any_map, List.dropWhile_map, Function.comp_def, h.kind,
    h.hasError, h.isMissing]
  split
  · rfl
  · cases n.parts.dropWhile fun p => p.kind != "func" with
    | nil => rfl
    | cons func tail =>
      cases tail with
      | nil => rfl
      | cons name rest =>
        simp only [List.map_cons, h.parameterLayouts?, List.find?_map, Function.comp_def, h.kind]
        cases Source.parameterLayouts? rest with
        | none => rfl
        | some parameters =>
          cases rest.find? fun p => p.kind == ")" with
          | none => rfl
          | some close => exact congrArg some (hheader name rest parameters close)

end Keeps

lemma Place.map_id : Place.map id = id := by
  have hedge : Edge.map id = id := by
    funext e
    cases e <;> rfl
  funext p
  cases p with
  | node s => rfl
  | gap left right others => simp only [map, hedge, List.map_id, id]

/-- The layout of a header does not depend on the comments in it. -/
lemma layout?_bare (n : Node) : layout? n.bare = layout? n := by
  have hid : HeaderParts.map (id : Place → Place) = id := funext HeaderParts.map_id
  rw [keeps_bare.layout?, Place.map_id, hid, Option.map_id, id]

/-- The tree `n'` is the tree `n` after a comment of `k` bytes has been put in at `o`: but for
comments, the nodes are the same, and what is behind the offset has moved. -/
def Commented (o k : Nat) (n n' : Node) : Prop :=
  n'.bare = n.bare.move o k

/-- The layout of a header moves when a comment is put in. -/
lemma Commented.layout? {n n' : Node} (h : Commented o k n n') :
    layout? n' = (layout? n).map (HeaderParts.map (Place.map (Span.move o k))) := by
  rw [← layout?_bare n', h, (keeps_move o k).layout?, layout?_bare]

lemma Commented.kind {n n' : Node} (h : Commented o k n n') : n'.kind = n.kind := by
  rw [← keeps_bare.kind n', h, (keeps_move o k).kind, keeps_bare.kind]

end Source

end AsyncPeer
