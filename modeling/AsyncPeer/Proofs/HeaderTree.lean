/-
# Headers of peers and their trees

The header of a peer is written by putting texts side by side.  A parser hands it back as the tree of
a function whose nodes stand on these texts.  This file says where: `Node.Covers` is the place of one
node, `IsEntry` and `IsClause` are the nodes of the parameter clause, and `ShowsHeader` is the whole
header.

The grammar leaves two things open, and so do the conditions here.  The modifiers may stand side by
side or together below one node, and the sign `=` in front of a default value has a node of its own or
has none.
-/
import AsyncPeer.Peer
import AsyncPeer.Proofs.Placement
import AsyncPeer.Source.Header

namespace AsyncPeer

namespace Parameter

/-- The words in front of the colon. -/
def words (p : Parameter) : List Text :=
  p.label.toList ++ [p.name]

/-- The parameter up to the end of its type. -/
def typed (p : Parameter) : Text :=
  Text.join [' '] p.words ++ ": ".toList ++ p.type

end Parameter

/-! ### What a peer is made of -/

lemma bind_eq_ok {α β : Type} {x : Except Refusal α} {f : α → Except Refusal β} {b : β}
    (h : (x >>= f) = .ok b) : ∃ a, x = .ok a ∧ f a = .ok b := by
  cases x with
  | error r => simp [bind, Except.bind] at h
  | ok a => exact ⟨a, rfl, h⟩

lemma Declaration.eligible_eq_ok {d : Declaration} {s : Signature} {completion : Parameter}
    (h : d.eligible = .ok (s, completion)) :
    d = .function s ∧ s.completion? = some completion ∧ completion.isCallback = true := by
  cases d with
  | other introducer => simp [eligible] at h
  | function s' =>
    rw [eligible] at h
    split at h
    · next q hq =>
      split at h
      · next hcallback =>
        obtain ⟨rfl, rfl⟩ : s' = s ∧ q = completion := by simpa using h
        exact ⟨rfl, hq, hcallback⟩
      · simp at h
    · simp at h

lemma Forwarding.ofParameters_eq_ok {w : WildcardStyle} {ps : List Parameter} {f : Forwarding}
    (h : ofParameters w ps = .ok f) : f = forms w ps ∧ ∀ q ∈ ps, q.obstacle? = none := by
  rw [ofParameters] at h
  split at h
  · simp at h
  · next hnone =>
    refine ⟨by simpa using h.symm, ?_⟩
    exact List.findSome?_eq_none_iff.1 hnone

/-- What is known of a peer: where its parts come from, and which conditions were met. -/
theorem Peer.of_eq_ok {d : Declaration} {w : Suspension} {style : Style} {p : Peer}
    (h : Peer.of d w style = .ok p) :
    ∃ s completion, d = .function s ∧ s.completion? = some completion ∧
      completion.isCallback = true ∧ Delivery.ofType completion.type w = .ok p.delivery ∧
      s.effectFree = .ok () ∧ (∀ q ∈ s.passedOn, q.obstacle? = none) ∧
      p = {
        name := s.name
        modifiers := s.keptModifiers style.keepsModifiers
        generics := s.generics
        clause := (Forwarding.forms style.wildcard s.passedOn).clause
        delivery := p.delivery
        requirements := s.requirements
        suspension := w
        body := Body.lines s p.delivery w
          (Forwarding.forms style.wildcard s.passedOn).arguments style } := by
  obtain ⟨⟨s, completion⟩, heligible, h⟩ := bind_eq_ok h
  obtain ⟨delivery, hdelivery, h⟩ := bind_eq_ok h
  obtain ⟨⟨⟩, heffects, h⟩ := bind_eq_ok h
  obtain ⟨forwarding, hforwarding, h⟩ := bind_eq_ok h
  obtain ⟨hd, hcompletion, hcallback⟩ := Declaration.eligible_eq_ok heligible
  obtain ⟨rfl, hfree⟩ := Forwarding.ofParameters_eq_ok hforwarding
  cases h
  exact ⟨s, completion, hd, hcompletion, hcallback, hdelivery, heffects, hfree, rfl⟩

/-! ### The parts of a header -/

namespace Peer

/-- The header in front of the name. -/
def upToName (p : Peer) : Text :=
  p.modifiers.flatMap (· ++ [' ']) ++ "func ".toList

/-- The header up to the opening parenthesis of the parameter clause. -/
def upToClause (p : Peer) : Text :=
  p.upToName ++ p.name ++ p.generics.getD [] ++ ['(']

/-- The header up to the closing parenthesis of the parameter clause. -/
def upToEffects (p : Peer) : Text :=
  p.upToClause ++ p.clause ++ [')']

/-- The words for the effects, with a space in front of each. -/
def effectWords (throws : Bool) : Text :=
  " async".toList ++ if throws then " throws".toList else []

/-- The effects and the result type. -/
def effects (p : Peer) : Text :=
  effectWords p.throws ++ (p.result?.map fun t => " -> ".toList ++ t).getD []

/-- The header up to its requirements, with the space in front of them. -/
def upToRequirements (p : Peer) : Text :=
  p.upToEffects ++ p.effects ++ [' ']

/-- The header as a source of its own, with an empty body. -/
def stub (p : Peer) : Text :=
  p.header ++ " \x7b\x7d".toList

lemma header_eq (p : Peer) :
    p.header = p.upToEffects ++ p.effects ++
      (p.requirements.map fun t => " where ".toList ++ t).getD [] := by
  have hasync : ") async".toList = ')' :: " async".toList := rfl
  unfold header upToEffects upToClause upToName effects effectWords
  rw [hasync]
  -- the fixed words are only regrouped
  generalize " async".toList = a, " throws".toList = b, "func ".toList = c
  cases p.result? <;> cases p.requirements <;> simp

end Peer

namespace Source

/-! ### The parameter clause -/

/-- The node stands on the text `t`, directly behind the text `before`. -/
def Node.Covers (n : Node) (before t : Text) : Prop :=
  n.start = before.byteSize ∧ n.stop = (before ++ t).byteSize

instance (n : Node) (before t : Text) : Decidable (n.Covers before t) :=
  inferInstanceAs (Decidable (_ ∧ _))

/-- The nodes stand on the words, which have one space between neighbours. -/
def CoverWords : (before : Text) → List Text → List Node → Prop
  | _, [], [] => True
  | before, w :: ws, n :: ns => n.Covers before w ∧ CoverWords (before ++ w ++ [' ']) ws ns
  | _, _, _ => False

/-- The kinds of nodes that mean something of their own in a header. -/
def headerKinds : List String :=
  [",", ")", "parameter", "type_parameters", "type_constraints", "function_body"]

/-- The nodes behind a parameter show its default value.  `before` is the text up to the end of its
type. -/
inductive ShowsDefault (before : Text) : Option Text → List Node → Prop
  /-- There is no default value. -/
  | absent : ShowsDefault before none []
  /-- The sign `=` has a node. -/
  | signed {v : Text} {equals : Node} {more : List Node} (kind : equals.kind = "=")
      (covers : equals.Covers (before ++ [' ']) ['=']) :
      ShowsDefault before (some v) (equals :: more)
  /-- The sign `=` has no node, and the value begins behind it. -/
  | bare {v : Text} {value : Node} {more : List Node} (named : value.isNamed = true)
      (kind : value.kind ≠ "attribute") (start : value.start = (before ++ " = ".toList).byteSize)
      (unsigned : ∀ n ∈ value :: more, n.kind ≠ "=") :
      ShowsDefault before (some v) (value :: more)

/-- The node and the nodes behind it are the entry of a parameter. -/
structure IsEntry (before : Text) (p : Parameter) (n : Node) (values : List Node) : Prop where
  kind : n.kind = "parameter"
  parts : ∃ names colon types, n.parts = names ++ colon :: types ∧
    (∀ m ∈ names, m.kind ≠ ":") ∧ CoverWords before p.words names ∧
    colon.kind = ":" ∧ colon.Covers (before ++ Text.join [' '] p.words) [':']
  value : ShowsDefault (before ++ p.typed) p.defaultValue values
  plain : ∀ m ∈ values, m.kind ∉ headerKinds

/-- The nodes are the entries of a parameter clause with the commas between them. -/
inductive IsClause : (before : Text) → List Parameter → List Node → Prop
  | nil {before : Text} : IsClause before [] []
  | last {before : Text} {p : Parameter} {n : Node} {values : List Node}
      (entry : IsEntry before p n values) : IsClause before [p] (n :: values)
  | more {before : Text} {p q : Parameter} {ps : List Parameter} {n comma : Node}
      {values nodes : List Node} (entry : IsEntry before p n values) (kind : comma.kind = ",")
      (covers : comma.Covers (before ++ p.declared) [','])
      (rest : IsClause (before ++ p.declared ++ ", ".toList) (q :: ps) nodes) :
      IsClause before (p :: q :: ps) (n :: values ++ comma :: nodes)

/-! ### The header -/

/-- The nodes of the modifiers, also of those below a node of their own. -/
def modifierNodes (lead : List Node) : List Node :=
  lead.flatMap fun n => if n.kind == "modifiers" then n.parts else [n]

/-- The nodes below a function. -/
structure HeaderNodes where
  /-- What stands in front of `func`. -/
  lead : List Node
  /-- The word `func`. -/
  func : Node
  /-- The name. -/
  name : Node
  /-- The generic parameter clause. -/
  generics : Option Node
  /-- The parenthesis in front of the parameters. -/
  opening : Node
  /-- The parameters and what is between them. -/
  clause : List Node
  /-- The parenthesis behind the parameters. -/
  closing : Node
  /-- The effects and the result type. -/
  effects : List Node
  /-- The where clause. -/
  requirements : Option Node
  /-- The body. -/
  body : Node

namespace HeaderNodes

/-- The nodes behind the parameter clause. -/
def tail (h : HeaderNodes) : List Node :=
  h.effects ++ (h.requirements.toList ++ [h.body])

/-- The nodes behind the name. -/
def rest (h : HeaderNodes) : List Node :=
  h.generics.toList ++ h.opening :: (h.clause ++ h.closing :: h.tail)

/-- All nodes in order. -/
def all (h : HeaderNodes) : List Node :=
  h.lead ++ h.func :: h.name :: h.rest

/-- The nodes stand on the parts of the header of a peer with the given parameters. -/
structure Show (h : HeaderNodes) (p : Peer) (ps : List Parameter) : Prop where
  lead : ∀ n ∈ h.lead, n.kind ≠ "func"
  modifiers : CoverWords [] p.modifiers (modifierNodes h.lead)
  unmarked : ∀ n ∈ modifierNodes h.lead, n.kind ≠ "attribute"
  func : h.func.kind = "func"
  name : h.name.Covers p.upToName p.name
  generics : Option.Rel (fun n t => n.kind = "type_parameters" ∧ n.Covers (p.upToName ++ p.name) t)
    h.generics p.generics
  opening : h.opening.kind = "("
  clause : IsClause p.upToClause ps h.clause
  closing : h.closing.kind = ")" ∧ h.closing.Covers (p.upToClause ++ p.clause) [')']
  effects : ∀ n ∈ h.effects, n.kind ∉ ["type_constraints", "function_body"]
  requirements : Option.Rel (fun n t => n.kind = "type_constraints" ∧
    n.Covers p.upToRequirements ("where ".toList ++ t)) h.requirements p.requirements
  body : h.body.kind = "function_body" ∧ h.body.start = (p.header ++ [' ']).byteSize

end HeaderNodes

/-- The tree is that of a function with the header of a peer, whose parameters are given, and an empty
body. -/
structure ShowsHeader (p : Peer) (ps : List Parameter) (tree : Node) (h : HeaderNodes) : Prop where
  kind : tree.kind = "function_declaration"
  stop : tree.stop = p.stub.byteSize
  parts : tree.parts = h.all
  sound : ∀ n ∈ tree.parts, n.kind ≠ "function_body" → n.hasError = false ∧ n.isMissing = false
  nodes : h.Show p ps

end Source

end AsyncPeer
