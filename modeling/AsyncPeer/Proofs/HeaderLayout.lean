/-
# The layout of a header

A function is read in two steps that the program takes together.  The nodes alone decide from which
places of the source its parts are taken, and then the texts at these places are put into a
signature.  This file separates the steps: `layout?` finds the places, `HeaderParts.signature` puts
the texts together, and `readFunction_eq_ok_iff` says that reading is one after the other.

A place is not a pair of offsets only.  It remembers which edges of which nodes its ends are,
because these decide on which side of an end something stands that is put into the source exactly
there.
-/
import Mathlib.Data.List.Basic
import AsyncPeer.Proofs.HeaderTree

namespace AsyncPeer.Source

/-! ### Places -/

/-- The offsets of a node. -/
structure Span where
  start : Nat
  stop : Nat
deriving DecidableEq, Repr

/-- The offsets of a node. -/
def Node.span (n : Node) : Span :=
  ⟨n.start, n.stop⟩

/-- One of the two ends of a node. -/
inductive Edge where
  | front (node : Span)
  | back (node : Span)
deriving DecidableEq, Repr

namespace Edge

/-- Where the edge is. -/
def offset : Edge → Nat
  | front s => s.start
  | back s => s.stop

/-- The edge of another node. -/
def map (f : Span → Span) : Edge → Edge
  | front s => front (f s)
  | back s => back (f s)

end Edge

/-- The beginning of a node. -/
def Node.front (n : Node) : Edge :=
  .front n.span

/-- The end of a node. -/
def Node.back (n : Node) : Edge :=
  .back n.span

/-- A place of a source from which a text is taken. -/
inductive Place where
  /-- A node. -/
  | node (node : Span)
  /-- What is between an edge and the nearest of other edges. -/
  | gap (left right : Edge) (others : List Edge)
deriving DecidableEq, Repr

/-- The place of a node. -/
def Node.place (n : Node) : Place :=
  .node n.span

namespace Place

/-- Where the place begins. -/
def start : Place → Nat
  | node s => s.start
  | gap left _ _ => left.offset

/-- Where the place ends.  A gap whose right end comes first is empty. -/
def stop : Place → Nat
  | node s => s.stop
  | gap left right others => max ((others.map Edge.offset).foldl min right.offset) left.offset

/-- The text at the place. -/
def cut? (source : Text) (p : Place) : Option Text :=
  source.slice? p.start p.stop

/-- The text at the place, which is empty if the source has no such place. -/
def text (source : Text) (p : Place) : Text :=
  (p.cut? source).getD []

/-- The place between other nodes. -/
def map (f : Span → Span) : Place → Place
  | node s => node (f s)
  | gap left right others => gap (left.map f) (right.map f) (others.map (Edge.map f))

lemma cut?_eq_some_iff {source t : Text} {p : Place} :
    p.cut? source = some t ↔ (p.cut? source).isSome ∧ p.text source = t := by
  rw [text]
  cases p.cut? source <;> simp

end Place

/-! ### The parts of a header -/

/-- The parts of one parameter. -/
structure ParameterParts (α : Type) where
  label : Option α
  name : α
  type : α
  defaultValue : Option α

/-- The parts of the header of a function. -/
structure HeaderParts (α : Type) where
  name : α
  modifiers : List α
  /-- The generic clauses, of which the last one counts. -/
  generics : List α
  parameters : List (ParameterParts α)
  /-- The where clauses, of which the last one counts. -/
  requirements : List α
  /-- What is between the parameters and the requirements: the effects and the result. -/
  effects : α

namespace ParameterParts

/-- The same parts, each in another form. -/
def map {α β : Type} (f : α → β) (ps : ParameterParts α) : ParameterParts β where
  label := ps.label.map f
  name := f ps.name
  type := f ps.type
  defaultValue := ps.defaultValue.map f

/-- The parts in a row. -/
def toList {α : Type} (ps : ParameterParts α) : List α :=
  ps.label.toList ++ ps.name :: ps.type :: ps.defaultValue.toList

lemma toList_map {α β : Type} (f : α → β) (ps : ParameterParts α) :
    (ps.map f).toList = ps.toList.map f := by
  simp only [map, toList, Option.toList_map, List.map_append, List.map_cons]

lemma map_id {α : Type} (ps : ParameterParts α) : ps.map id = ps := by
  simp only [map, Option.map_id, id]

lemma map_congr {α β : Type} {f g : α → β} {ps : ParameterParts α}
    (h : ∀ p ∈ ps.toList, f p = g p) : ps.map f = ps.map g := by
  simp only [toList, List.forall_mem_append, List.forall_mem_cons, Option.mem_toList] at h
  obtain ⟨hlabel, hname, htype, hvalue⟩ := h
  simp only [map, hname, htype, Option.map_congr hlabel, Option.map_congr hvalue]

/-- The parameter with the given texts. -/
def parameter (ps : ParameterParts Text) : Parameter where
  label := ps.label
  name := ps.name
  type := (ps.type.trim.dropEndWhile (· == '=')).squeeze
  defaultValue := (ps.defaultValue.map Text.trim).filter fun t => !t.isEmpty

end ParameterParts

namespace HeaderParts

/-- The same parts, each in another form. -/
def map {α β : Type} (f : α → β) (h : HeaderParts α) : HeaderParts β where
  name := f h.name
  modifiers := h.modifiers.map f
  generics := h.generics.map f
  parameters := h.parameters.map (ParameterParts.map f)
  requirements := h.requirements.map f
  effects := f h.effects

/-- The parts that are copied into a signature.  The effects are only searched, and of several clauses
only the last one is copied. -/
def copied {α : Type} (h : HeaderParts α) : List α :=
  h.name :: (h.modifiers ++ (h.generics.getLast?.toList ++
    (h.parameters.flatMap ParameterParts.toList ++ h.requirements.getLast?.toList)))

/-- All parts, which are cut out of the source whether they are copied or not. -/
def cut {α : Type} (h : HeaderParts α) : List α :=
  h.effects :: h.name :: (h.modifiers ++ (h.generics ++
    (h.parameters.flatMap ParameterParts.toList ++ h.requirements)))

lemma cut_map {α β : Type} (f : α → β) (h : HeaderParts α) : (h.map f).cut = h.cut.map f := by
  simp only [map, cut, List.map_append, List.map_cons, List.flatMap_map, List.map_flatMap,
    ParameterParts.toList_map]

lemma effects_mem_cut {α : Type} (h : HeaderParts α) : h.effects ∈ h.cut :=
  List.mem_cons_self

lemma mem_cut_of_mem_copied {α : Type} {h : HeaderParts α} {a : α} (ha : a ∈ h.copied) : a ∈ h.cut := by
  simp only [copied, List.mem_cons, List.mem_append, Option.mem_toList] at ha
  simp only [cut, List.mem_cons, List.mem_append]
  exact Or.inr (ha.imp_right (Or.imp_right (Or.imp List.mem_of_getLast?
    (Or.imp_right List.mem_of_getLast?))))

lemma map_id {α : Type} (h : HeaderParts α) : h.map id = h := by
  have hparameters : ParameterParts.map (id : α → α) = id := funext ParameterParts.map_id
  simp only [map, hparameters, List.map_id, id]

lemma map_map {α β γ : Type} (f : α → β) (g : β → γ) (h : HeaderParts α) :
    (h.map f).map g = h.map (g ∘ f) := by
  simp only [map, ParameterParts.map, List.map_map, Option.map_map, Function.comp_def]
  rfl

/-- The signature of a function with the given texts. -/
def signature (h : HeaderParts Text) (isMember : Bool) : Signature where
  name := h.name
  modifiers := h.modifiers.flatMap Text.words
  generics := h.generics.getLast?.map Text.squeeze
  parameters := h.parameters.map ParameterParts.parameter
  isAsync := (readEffects h.effects).1
  throws := (readEffects h.effects).2.1
  result := (readEffects h.effects).2.2
  requirements := h.requirements.getLast?.map readRequirements
  isMember := isMember

end HeaderParts

/-! ### Where the parts are -/

/-- One or two things, as a label, which may be left out, and a name. -/
def labelAndName? {α : Type} : List α → Option (Option α × α)
  | [name] => some (none, name)
  | [label, name] => some (some label, name)
  | _ => none

/-- The end of the entry of a parameter. -/
def entryEnd (n : Node) (following : List Node) : Edge :=
  ((following.find? endsEntry).map Node.front).getD n.back

/-- The sign `=` in the entry of a parameter. -/
def equals? (following : List Node) : Option Node :=
  (following.takeWhile fun p => !endsEntry p).find? fun p => p.kind == "="

/-- The first node of the default value in the entry of a parameter. -/
def value? (following : List Node) : Option Node :=
  (following.takeWhile fun p => !endsEntry p).find? fun p => p.isNamed && p.kind != "attribute"

/-- The end of the type of a parameter. -/
def typeEnd (n : Node) (following : List Node) : Edge :=
  (((equals? following).map Node.front).or ((value? following).map Node.front)).getD
    (entryEnd n following)

/-- The beginning of the default value of a parameter. -/
def defaultStart? (following : List Node) : Option Edge :=
  ((equals? following).map Node.back).or ((value? following).map Node.front)

/-- Where the parts of a parameter are, given its words and its colon. -/
def parameterParts (n : Node) (following : List Node) (label : Option Node) (name colon : Node) :
    ParameterParts Place where
  label := label.map Node.place
  name := name.place
  type := .gap colon.back (typeEnd n following) []
  defaultValue := (defaultStart? following).map fun e => .gap e (entryEnd n following) []

/-- Where the parts of the parameter at a node are, whose default value is among the nodes that
follow. -/
def parameterLayout? (n : Node) (following : List Node) : Option (ParameterParts Place) :=
  (n.parts.find? fun p => p.kind == ":").bind fun colon =>
    (labelAndName? (n.parts.takeWhile fun p => p.kind != ":")).map fun (label, name) =>
      parameterParts n following label name colon

/-- Where the parts of the parameters are, among the nodes up to the closing parenthesis. -/
def parameterLayouts? : List Node → Option (List (ParameterParts Place))
  | [] => some []
  | n :: rest =>
    if n.kind == ")" then some []
    else if n.kind == "parameter" then do
      let ps ← parameterLayout? n rest
      return ps :: (← parameterLayouts? rest)
    else parameterLayouts? rest

/-- The nodes of the modifiers, among those in front of `func`. -/
def modifiersIn (lead : List Node) : List Node :=
  (modifierNodes lead).filter fun p => p.kind != "attribute"

/-- The nodes of the given kind. -/
def nodesOf (kind : String) (ns : List Node) : List Node :=
  ns.filter fun p => p.kind == kind

/-- Where the effects and the result are, behind the closing parenthesis. -/
def effectsPlace (n close : Node) (rest : List Node) : Place :=
  .gap close.back n.back ((rest.filter fun p =>
    p.kind == "type_constraints" || p.kind == "function_body").map Node.front)

/-- Where the parts of a header are, given its name, the nodes behind it, the parts of the
parameters and the closing parenthesis. -/
def headerParts (n name : Node) (rest : List Node) (parameters : List (ParameterParts Place))
    (close : Node) : HeaderParts Place where
  name := name.place
  modifiers := (modifiersIn (n.parts.takeWhile fun p => p.kind != "func")).map Node.place
  generics := (nodesOf "type_parameters" (rest.takeWhile fun p => p.kind != ")")).map Node.place
  parameters := parameters
  requirements := (nodesOf "type_constraints" rest).map Node.place
  effects := effectsPlace n close rest

/-- Where the parts of the header of the function at a node are. -/
def layout? (n : Node) : Option (HeaderParts Place) :=
  if n.parts.any fun p => p.kind != "function_body" && (p.hasError || p.isMissing) then none
  else
    match n.parts.dropWhile fun p => p.kind != "func" with
    | _ :: name :: rest =>
      (parameterLayouts? rest).bind fun parameters =>
        (rest.find? fun p => p.kind == ")").map (headerParts n name rest parameters)
    | _ => none

/-! ### Reading is cutting at the places -/

section Reading

variable {source : Text}

lemma slice_eq_ok_iff {o p : Nat} {t : Text} :
    slice source o p = .ok t ↔ source.slice? o p = some t := by
  rw [slice]
  cases source.slice? o p <;> simp

lemma slice_gap_eq_ok_iff {left right : Edge} {t : Text} :
    slice source left.offset (max right.offset left.offset) = .ok t ↔
      ((Place.gap left right []).cut? source).isSome ∧ (Place.gap left right []).text source = t := by
  rw [← Place.cut?_eq_some_iff]
  exact slice_eq_ok_iff

lemma text_eq_ok_iff {n : Node} {t : Text} :
    n.text source = .ok t ↔ (n.place.cut? source).isSome ∧ n.place.text source = t := by
  rw [← Place.cut?_eq_some_iff]
  exact slice_eq_ok_iff

lemma bind_eq_ok_iff {α β : Type} {x : Except Refusal α} {f : α → Except Refusal β} {b : β} :
    (x >>= f) = .ok b ↔ ∃ a, x = .ok a ∧ f a = .ok b := by
  constructor
  · exact bind_eq_ok
  · rintro ⟨a, rfl, h⟩
    exact h

/-- A computation over a list succeeds exactly if it does at each element. -/
lemma mapM_eq_ok_iff {α β : Type} {f : α → Except Refusal β} {ok : α → Prop} {g : α → β}
    (hf : ∀ a b, f a = .ok b ↔ ok a ∧ g a = b) {l : List α} {r : List β} :
    l.mapM f = .ok r ↔ (∀ a ∈ l, ok a) ∧ l.map g = r := by
  induction l generalizing r with
  | nil => simp [pure, Except.pure]
  | cons a l ih =>
    simp only [List.mapM_cons, bind_eq_ok_iff, hf, ih, List.forall_mem_cons, List.map_cons]
    constructor
    · rintro ⟨b, ⟨hok, rfl⟩, bs, ⟨hoks, rfl⟩, h⟩
      cases h
      exact ⟨⟨hok, hoks⟩, rfl⟩
    · rintro ⟨⟨hok, hoks⟩, rfl⟩
      exact ⟨_, ⟨hok, rfl⟩, _, ⟨hoks, rfl⟩, rfl⟩

lemma option_mapM_eq_ok_iff {α β : Type} {f : α → Except Refusal β} {ok : α → Prop} {g : α → β}
    (hf : ∀ a b, f a = .ok b ↔ ok a ∧ g a = b) {o : Option α} {r : Option β} :
    o.mapM f = .ok r ↔ (∀ a ∈ o, ok a) ∧ o.map g = r := by
  cases o with
  | none => simp [pure, Except.pure]
  | some a =>
    have hmap : Option.mapM f (some a) = (f a >>= fun b => .ok (some b)) := by
      change some <$> f a = _
      cases f a <;> rfl
    simp only [hmap, bind_eq_ok_iff, hf, Option.mem_def, Option.some.injEq, forall_eq', Option.map_some]
    constructor
    · rintro ⟨b, ⟨hok, rfl⟩, h⟩
      cases h
      exact ⟨hok, rfl⟩
    · rintro ⟨hok, rfl⟩
      exact ⟨_, ⟨hok, rfl⟩, rfl⟩

lemma eq_of_labelAndName? {α : Type} {l : List α} {label : Option α} {name : α}
    (h : labelAndName? l = some (label, name)) : l = label.toList ++ [name] := by
  match l, h with
  | [_], rfl => rfl
  | [_, _], rfl => rfl

lemma parameterNames?_map (source : Text) (ns : List Node) :
    parameterNames? (ns.map fun n => n.place.text source) =
      (labelAndName? ns).map fun (label, name) =>
        (label.map fun n => n.place.text source, name.place.text source) := by
  match ns with
  | [] => rfl
  | [_] => rfl
  | [_, _] => rfl
  | _ :: _ :: _ :: _ => rfl

section Offsets

variable (n : Node) (following : List Node)

lemma offset_entryEnd : (entryEnd n following).offset =
    ((following.find? endsEntry).map Node.start).getD n.stop := by
  rw [entryEnd]
  cases following.find? endsEntry <;> rfl

lemma offset_typeEnd : (typeEnd n following).offset =
    (((equals? following).map Node.start).or ((value? following).map Node.start)).getD
      (((following.find? endsEntry).map Node.start).getD n.stop) := by
  rw [← offset_entryEnd, typeEnd]
  cases equals? following <;> cases value? following <;> rfl

lemma offset_defaultStart? : (defaultStart? following).map Edge.offset =
    ((equals? following).map Node.stop).or ((value? following).map Node.start) := by
  rw [defaultStart?]
  cases equals? following <;> cases value? following <;> rfl

end Offsets

lemma forall_mem_parameterParts {n : Node} {following : List Node} {label : Option Node}
    {name colon : Node} {ok : Place → Prop} :
    (∀ p ∈ (parameterParts n following label name colon).toList, ok p) ↔
      (∀ m ∈ label.toList ++ [name], ok m.place) ∧ ok (.gap colon.back (typeEnd n following) []) ∧
        ∀ e ∈ defaultStart? following, ok (.gap e (entryEnd n following) []) := by
  rw [parameterParts, ParameterParts.toList]
  cases label <;> cases defaultStart? following <;> simp [and_assoc]

/-- The default value is cut out behind its beginning. -/
lemma mapM_slice_eq_ok_iff {start : Option Edge} {right : Edge} {v : Option Text} :
    (start.map Edge.offset).mapM (fun o => slice source o (max right.offset o)) = .ok v ↔
      (∀ e ∈ start, ((Place.gap e right []).cut? source).isSome) ∧
        start.map (fun e => (Place.gap e right []).text source) = v := by
  rw [← option_mapM_eq_ok_iff fun e t => slice_gap_eq_ok_iff]
  cases start <;> rfl

/-- A parameter is read exactly if the source has the places of its parts. -/
lemma readParameter_eq_ok_iff {n : Node} {following : List Node} {q : Parameter} :
    readParameter source n following = .ok q ↔
      ∃ ps, parameterLayout? n following = some ps ∧ (∀ p ∈ ps.toList, (p.cut? source).isSome) ∧
        (ps.map (Place.text source)).parameter = q := by
  rw [readParameter, parameterLayout?]
  cases n.parts.find? fun p => p.kind == ":" with
  | none => simp
  | some colon =>
    have hback : colon.stop = colon.back.offset := rfl
    have hread := parameterNames?_map source (n.parts.takeWhile fun p => p.kind != ":")
    simp only [bind_eq_ok_iff, mapM_eq_ok_iff (fun _ _ => text_eq_ok_iff), Option.bind_some]
    rw [← equals?, ← value?, ← offset_typeEnd, ← offset_defaultStart?, ← offset_entryEnd, hback]
    simp only [slice_gap_eq_ok_iff]
    cases hnames : labelAndName? (n.parts.takeWhile fun p => p.kind != ":") with
    | none =>
      rw [hnames] at hread
      constructor
      · rintro ⟨_, ⟨-, rfl⟩, _, -, h⟩
        rw [hread] at h
        cases h
      · rintro ⟨ps, h, -⟩
        cases h
    | some words =>
      obtain ⟨label, name⟩ := words
      rw [hnames] at hread
      rw [eq_of_labelAndName? hnames] at hread ⊢
      constructor
      · rintro ⟨_, ⟨hlead, rfl⟩, _, ⟨htype, rfl⟩, h⟩
        rw [hread] at h
        obtain ⟨v, hv, h⟩ := bind_eq_ok h
        obtain ⟨hvalue, rfl⟩ := mapM_slice_eq_ok_iff.1 hv
        cases h
        refine ⟨_, rfl, forall_mem_parameterParts.2 ⟨hlead, htype, hvalue⟩, ?_⟩
        simp only [parameterParts, ParameterParts.map, ParameterParts.parameter, Option.map_map,
          Function.comp_def]
      · rintro ⟨ps, h, hoks, rfl⟩
        obtain rfl := Option.some.inj h
        obtain ⟨hlead, htype, hvalue⟩ := forall_mem_parameterParts.1 hoks
        refine ⟨_, ⟨hlead, rfl⟩, _, ⟨htype, rfl⟩, ?_⟩
        rw [hread]
        refine bind_eq_ok_iff.2 ⟨_, mapM_slice_eq_ok_iff.2 ⟨hvalue, rfl⟩, ?_⟩
        simp only [parameterParts, ParameterParts.map, ParameterParts.parameter, Option.map_map,
          Function.comp_def]
        rfl

/-- The parameters are read exactly if the source has the places of their parts. -/
lemma readParameters_eq_ok_iff {ns : List Node} {qs : List Parameter} :
    readParameters source ns = .ok qs ↔
      ∃ pss, parameterLayouts? ns = some pss ∧
        (∀ p ∈ pss.flatMap ParameterParts.toList, (p.cut? source).isSome) ∧
        pss.map (fun ps => (ps.map (Place.text source)).parameter) = qs := by
  induction ns generalizing qs with
  | nil => simp [readParameters, parameterLayouts?]
  | cons n rest ih =>
    rw [readParameters, parameterLayouts?]
    split
    · simp
    · split
      · simp only [bind_eq_ok_iff, readParameter_eq_ok_iff, ih]
        constructor
        · rintro ⟨q, ⟨ps, hps, hoks, rfl⟩, qs, ⟨pss, hpss, hokss, rfl⟩, h⟩
          cases h
          refine ⟨ps :: pss, by rw [hps, hpss]; rfl, ?_, rfl⟩
          rw [List.flatMap_cons]
          exact List.forall_mem_append.2 ⟨hoks, hokss⟩
        · rintro ⟨_, h, hoks, rfl⟩
          obtain ⟨ps, hps, h⟩ := Option.bind_eq_some_iff.1 h
          obtain ⟨pss, hpss, h⟩ := Option.bind_eq_some_iff.1 h
          cases h
          rw [List.flatMap_cons, List.forall_mem_append] at hoks
          exact ⟨_, ⟨ps, hps, hoks.1, rfl⟩, _, ⟨pss, hpss, hoks.2, rfl⟩, rfl⟩
      · exact ih

lemma modifiersIn_eq_flatMap (lead : List Node) :
    modifiersIn lead = lead.flatMap fun n => modifiersIn [n] := by
  simp only [modifiersIn, modifierNodes, List.filter_flatMap, List.flatMap_cons, List.flatMap_nil,
    List.append_nil]

/-- The modifiers at a node are read exactly if the source has the places of their nodes. -/
lemma readModifiers_eq_ok_iff {n : Node} {ws : List Text} :
    readModifiers source n = .ok ws ↔
      (∀ m ∈ modifiersIn [n], (m.place.cut? source).isSome) ∧
        (modifiersIn [n]).flatMap (fun m => (m.place.text source).words) = ws := by
  simp only [readModifiers, bind_eq_ok_iff, mapM_eq_ok_iff (fun _ _ => text_eq_ok_iff), modifiersIn,
    modifierNodes, List.flatMap_cons, List.flatMap_nil, List.append_nil]
  constructor
  · rintro ⟨_, ⟨hoks, rfl⟩, h⟩
    cases h
    exact ⟨hoks, (List.flatMap_map _ _ _).symm⟩
  · rintro ⟨hoks, rfl⟩
    exact ⟨_, ⟨hoks, rfl⟩, congrArg Except.ok (List.flatMap_map _ _ _)⟩

lemma slice_effects_eq_ok_iff {n close : Node} {rest : List Node} {t : Text} :
    slice source close.stop (max (headerStop n rest) close.stop) = .ok t ↔
      ((effectsPlace n close rest).cut? source).isSome ∧ (effectsPlace n close rest).text source = t := by
  rw [← Place.cut?_eq_some_iff, slice_eq_ok_iff, effectsPlace, Place.cut?, Place.start, Place.stop,
    List.map_map]
  exact Iff.rfl

lemma forall_mem_headerParts {n name close : Node} {rest : List Node}
    {pss : List (ParameterParts Place)} {ok : Place → Prop} :
    (∀ p ∈ (headerParts n name rest pss close).cut, ok p) ↔
      ok (effectsPlace n close rest) ∧ ok name.place ∧
        (∀ m ∈ n.parts.takeWhile (fun p => p.kind != "func"), ∀ m' ∈ modifiersIn [m], ok m'.place) ∧
        (∀ m ∈ nodesOf "type_parameters" (rest.takeWhile fun p => p.kind != ")"), ok m.place) ∧
        (∀ p ∈ pss.flatMap ParameterParts.toList, ok p) ∧
        ∀ m ∈ nodesOf "type_constraints" rest, ok m.place := by
  rw [headerParts, HeaderParts.cut, modifiersIn_eq_flatMap]
  simp only [List.forall_mem_cons, List.forall_mem_append, List.forall_mem_map, List.forall_mem_flatMap]

lemma signature_headerParts {n name close : Node} {rest : List Node} {pss : List (ParameterParts Place)}
    {isMember : Bool} :
    ((headerParts n name rest pss close).map (Place.text source)).signature isMember =
      { name := name.place.text source
        modifiers := ((n.parts.takeWhile fun p => p.kind != "func").map fun m =>
          (modifiersIn [m]).flatMap fun m' => (m'.place.text source).words).flatten
        generics := ((nodesOf "type_parameters" (rest.takeWhile fun p => p.kind != ")")).map
          fun m => m.place.text source).getLast?.map Text.squeeze
        parameters := pss.map fun ps => (ps.map (Place.text source)).parameter
        isAsync := (readEffects ((effectsPlace n close rest).text source)).1
        throws := (readEffects ((effectsPlace n close rest).text source)).2.1
        result := (readEffects ((effectsPlace n close rest).text source)).2.2
        requirements := ((nodesOf "type_constraints" rest).map
          fun m => m.place.text source).getLast?.map readRequirements
        isMember := isMember } := by
  rw [headerParts, modifiersIn_eq_flatMap]
  simp only [HeaderParts.map, HeaderParts.signature, List.flatMap_map, List.flatMap_assoc, List.map_map,
    Function.comp_def, ← List.flatMap_def]

/-- A function is read exactly if its node has a layout and the source has the places in it, and the
signature is made of the texts at these places. -/
lemma readFunction_eq_ok_iff {n : Node} {above : List Node} {s : Signature} :
    readFunction source n above = .ok s ↔
      ∃ h, layout? n = some h ∧ (∀ p ∈ h.cut, (p.cut? source).isSome) ∧
        (h.map (Place.text source)).signature (isMember above) = s := by
  rw [readFunction, layout?]
  by_cases hbad :
      (n.parts.any fun p => p.kind != "function_body" && (p.hasError || p.isMissing)) = true
  · simp [hbad, bind, Except.bind]
  rw [if_neg hbad, if_neg hbad]
  cases n.parts.dropWhile fun p => p.kind != "func" with
  | nil => simp
  | cons func tail =>
    cases tail with
    | nil => simp
    | cons name rest =>
      simp only [bind_eq_ok_iff, text_eq_ok_iff, readParameters_eq_ok_iff,
        mapM_eq_ok_iff (fun _ _ => readModifiers_eq_ok_iff), mapM_eq_ok_iff (fun _ _ => text_eq_ok_iff)]
      rw [← nodesOf, ← nodesOf]
      cases rest.find? fun p => p.kind == ")" with
      | none => simp
      | some close =>
        simp only [bind_eq_ok_iff, slice_effects_eq_ok_iff]
        constructor
        · rintro ⟨_, ⟨hname, rfl⟩, _, ⟨hmodifiers, rfl⟩, _, ⟨hgenerics, rfl⟩, _,
            ⟨pss, hpss, hparameters, rfl⟩, _, ⟨hrequirements, rfl⟩, _, ⟨heffects, rfl⟩, h⟩
          cases h
          refine ⟨headerParts n name rest pss close, by rw [hpss]; rfl, ?_, signature_headerParts⟩
          exact forall_mem_headerParts.2
            ⟨heffects, hname, hmodifiers, hgenerics, hparameters, hrequirements⟩
        · rintro ⟨_, h, hoks, rfl⟩
          obtain ⟨pss, hpss, h⟩ := Option.bind_eq_some_iff.1 h
          cases h
          obtain ⟨heffects, hname, hmodifiers, hgenerics, hparameters, hrequirements⟩ :=
            forall_mem_headerParts.1 hoks
          exact ⟨_, ⟨hname, rfl⟩, _, ⟨hmodifiers, rfl⟩, _, ⟨hgenerics, rfl⟩, _,
            ⟨pss, hpss, hparameters, rfl⟩, _, ⟨hrequirements, rfl⟩, _, ⟨heffects, rfl⟩,
            congrArg Except.ok signature_headerParts.symm⟩

end Reading

end AsyncPeer.Source
