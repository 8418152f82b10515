/-
# Names inside a body

A body binds names in three places: the closure in which it waits has a parameter, the completion
has one, and the label of an arm has a variable.  Around all of them are the parameters of the peer.
`Code.scopes` lists the lines of a body with the binders around each of them, and `resolve` finds
the binder that a name means, which is the innermost one of that name.  The wildcard `_` is never
bound and means nothing.

Accepted settings do not rule out every clash.  The file says exactly which are left:

* `arguments_denote_iff`: an argument of the call denotes a parameter of the peer if and only if it
  is a name other than `_` and other than that of the continuation;
* `resumeNames_resolve_iff`: the names in the calls that resume mean what they should if and only if
  none of the chosen names is `_` and, where a result is taken apart, the continuation is not named
  like the variable of an arm.
-/
import AsyncPeer.Proofs.SingleResume

namespace AsyncPeer

/-! ### Binders -/

/-- Something that binds a name. -/
inductive Binder where
  /-- A parameter of the peer. -/
  | parameter (name : Text)
  /-- The parameter of the closure that a line opens. -/
  | closure (opening : Line) (name : Text)
  /-- The variable in the pattern of a label. -/
  | pattern (label : Line) (name : Text)
deriving DecidableEq, Repr

/-- The name that is bound. -/
def Binder.name : Binder → Text
  | parameter name => name
  | closure _ name => name
  | pattern _ name => name

/-- The binder that a name means where the given binders are around it, the innermost first. -/
def resolve (scope : List Binder) (name : Text) : Option Binder :=
  if name = ['_'] then none else scope.find? fun b => b.name == name

@[simp] lemma resolve_wildcard (scope : List Binder) : resolve scope ['_'] = none :=
  if_pos rfl

lemma resolve_cons_self {name : Text} (h : name ≠ ['_']) {b : Binder} (hb : b.name = name)
    (scope : List Binder) : resolve (b :: scope) name = some b := by
  rw [resolve, if_neg h, List.find?_cons_of_pos (by simp [hb])]

lemma resolve_cons_of_ne {name : Text} {b : Binder} (hb : b.name ≠ name) (scope : List Binder) :
    resolve (b :: scope) name = resolve scope name := by
  rw [resolve, resolve, List.find?_cons_of_neg (by simpa using hb)]

/-- A binder is found through others exactly if its name is not the wildcard and not theirs. -/
lemma resolve_append_cons_iff {inner : List Binder} {b : Binder} (hb : b ∉ inner)
    (outer : List Binder) :
    resolve (inner ++ b :: outer) b.name = some b ↔
      b.name ≠ ['_'] ∧ ∀ a ∈ inner, a.name ≠ b.name := by
  by_cases hname : b.name = ['_']
  · simp [hname]
  induction inner with
  | nil => simp [hname, resolve_cons_self hname rfl]
  | cons a inner ih =>
    obtain ⟨hab, hb⟩ : b ≠ a ∧ b ∉ inner := by simpa using hb
    by_cases ha : a.name = b.name
    · -- the nearer binder of the same name is found instead
      rw [List.cons_append, resolve_cons_self hname ha]
      simp [ha, Ne.symm hab]
    · rw [List.cons_append, resolve_cons_of_ne ha, ih hb, List.forall_mem_cons]
      exact ⟨fun h => ⟨h.1, ha, h.2⟩, fun h => ⟨h.1, h.2.2⟩⟩

namespace Line

/-- The variable in the pattern of a label. -/
def boundName? (l : Line) : Option Text :=
  l.label?.bind fun pattern =>
    (pattern.cut? "let ".toList).map fun (_, t) => t.takeWhile Text.isWordChar

/-- What a line binds for the code behind it. -/
def binders (l : Line) : List Binder :=
  match l.role with
  | .opening _ (some parameter) => [.closure l parameter]
  | .label _ => l.boundName?.toList.map (.pattern l)
  | _ => []

end Line

mutual

/-- Each line with the binders around it, the innermost first.  A line that opens a block, and the
line that closes it, stand outside of what the block binds. -/
def Code.scopes (scope : List Binder) : Code → List (Line × List Binder)
  | .done => []
  | .line l rest => (l, scope) :: rest.scopes scope
  | .block opening inner closing rest =>
    (opening, scope) ::
      (inner.scopes (opening.binders ++ scope) ++ (closing, scope) :: rest.scopes scope)
  | .choice opening arms closing rest =>
    (opening, scope) :: (arms.scopes scope ++ (closing, scope) :: rest.scopes scope)

/-- Each line with the binders around it, the innermost first. -/
def Arms.scopes (scope : List Binder) : Arms → List (Line × List Binder)
  | .none => []
  | .arm label inner rest =>
    (label, scope) :: (inner.scopes (label.binders ++ scope) ++ rest.scopes scope)

end

/-! ### Accepted settings -/

/-- What accepted settings promise about the names. -/
lemma Settings.names_of_validate {settings : Settings} (h : settings.validate = .ok ()) :
    settings.style.IsNamed ∧ settings.style.value ≠ settings.style.continuation ∧
      settings.style.result ≠ settings.style.continuation := by
  rw [validate] at h
  split at h
  · cases h
  · next hnone =>
    split at h
    · cases h
    · next hclash =>
      simp only [names, List.find?_eq_none, List.forall_mem_cons, Bool.not_eq_true',
        Bool.not_eq_false] at hnone
      obtain ⟨hcontinuation, hvalue, hresult, -⟩ := hnone
      obtain ⟨hne, hne'⟩ := not_or.1 hclash
      exact ⟨⟨hcontinuation, hvalue, hresult⟩, hne, hne'⟩

/-- Nothing has to be chosen. -/
lemma Settings.validate_default : Settings.validate {} = .ok () := by
  decide +kernel

/-- The lines are read as code that waits in one block, and the one block in it is a completion that
is handed to the call. -/
structure Code.WaitsFor (code : Code) (lines : List Line) (w : Suspension) (call : Text)
    (waiting completion : Block) : Prop where
  read : Code.read? lines = some code
  outer : code.outerBlocks = [waiting]
  waits : waiting.head? = some (Body.waiting w)
  inner : waiting.inner.outerBlocks = [completion]
  calls : completion.head? = some call

/-! ### Names in the calls that resume -/

/-- The name means what the completion delivers: its parameter, or the variable of an arm. -/
def IsDelivered (completion : Line) (scope : List Binder) (name : Text) : Prop :=
  resolve scope name = some (.closure completion name) ∨
    ∃ label, resolve scope name = some (.pattern label name)

/-- On a line that resumes, the continuation is the parameter of the closure that `waiting` opens,
and what it resumes with is delivered; on a line that opens a choice, what is chosen by is
delivered. -/
def NamesMean (waiting completion l : Line) (scope : List Binder) : Prop :=
  (∀ r, l.resumption? = some r →
    resolve scope r.continuation = some (.closure waiting r.continuation) ∧
      IsDelivered completion scope r.argument) ∧
  ∀ subject, l.role = .choice subject → IsDelivered completion scope subject

/-- The names on all lines mean what they should, inside of the given binders. -/
def Code.NamesResolve (code : Code) (waiting completion : Line) (outer : List Binder) : Prop :=
  ∀ e ∈ code.scopes outer, NamesMean waiting completion e.1 e.2

/-- The names of a style are not `_`, and where a result is taken apart the continuation is not
named like the variable of an arm. -/
def Style.Referable (style : Style) : Delivery → Prop
  | .value _ => style.continuation ≠ ['_'] ∧ style.value ≠ ['_']
  | .result _ _ =>
    style.continuation ∉ [['_'], "value".toList, "error".toList] ∧ style.result ≠ ['_']

instance (style : Style) : (d : Delivery) → Decidable (style.Referable d)
  | .value _ => inferInstanceAs (Decidable (_ ∧ _))
  | .result _ _ => inferInstanceAs (Decidable (_ ∧ _))

section Means

variable {waiting completion l : Line} {scope : List Binder}

/-- A line that resumes ends in a closing parenthesis. -/
lemma Line.getLast?_of_resumption? {r : Resumption} (h : l.resumption? = some r) :
    l.text.getLast? = some ')' := by
  obtain ⟨⟨continuation, u⟩, hcall, h⟩ := Option.bind_eq_some_iff.1 h
  obtain ⟨⟨label, v⟩, hlabel, h⟩ := Option.bind_eq_some_iff.1 h
  obtain ⟨argument, hargument, -⟩ := Option.map_eq_some_iff.1 h
  rw [Source.eq_append_of_cut? hcall, Source.eq_append_of_cut? hlabel,
    Text.eq_append_of_before? hargument]
  simp only [← List.append_assoc, List.getLast?_concat]

lemma isDelivered_cons_self {name : Text} :
    IsDelivered completion (.closure completion name :: scope) name ↔ name ≠ ['_'] := by
  constructor
  · rintro (h | ⟨label, h⟩) rfl
    · simp at h
    · simp at h
  · intro h
    exact Or.inl (resolve_cons_self h rfl scope)

lemma namesMean_of_ne (hlast : l.text.getLast? ≠ some ')')
    (hrole : ∀ subject, l.role ≠ .choice subject) : NamesMean waiting completion l scope :=
  ⟨fun _ hr => absurd (Line.getLast?_of_resumption? hr) hlast,
    fun subject hs => absurd hs (hrole subject)⟩

lemma namesMean_resume {continuation label : Text} (hc : isIdentifier continuation = true)
    (hlabel : ':' ∉ label) (n : Nat) (argument : Text) :
    NamesMean waiting completion ⟨n, Body.resume continuation label argument⟩ scope ↔
      resolve scope continuation = some (.closure waiting continuation) ∧
        IsDelivered completion scope argument := by
  have hread := Line.resumption?_resume hc hlabel n argument
  constructor
  · intro h
    exact h.1 _ hread
  · intro h
    refine ⟨fun r hr => ?_, fun subject hs => ?_⟩
    · obtain rfl := Option.some.inj (hread.symm.trans hr)
      exact h
    · rw [Line.role, Body.roleOf_resume] at hs
      cases hs

lemma namesMean_switch {subject : Text} (hsubject : isIdentifier subject = true) (n : Nat) :
    NamesMean waiting completion ⟨n, "switch ".toList ++ subject ++ " \x7b".toList⟩ scope ↔
      IsDelivered completion scope subject := by
  have hrole : Line.role ⟨n, "switch ".toList ++ subject ++ " \x7b".toList⟩ = .choice subject :=
    Line.roleOf_switch hsubject
  constructor
  · intro h
    exact h.2 subject hrole
  · intro h
    refine ⟨fun r hr => ?_, fun subject' hs => ?_⟩
    · have hlast := Line.getLast?_of_resumption? hr
      rw [List.getLast?_append_of_ne_nil _ (by decide)] at hlast
      exact absurd hlast (by decide)
    · obtain rfl : subject = subject' := by simpa using hrole.symm.trans hs
      exact h

lemma namesMean_opening (head : Text) {x : Text} (hx : isIdentifier x = true) (n : Nat) :
    NamesMean waiting completion ⟨n, head ++ Body.closure x⟩ scope := by
  refine namesMean_of_ne ?_ fun subject hs => ?_
  · rw [Body.closure, List.getLast?_append_of_ne_nil _ (by simp),
      List.getLast?_append_of_ne_nil _ (by decide)]
    decide
  · rw [Line.role, Line.roleOf_closure head hx] at hs
    cases hs

lemma namesMean_label (pattern : Text) {t : Text} {n : Nat} (hrole : Line.roleOf t = .label pattern)
    (hlast : t.getLast? ≠ some ')') : NamesMean waiting completion ⟨n, t⟩ scope := by
  refine namesMean_of_ne hlast fun subject hs => ?_
  rw [Line.role, hrole] at hs
  cases hs

lemma namesMean_closing (n : Nat) : NamesMean waiting completion ⟨n, "\x7d".toList⟩ scope := by
  have hrole : Line.roleOf "\x7d".toList = .closing := by decide
  refine namesMean_of_ne (List.getLast?_singleton.trans_ne (by decide)) fun subject hs => ?_
  rw [Line.role, hrole] at hs
  cases hs

end Means

namespace Body

variable {s : Signature} {d : Delivery} {w : Suspension} {arguments : Text} {style : Style}

lemma binders_waitBlock (hstyle : style.IsNamed) :
    (waitBlock s d w arguments style).opening.binders =
      [.closure (waitBlock s d w arguments style).opening style.continuation] := by
  simp only [Line.binders, role_waitBlock hstyle]

lemma binders_callBlock (hstyle : style.IsNamed) :
    (callBlock s d arguments style).opening.binders =
      [.closure (callBlock s d arguments style).opening (argument style d)] := by
  simp only [Line.binders, role_callBlock hstyle]

/-- What is bound around the completion. -/
def innerScope (s : Signature) (d : Delivery) (w : Suspension) (arguments : Text) (style : Style)
    (outer : List Binder) : List Binder :=
  .closure (callBlock s d arguments style).opening (argument style d) ::
    .closure (waitBlock s d w arguments style).opening style.continuation :: outer

/-- The lines of a body with the binders around them. -/
lemma scopes_tree (hstyle : style.IsNamed) (outer : List Binder) :
    (tree s d w arguments style).scopes outer =
      ((waitBlock s d w arguments style).opening, outer) ::
        ((callBlock s d arguments style).opening,
          .closure (waitBlock s d w arguments style).opening style.continuation :: outer) ::
        ((completion style d).scopes (innerScope s d w arguments style outer) ++
          [(⟨1, "\x7d".toList⟩,
              .closure (waitBlock s d w arguments style).opening style.continuation :: outer),
            (⟨0, "\x7d".toList⟩, outer)]) := by
  have hinner : (waitBlock s d w arguments style).inner =
      .block (callBlock s d arguments style).opening (completion style d) ⟨1, "\x7d".toList⟩ .done := rfl
  simp only [tree, hinner, Code.scopes, binders_waitBlock hstyle, binders_callBlock hstyle, innerScope,
    List.cons_append, List.nil_append, List.append_assoc]

section Completion

variable {waiting call : Line} {outer : List Binder}

/-- The names of a completion that delivers a value: that of the continuation, and that of the
value. -/
lemma namesMean_value (hstyle : style.IsNamed) (hne : style.value ≠ style.continuation) (t : Text) :
    (∀ e ∈ (completion style (.value t)).scopes
        (.closure call style.value :: .closure waiting style.continuation :: outer),
      NamesMean waiting call e.1 e.2) ↔ style.Referable (.value t) := by
  rw [completion, Code.scopes, Code.scopes, List.forall_mem_singleton,
    namesMean_resume hstyle.continuation (by decide), isDelivered_cons_self]
  have hmem : Binder.closure waiting style.continuation ∉ [Binder.closure call style.value] := by
    simp [hne.symm]
  have hresolve := resolve_append_cons_iff hmem outer
  rw [List.singleton_append, List.forall_mem_singleton] at hresolve
  exact and_congr_left' (hresolve.trans (and_iff_left hne))

/-- The names in an arm: that of the continuation, and that of the variable of the arm. -/
lemma namesMean_arm (hstyle : style.IsNamed) (hne : style.result ≠ style.continuation) (label x : Text)
    (hlabel : ':' ∉ label) (hx : x ≠ ['_']) (arm : Line) :
    NamesMean waiting call ⟨3, resume style.continuation label x⟩
        (.pattern arm x :: .closure call style.result :: .closure waiting style.continuation :: outer) ↔
      style.continuation ≠ ['_'] ∧ style.continuation ≠ x := by
  rw [namesMean_resume hstyle.continuation hlabel]
  have hmem : Binder.closure waiting style.continuation ∉
      [Binder.pattern arm x, Binder.closure call style.result] := by
    simp [hne.symm]
  have hresolve := resolve_append_cons_iff hmem outer
  rw [List.cons_append, List.singleton_append, List.forall_mem_cons,
    List.forall_mem_singleton] at hresolve
  have hdelivered : IsDelivered call (.pattern arm x :: .closure call style.result ::
      .closure waiting style.continuation :: outer) x :=
    Or.inr ⟨arm, resolve_cons_self hx rfl _⟩
  rw [and_iff_left hdelivered]
  refine hresolve.trans (and_congr_right fun _ => ?_)
  exact ⟨fun h => Ne.symm h.1, fun h => ⟨Ne.symm h, hne⟩⟩

/-- The names of a completion that delivers a result: its own, and those in the two arms. -/
lemma namesMean_result (hstyle : style.IsNamed) (hne : style.result ≠ style.continuation)
    (success failure : Text) :
    (∀ e ∈ (completion style (.result success failure)).scopes
        (.closure call style.result :: .closure waiting style.continuation :: outer),
      NamesMean waiting call e.1 e.2) ↔ style.Referable (.result success failure) := by
  have hsuccess : Line.binders ⟨2, "case .success(let value):".toList⟩ =
      [.pattern ⟨2, "case .success(let value):".toList⟩ "value".toList] := by decide +kernel
  have hfailure : Line.binders ⟨2, "case .failure(let error):".toList⟩ =
      [.pattern ⟨2, "case .failure(let error):".toList⟩ "error".toList] := by decide +kernel
  have hnames : style.continuation ∉ [['_'], "value".toList, "error".toList] ↔
      style.continuation ≠ ['_'] ∧ style.continuation ≠ "value".toList ∧
        style.continuation ≠ "error".toList := by
    simp only [List.mem_cons, List.not_mem_nil, or_false, not_or, ne_eq]
  simp only [completion, Code.scopes, Arms.scopes, hsuccess, hfailure, List.cons_append, List.nil_append,
    List.forall_mem_cons, namesMean_switch hstyle.result, isDelivered_cons_self,
    namesMean_arm hstyle hne "returning".toList "value".toList (by decide) (by decide),
    namesMean_arm hstyle hne "throwing".toList "error".toList (by decide) (by decide),
    Style.Referable, hnames]
  constructor
  · rintro ⟨hresult, -, ⟨hc, hvalue⟩, -, ⟨-, herror⟩, -⟩
    exact ⟨⟨hc, hvalue, herror⟩, hresult⟩
  · rintro ⟨⟨hc, hvalue, herror⟩, hresult⟩
    exact ⟨hresult, namesMean_label ".success(let value)".toList (by decide +kernel) (by decide),
      ⟨hc, hvalue⟩, namesMean_label ".failure(let error)".toList (by decide +kernel) (by decide),
      ⟨hc, herror⟩, namesMean_closing 2, by simp⟩

end Completion

/-- Inside of the completion the names mean what they should exactly if they can be referred to,
given that the parameters of the two closures differ. -/
lemma namesMean_completion (hstyle : style.IsNamed) (outer : List Binder)
    (hne : argument style d ≠ style.continuation) :
    (∀ e ∈ (completion style d).scopes (innerScope s d w arguments style outer),
      NamesMean (waitBlock s d w arguments style).opening (callBlock s d arguments style).opening
        e.1 e.2) ↔ style.Referable d := by
  cases d with
  | value t => exact namesMean_value hstyle hne t
  | result success failure => exact namesMean_result hstyle hne success failure

/-- The same for the whole body, whose other lines use no names of this kind. -/
lemma namesResolve_tree (hstyle : style.IsNamed) (outer : List Binder)
    (hne : argument style d ≠ style.continuation) :
    (tree s d w arguments style).NamesResolve (waitBlock s d w arguments style).opening
      (callBlock s d arguments style).opening outer ↔ style.Referable d := by
  rw [← namesMean_completion hstyle outer hne, Code.NamesResolve, scopes_tree hstyle]
  simp only [List.forall_mem_cons, List.forall_mem_append]
  constructor
  · rintro ⟨-, -, hcompletion, -⟩
    exact hcompletion
  · intro hcompletion
    exact ⟨namesMean_opening _ hstyle.continuation 0,
      namesMean_opening _ (isIdentifier_argument hstyle d) 1, hcompletion, namesMean_closing 1,
      namesMean_closing 0, by simp⟩

/-- Around the call are what the peer binds and the continuation. -/
lemma mem_scopes_callBlock (hstyle : style.IsNamed) (outer : List Binder) :
    ((callBlock s d arguments style).opening,
      .closure (waitBlock s d w arguments style).opening style.continuation :: outer) ∈
        (tree s d w arguments style).scopes outer := by
  rw [scopes_tree hstyle]
  exact List.mem_cons_of_mem _ List.mem_cons_self

/-- The lines of a body wait in one block for the completion, which they hand to the call. -/
lemma waitsFor_lines (hstyle : style.IsNamed) :
    (tree s d w arguments style).WaitsFor (lines s d w arguments style) w (call s arguments)
      (waitBlock s d w arguments style) (callBlock s d arguments style) where
  read := read?_lines hstyle
  outer := rfl
  waits := by simp only [Block.head?, role_waitBlock hstyle]
  inner := rfl
  calls := by simp only [Block.head?, role_callBlock hstyle]

end Body

/-- With accepted settings, the names in the calls that resume and the name that a choice is made by
mean what they should if and only if none of them is `_` and, where a result is taken apart, the
continuation is not named like the variable of an arm. -/
theorem resumeNames_resolve_iff {settings : Settings} (hsettings : settings.validate = .ok ())
    {declaration : Declaration} {w : Suspension} {p : Peer}
    (h : Peer.of declaration w settings.style = .ok p) (outer : List Binder) :
    ∃ (code : Code) (call : Text) (waiting completion : Block),
      code.WaitsFor p.body w call waiting completion ∧
      (code.NamesResolve waiting.opening completion.opening outer ↔
        settings.style.Referable p.delivery) := by
  obtain ⟨hstyle, hvalue, hresult⟩ := Settings.names_of_validate hsettings
  obtain ⟨s, -, -, -, -, -, -, -, hp⟩ := Peer.of_eq_ok h
  have hbody : p.body = Body.lines s p.delivery w _ settings.style := congrArg Peer.body hp
  have hne : Body.argument settings.style p.delivery ≠ settings.style.continuation := by
    cases p.delivery with
    | value _ => exact hvalue
    | result _ _ => exact hresult
  rw [hbody]
  exact ⟨_, _, _, _, Body.waitsFor_lines hstyle, Body.namesResolve_tree hstyle outer hne⟩

theorem fetch_resumeNames_resolve :
    Settings.validate {} = .ok () ∧
      Peer.of (.function fetchFunction) { throwing := true } (Settings.style {}) = .ok fetchPeer ∧
      ∃ (code : Code) (call : Text) (waiting completion : Block),
        code.WaitsFor fetchPeer.body { throwing := true } call waiting completion ∧
        (code.NamesResolve waiting.opening completion.opening [] ↔
          (Settings.style {}).Referable fetchPeer.delivery) :=
  ⟨Settings.validate_default, peer_fetchFunction,
    resumeNames_resolve_iff Settings.validate_default peer_fetchFunction []⟩

/-- Settings that name the continuation like the variable of an arm. -/
def valueSettings : Settings where
  naming := some { continuation := "value".toList }

/-- They are accepted, but in the body of a peer the variable of the arm hides the continuation. -/
theorem valueSettings_hide :
    valueSettings.validate = .ok () ∧
      ∃ (p : Peer) (code : Code) (call : Text) (waiting completion : Block),
        Peer.of (.function fetchFunction) { throwing := true } valueSettings.style = .ok p ∧
        code.WaitsFor p.body { throwing := true } call waiting completion ∧
        ¬ code.NamesResolve waiting.opening completion.opening [] := by
  have hsettings : valueSettings.validate = .ok () := by decide +kernel
  obtain ⟨hstyle, -, hne⟩ := Settings.names_of_validate hsettings
  let body := Body.lines fetchFunction fetchPeer.delivery { throwing := true }
    "url, trying: tries".toList valueSettings.style
  refine ⟨hsettings, { fetchPeer with body := body }, _, _, _, _, by decide +kernel,
    Body.waitsFor_lines hstyle, ?_⟩
  rw [Body.namesResolve_tree (d := fetchPeer.delivery) hstyle [] hne]
  decide +kernel

/-! ### Names in the call -/

/-- An argument of a call. -/
structure Argument where
  label : Option Text
  value : Text
deriving DecidableEq, Repr

/-- The argument as it is written. -/
def Argument.text (a : Argument) : Text :=
  match a.label with
  | some label => label ++ ": ".toList ++ a.value
  | none => a.value

/-- The argument that hands a parameter on. -/
def Parameter.argument (w : WildcardStyle) (q : Parameter) : Argument where
  label :=
    if q.isWildcard then
      match w with
      | .positional => none
      | .named => some q.name
    else some q.externalLabel
  value := q.name

lemma Parameter.text_argument (w : WildcardStyle) (q : Parameter) :
    (q.argument w).text = q.passed w := by
  by_cases hq : q.isWildcard = true
  · cases w <;> simp [argument, passed, Argument.text, hq]
  · simp [argument, passed, Argument.text, hq]

namespace Signature

/-- The arguments of the call. -/
def arguments (s : Signature) (w : WildcardStyle) : List Argument :=
  s.passedOn.map (Parameter.argument w)

/-- What the parameters of the peer bind. -/
def binders (s : Signature) : List Binder :=
  s.passedOn.map fun q => .parameter q.name

lemma arguments_forms (s : Signature) (w : WildcardStyle) :
    (Forwarding.forms w s.passedOn).arguments =
      Text.join ", ".toList ((s.arguments w).map Argument.text) := by
  simp only [Forwarding.arguments, Forwarding.forms, arguments, List.map_map, Function.comp_def,
    Parameter.text_argument]

end Signature

/-- The name means a parameter of the peer. -/
def Denotes (scope : List Binder) (name : Text) : Prop :=
  isIdentifier name = true ∧ resolve scope name = some (.parameter name)

lemma resolve_binders {s : Signature} {q : Parameter} (hq : q ∈ s.passedOn) (hname : q.name ≠ ['_']) :
    resolve s.binders q.name = some (.parameter q.name) := by
  obtain ⟨b, hb⟩ : ∃ b, s.binders.find? (fun b => b.name == q.name) = some b := by
    have hmem : .parameter q.name ∈ s.binders := List.mem_map.2 ⟨q, hq, rfl⟩
    exact Option.isSome_iff_exists.1 (List.find?_isSome.2 ⟨_, hmem, by simp [Binder.name]⟩)
  have hfound : b.name = q.name := by simpa using List.find?_some hb
  obtain ⟨q', -, rfl⟩ := List.mem_map.1 (List.mem_of_find?_eq_some hb)
  rw [resolve, if_neg hname, hb]
  exact congrArg (fun name => some (Binder.parameter name)) hfound

/-- An argument inside of the closure in which the body waits denotes a parameter exactly if it is a
name other than `_` and than that of the continuation. -/
lemma denotes_argument_iff {s : Signature} {q : Parameter} (hq : q ∈ s.passedOn) (waiting : Line)
    (continuation : Text) :
    Denotes (.closure waiting continuation :: s.binders) q.name ↔
      isIdentifier q.name = true ∧ q.name ≠ ['_'] ∧ q.name ≠ continuation := by
  refine and_congr_right fun _ => ?_
  by_cases hname : q.name = ['_']
  · simp [hname]
  by_cases hne : q.name = continuation
  · rw [resolve_cons_self hname (by simp [Binder.name, hne])]
    simp [hne]
  · rw [resolve_cons_of_ne (by simpa [Binder.name] using Ne.symm hne), resolve_binders hq hname]
    simp [hname, hne]

/-- With accepted settings, each argument of the call denotes a parameter of the peer if and only if
the names of the parameters are identifiers other than `_` and than the name of the continuation. -/
theorem arguments_denote_iff {settings : Settings} (hsettings : settings.validate = .ok ())
    {s : Signature} {w : Suspension} {p : Peer}
    (h : Peer.of (.function s) w settings.style = .ok p) :
    ∃ (code : Code) (waiting completion : Block) (scope : List Binder),
      p.clause = Text.join ", ".toList (s.passedOn.map Parameter.declared) ∧
      code.WaitsFor p.body w
        (Body.call s (Text.join ", ".toList ((s.arguments settings.style.wildcard).map Argument.text)))
        waiting completion ∧
      (completion.opening, scope) ∈ code.scopes s.binders ∧
      ((∀ a ∈ s.arguments settings.style.wildcard, Denotes scope a.value) ↔
        ∀ q ∈ s.passedOn, isIdentifier q.name = true ∧ q.name ≠ ['_'] ∧
          q.name ≠ settings.style.continuation) := by
  obtain ⟨hstyle, -, -⟩ := Settings.names_of_validate hsettings
  obtain ⟨s, -, heq, -, -, -, -, -, hp⟩ := Peer.of_eq_ok h
  obtain rfl := Declaration.function.inj heq
  have hbody : p.body = Body.lines _ p.delivery w _ settings.style := congrArg Peer.body hp
  have hclause : p.clause = _ := congrArg Peer.clause hp
  rw [hbody, ← Signature.arguments_forms]
  refine ⟨_, _, _, _, hclause, Body.waitsFor_lines hstyle, Body.mem_scopes_callBlock hstyle _, ?_⟩
  simp only [Signature.arguments, List.forall_mem_map]
  exact forall₂_congr fun q hq => denotes_argument_iff hq _ _

theorem fetch_arguments_denote :
    Settings.validate {} = .ok () ∧
      Peer.of (.function fetchFunction) { throwing := true } (Settings.style {}) = .ok fetchPeer ∧
      ∃ (code : Code) (waiting completion : Block) (scope : List Binder),
        fetchPeer.clause = Text.join ", ".toList (fetchFunction.passedOn.map Parameter.declared) ∧
        code.WaitsFor fetchPeer.body { throwing := true }
          (Body.call fetchFunction
            (Text.join ", ".toList ((fetchFunction.arguments .positional).map Argument.text)))
          waiting completion ∧
        (completion.opening, scope) ∈ code.scopes fetchFunction.binders ∧
        ((∀ a ∈ fetchFunction.arguments .positional, Denotes scope a.value) ↔
          ∀ q ∈ fetchFunction.passedOn, isIdentifier q.name = true ∧ q.name ≠ ['_'] ∧
            q.name ≠ "continuation".toList) :=
  ⟨Settings.validate_default, peer_fetchFunction,
    arguments_denote_iff Settings.validate_default peer_fetchFunction⟩

/-- A function with a parameter that has no name, and one that is named like the continuation. -/
def hiddenFunction : Signature where
  name := "save".toList
  parameters := [
    { name := "_".toList, type := "Int".toList },
    { name := "continuation".toList, type := "Token".toList },
    { name := "done".toList, type := "(Bool) -> Void".toList }]

/-- It has a peer with the default settings, but neither argument of the call denotes a parameter:
the first is no name, and the second means the continuation. -/
theorem hiddenFunction_arguments :
    Settings.validate {} = .ok () ∧
      ∃ (p : Peer) (code : Code) (waiting completion : Block) (scope : List Binder),
        Peer.of (.function hiddenFunction) {} (Settings.style {}) = .ok p ∧
        code.WaitsFor p.body {} (Body.call hiddenFunction "_: _, continuation: continuation".toList)
          waiting completion ∧
        (completion.opening, scope) ∈ code.scopes hiddenFunction.binders ∧
        ∀ a ∈ hiddenFunction.arguments .positional, ¬ Denotes scope a.value := by
  obtain ⟨hstyle, -, -⟩ := Settings.names_of_validate Settings.validate_default
  let p : Peer :=
    { name := "save".toList, modifiers := [], generics := none
      clause := "_: Int, continuation: Token".toList, delivery := .value "Bool".toList
      requirements := none, suspension := {}
      body := Body.lines hiddenFunction (.value "Bool".toList) {}
        "_: _, continuation: continuation".toList (Settings.style {}) }
  refine ⟨Settings.validate_default, p, _, _, _, _, by decide +kernel, Body.waitsFor_lines hstyle,
    Body.mem_scopes_callBlock hstyle _, ?_⟩
  have hnames : ∀ q ∈ hiddenFunction.passedOn,
      ¬ (isIdentifier q.name = true ∧ q.name ≠ ['_'] ∧ q.name ≠ (Settings.style {}).continuation) := by
    decide +kernel
  simp only [Signature.arguments, List.forall_mem_map]
  intro q hq hdenotes
  exact hnames q hq ((denotes_argument_iff hq _ _).1 hdenotes)

end AsyncPeer
