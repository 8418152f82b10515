/-
# Bodies resume once

The body of a peer waits in one block, in which it calls the function once, and each way through the
completion resumes the continuation once.  All of this is said about the lines as they are written:
they are read as code in blocks, and what a block or a line is for is read off its text.

* `Body.tree` is the tree of a body, and `Body.read?_lines` says that it is what the lines are read
  as.
* `Body.callee?` reads the name of the function in a call, and `Resumption.read?` reads a line that
  resumes.
* `body_resumesOnce` puts these together for every peer.
-/
import AsyncPeer.Proofs.Blocks
import AsyncPeer.Proofs.HeaderReading

namespace AsyncPeer

/-! ### Lines that resume -/

/-- A call that resumes a continuation. -/
structure Resumption where
  /-- The name in front of `.resume`. -/
  continuation : Text
  /-- The label, which says how the continuation goes on. -/
  label : Text
  /-- The name that is handed over. -/
  argument : Text
deriving DecidableEq, Repr

/-- The call that a text is, if it resumes a continuation. -/
def Resumption.read? (t : Text) : Option Resumption :=
  (t.cut? ".resume(".toList).bind fun (continuation, u) =>
    (u.cut? ": ".toList).bind fun (label, v) =>
      (v.before? [')']).map fun argument => ⟨continuation, label, argument⟩

/-- The call that a line is, if it resumes a continuation. -/
def Line.resumption? (l : Line) : Option Resumption :=
  Resumption.read? l.text

/-- The pattern of a label. -/
def Line.label? (l : Line) : Option Text :=
  match l.role with
  | .label pattern => some pattern
  | _ => none

lemma not_mem_of_isIdentifier {t : Text} (h : isIdentifier t = true) {c : Char}
    (hc : Text.isWordChar c = false) : c ∉ t := by
  intro hmem
  rw [isWordChar_of_isIdentifier h c hmem] at hc
  cases hc

lemma Resumption.read?_resume {continuation label : Text} (hc : isIdentifier continuation = true)
    (hlabel : ':' ∉ label) (argument : Text) :
    read? (Body.resume continuation label argument) = some ⟨continuation, label, argument⟩ := by
  have hsplit : Body.resume continuation label argument =
      continuation ++ (".resume(".toList ++ (label ++ (": ".toList ++ (argument ++ [')'])))) := by
    simp [Body.resume]
  have hcall : Text.cut? (continuation ++ (".resume(".toList ++
        (label ++ (": ".toList ++ (argument ++ [')']))))) ".resume(".toList =
      some (continuation, label ++ (": ".toList ++ (argument ++ [')']))) :=
    Source.cut?_append (not_mem_of_isIdentifier hc (by decide)) "resume(".toList _
  have hargument : Text.cut? (label ++ (": ".toList ++ (argument ++ [')']))) ": ".toList =
      some (label, argument ++ [')']) :=
    Source.cut?_append hlabel [' '] _
  simp only [read?, hsplit, hcall, hargument, Option.bind_some, Text.before?_append, Option.map_some]

lemma Line.resumption?_resume {continuation label : Text} (hc : isIdentifier continuation = true)
    (hlabel : ':' ∉ label) (n : Nat) (argument : Text) :
    resumption? ⟨n, Body.resume continuation label argument⟩ =
      some ⟨continuation, label, argument⟩ :=
  Resumption.read?_resume hc hlabel argument

/-- A text without a full stop resumes nothing. -/
lemma Resumption.read?_eq_none {t : Text} (h : '.' ∉ t) : read? t = none := by
  have hcut : Text.cut? t ".resume(".toList = none := Source.cut?_eq_none h "resume(".toList
  rw [read?, hcut, Option.bind_none]

/-- The names that a style chooses are identifiers. -/
structure Style.IsNamed (style : Style) : Prop where
  continuation : isIdentifier style.continuation = true
  value : isIdentifier style.value = true
  result : isIdentifier style.result = true

instance (style : Style) : Decidable style.IsNamed :=
  decidable_of_iff
    (isIdentifier style.continuation = true ∧ isIdentifier style.value = true ∧
      isIdentifier style.result = true)
    ⟨fun ⟨h1, h2, h3⟩ => ⟨h1, h2, h3⟩, fun ⟨h1, h2, h3⟩ => ⟨h1, h2, h3⟩⟩

namespace Body

/-! ### Calls of a function -/

/-- The name of the function that a text calls: the result may be thrown away, the function may be
called on the instance or the type, and an argument list may follow. -/
def callee? (t : Text) : Option Text :=
  let t := (t.after? "_ = ".toList).getD t
  let t := ((t.after? "self.".toList).or (t.after? "Self.".toList)).getD t
  let name := t.takeWhile Text.isWordChar
  match t.dropWhile Text.isWordChar with
  | [] => some name
  | c :: u => if c = '(' ∧ u.getLast? = some ')' then some name else none

section Callee

variable {name tail : Text}

/-- A name in front of an argument list does not begin like a longer text. -/
lemma after?_word_eq_none (hname : isIdentifier name = true) (htail : ∀ c ∈ tail.head?, c = '(')
    (word : Text) {rest : Text} {c : Char} (hword : word.all Text.isWordChar = true)
    (hc : Text.isWordChar c = false) (hne : c ≠ '(') :
    Text.after? (name ++ tail) (word ++ c :: rest) = none := by
  by_contra h
  obtain ⟨u, hu⟩ := Option.ne_none_iff_exists'.1 h
  have heq := Text.eq_append_of_after? hu
  rw [List.append_assoc, List.cons_append] at heq
  have hopen : ∀ d ∈ tail.head?, Text.isWordChar d = false := by
    intro d hd
    rw [htail d hd]
    decide
  have hhead : ∀ d ∈ (c :: (rest ++ u)).head?, Text.isWordChar d = false := by
    intro d hd
    obtain rfl : c = d := by simpa using hd
    exact hc
  obtain ⟨-, rfl⟩ :=
    Spelling.append_inj_of_word (isWordChar_of_isIdentifier hname) (List.all_eq_true.1 hword) hopen
      hhead heq
  exact hne (htail c rfl)

lemma after?_discard_eq_none (hname : isIdentifier name = true) (htail : ∀ c ∈ tail.head?, c = '(')
    (receiver : Receiver) : Text.after? (receiver.lead ++ (name ++ tail)) "_ = ".toList = none := by
  cases receiver with
  | instanceSelf => rfl
  | typeSelf => rfl
  | none =>
    exact after?_word_eq_none hname htail ['_'] (by decide) (by decide) (by decide)

/-- The receiver is taken away from a call. -/
lemma after?_receiver (hname : isIdentifier name = true) (htail : ∀ c ∈ tail.head?, c = '(')
    (receiver : Receiver) :
    ((Text.after? (receiver.lead ++ (name ++ tail)) "self.".toList).or
      (Text.after? (receiver.lead ++ (name ++ tail)) "Self.".toList)).getD
        (receiver.lead ++ (name ++ tail)) = name ++ tail := by
  cases receiver with
  | instanceSelf =>
    have hself : Text.after? ("self.".toList ++ (name ++ tail)) "self.".toList = some (name ++ tail) :=
      Text.after?_append _ _
    exact congrArg (fun o => (Option.or o _).getD _) hself
  | typeSelf =>
    have hself : Text.after? ("Self.".toList ++ (name ++ tail)) "self.".toList = none := rfl
    have htype : Text.after? ("Self.".toList ++ (name ++ tail)) "Self.".toList = some (name ++ tail) :=
      Text.after?_append _ _
    refine (congrArg (fun o => (Option.or o _).getD _) hself).trans ?_
    exact congrArg (fun o => (Option.or none o).getD _) htype
  | none =>
    have hself : Text.after? (name ++ tail) "self.".toList = none :=
      after?_word_eq_none hname htail "self".toList (by decide) (by decide) (by decide)
    have htype : Text.after? (name ++ tail) "Self.".toList = none :=
      after?_word_eq_none hname htail "Self".toList (by decide) (by decide) (by decide)
    refine (congrArg (fun o => (Option.or o _).getD _) hself).trans ?_
    exact congrArg (fun o => (Option.or none o).getD _) htype

end Callee

/-- The argument list of a call with its parentheses, which is left out if it is empty. -/
def argumentList (arguments : Text) : Text :=
  if arguments.isEmpty then [] else '(' :: arguments ++ [')']

lemma head?_argumentList (arguments : Text) : ∀ c ∈ (argumentList arguments).head?, c = '(' := by
  rw [argumentList]
  split <;> simp

lemma call_eq (s : Signature) (arguments : Text) :
    call s arguments = (if s.returnsValue then "_ = ".toList else []) ++
      (s.receiver.lead ++ (s.name ++ argumentList arguments)) := by
  rw [call, List.append_assoc, List.append_assoc]
  rfl

/-- What stands behind the words that throw the result away. -/
lemma after?_discard_call (s : Signature) (hname : isIdentifier s.name = true) (arguments : Text) :
    (call s arguments).after? "_ = ".toList =
      if s.returnsValue then some (s.receiver.lead ++ (s.name ++ argumentList arguments)) else none := by
  rw [call_eq]
  split
  · exact Text.after?_append _ _
  · rw [List.nil_append]
    exact after?_discard_eq_none hname (head?_argumentList arguments) s.receiver

lemma call_without_discard (s : Signature) (hname : isIdentifier s.name = true) (arguments : Text) :
    ((call s arguments).after? "_ = ".toList).getD (call s arguments) =
      s.receiver.lead ++ (s.name ++ argumentList arguments) := by
  rw [after?_discard_call s hname]
  split
  · rfl
  · next hreturns => rw [call_eq, if_neg hreturns, List.nil_append, Option.getD_none]

/-- The name of the function is read off its call. -/
lemma callee?_call (s : Signature) (hname : isIdentifier s.name = true) (arguments : Text) :
    callee? (call s arguments) = some s.name := by
  have hopen := head?_argumentList arguments
  have hword : ∀ c ∈ (argumentList arguments).head?, Text.isWordChar c = false := by
    intro c hc
    rw [hopen c hc]
    decide
  have hdrop : (s.name ++ argumentList arguments).dropWhile Text.isWordChar = argumentList arguments :=
    Spelling.dropWhile_append_of_head (isWordChar_of_isIdentifier hname) hword
  have htake : (s.name ++ argumentList arguments).takeWhile Text.isWordChar = s.name := by
    have h := List.takeWhile_append_dropWhile (p := Text.isWordChar)
      (l := s.name ++ argumentList arguments)
    rw [hdrop] at h
    exact List.append_cancel_right h
  simp only [callee?, call_without_discard s hname, after?_receiver hname hopen, htake, hdrop]
  cases arguments with
  | nil => rfl
  | cons c u => exact if_pos ⟨rfl, List.getLast?_concat⟩

/-! ### The tree of a body -/

/-- What a body writes in front of the closure that it waits in. -/
def waiting (w : Suspension) : Text :=
  w.awaiting ++ ' ' :: w.primitive

/-- The code inside the completion. -/
def completion (style : Style) : Delivery → Code
  | .value _ => .line ⟨2, resume style.continuation "returning".toList style.value⟩ .done
  | .result _ _ =>
    .choice ⟨2, "switch ".toList ++ style.result ++ " \x7b".toList⟩
      (.arm ⟨2, "case .success(let value):".toList⟩
        (.line ⟨3, resume style.continuation "returning".toList "value".toList⟩ .done)
      (.arm ⟨2, "case .failure(let error):".toList⟩
        (.line ⟨3, resume style.continuation "throwing".toList "error".toList⟩ .done) .none))
      ⟨2, "\x7d".toList⟩ .done

/-- The block of the completion, which the call opens. -/
def callBlock (s : Signature) (d : Delivery) (arguments : Text) (style : Style) : Block where
  opening := ⟨1, call s arguments ++ closure (argument style d)⟩
  inner := completion style d

/-- The block in which the body waits. -/
def waitBlock (s : Signature) (d : Delivery) (w : Suspension) (arguments : Text) (style : Style) :
    Block where
  opening := ⟨0, waiting w ++ closure style.continuation⟩
  inner := .block (callBlock s d arguments style).opening (completion style d) ⟨1, "\x7d".toList⟩ .done

/-- The whole body. -/
def tree (s : Signature) (d : Delivery) (w : Suspension) (arguments : Text) (style : Style) : Code :=
  .block (waitBlock s d w arguments style).opening (waitBlock s d w arguments style).inner
    ⟨0, "\x7d".toList⟩ .done

variable {s : Signature} {d : Delivery} {w : Suspension} {arguments : Text} {style : Style}

lemma lines_tree : (tree s d w arguments style).lines = lines s d w arguments style := by
  cases d <;>
    simp [tree, waitBlock, callBlock, completion, waiting, lines, resumption, Code.lines, Arms.lines]

lemma isIdentifier_argument (hstyle : style.IsNamed) (d : Delivery) :
    isIdentifier (argument style d) = true := by
  cases d with
  | value _ => exact hstyle.value
  | result _ _ => exact hstyle.result

lemma roleOf_resume (continuation label argument : Text) :
    Line.roleOf (resume continuation label argument) = .plain :=
  Line.roleOf_of_parenthesis _

lemma role_callBlock (hstyle : style.IsNamed) :
    (callBlock s d arguments style).opening.role =
      .opening (call s arguments) (some (argument style d)) :=
  Line.roleOf_closure _ (isIdentifier_argument hstyle d)

lemma role_waitBlock (hstyle : style.IsNamed) :
    (waitBlock s d w arguments style).opening.role =
      .opening (waiting w) (some style.continuation) :=
  Line.roleOf_closure _ hstyle.continuation

lemma fits_completion (hstyle : style.IsNamed) (d : Delivery) : (completion style d).Fits := by
  have hresume := roleOf_resume style.continuation
  cases d with
  | value _ => exact ⟨hresume _ _, trivial⟩
  | result _ _ =>
    refine ⟨⟨style.result, Line.roleOf_switch hstyle.result⟩, ?_, by decide, trivial⟩
    refine ⟨⟨".success(let value)".toList, by decide +kernel⟩, ⟨hresume _ _, trivial⟩, ?_⟩
    exact ⟨⟨".failure(let error)".toList, by decide +kernel⟩, ⟨hresume _ _, trivial⟩, trivial⟩

/-- The lines of a body are read as its tree. -/
lemma read?_lines (hstyle : style.IsNamed) :
    Code.read? (lines s d w arguments style) = some (tree s d w arguments style) := by
  rw [← lines_tree]
  refine Code.read?_lines ⟨⟨_, _, role_waitBlock hstyle⟩, ?_, by decide, trivial⟩
  exact ⟨⟨_, _, role_callBlock hstyle⟩, fits_completion hstyle d, by decide, trivial⟩

lemma placedAt_tree : (tree s d w arguments style).PlacedAt 0 := by
  have hcompletion : (completion style d).PlacedAt 2 := by
    cases d with
    | value _ => exact ⟨rfl, trivial⟩
    | result _ _ => exact ⟨rfl, ⟨rfl, ⟨rfl, trivial⟩, rfl, ⟨rfl, trivial⟩, trivial⟩, rfl, trivial⟩
  exact ⟨rfl, ⟨rfl, hcompletion, rfl, trivial⟩, rfl, trivial⟩

lemma blocks_tree : (tree s d w arguments style).blocks =
    [waitBlock s d w arguments style, callBlock s d arguments style] := by
  cases d <;> rfl

end Body

/-! ### The contract of a body -/

namespace Block

/-- The block is the one in which a body waits. -/
def waitsIn (w : Suspension) (b : Block) : Bool :=
  b.head? == some (Body.waiting w)

/-- The block is a closure that is handed to the function. -/
def calls (function : Text) (b : Block) : Bool :=
  b.parameter?.isSome && b.head?.bind Body.callee? == some function

end Block

/-- How a completion ends: on each path, the pattern of the arm that is taken, and the call that
resumes. -/
def Body.outcomes (style : Style) : Delivery → List (List Text × Resumption)
  | .value _ => [([], ⟨style.continuation, "returning".toList, style.value⟩)]
  | .result _ _ =>
    [([".success(let value)".toList], ⟨style.continuation, "returning".toList, "value".toList⟩),
      ([".failure(let error)".toList], ⟨style.continuation, "throwing".toList, "error".toList⟩)]

/-- The code waits once, calls the function once, and resumes once on each path. -/
structure Code.ResumesOnce (code : Code) (w : Suspension) (function : Text) (style : Style)
    (d : Delivery) (waiting completion : Block) : Prop where
  /-- Nothing stands outside of the block in which the body waits. -/
  whole : ∃ closing, code = .block waiting.opening waiting.inner closing .done
  /-- There is one block in which the body waits. -/
  waits : code.blocks.filter (Block.waitsIn w) = [waiting]
  continuation : waiting.parameter? = some style.continuation
  /-- There is one call of the function. -/
  calls : code.blocks.filter (Block.calls function) = [completion]
  /-- It stands directly in that block, in no arm of a choice, and nothing else stands there. -/
  direct : ∃ closing, waiting.inner = .block completion.opening completion.inner closing .done
  argument : completion.parameter? = some (Body.argument style d)
  /-- Each path through the completion resumes once. -/
  resumes : completion.inner.paths.map
      (fun path => (path.filterMap Line.label?, path.filterMap Line.resumption?)) =
    (Body.outcomes style d).map fun (labels, resumption) => (labels, [resumption])
  /-- It does nothing but resume. -/
  silent : ∀ l ∈ completion.inner.lines, l.role = .plain → l.resumption?.isSome = true

namespace Body

variable {s : Signature} {d : Delivery} {w : Suspension} {arguments : Text} {style : Style}

lemma callee?_waiting (w : Suspension) : callee? (waiting w) = none := by
  obtain ⟨_ | _, _ | _⟩ := w <;> decide +kernel

lemma resumes_completion (hstyle : style.IsNamed) (d : Delivery) :
    (completion style d).paths.map
      (fun path => (path.filterMap Line.label?, path.filterMap Line.resumption?)) =
    (outcomes style d).map fun (labels, resumption) => (labels, [resumption]) := by
  have hplain : ∀ (n : Nat) (label argument : Text),
      Line.label? ⟨n, resume style.continuation label argument⟩ = none := by
    intro n label argument
    rw [Line.label?, Line.role, roleOf_resume]
  have hreturning := Line.resumption?_resume hstyle.continuation
    (by decide : ':' ∉ "returning".toList)
  have hthrowing := Line.resumption?_resume hstyle.continuation
    (by decide : ':' ∉ "throwing".toList)
  cases d with
  | value _ =>
    simp only [completion, Code.paths, outcomes, List.map_cons, List.map_nil, List.filterMap_cons,
      List.filterMap_nil, hplain, hreturning]
  | result _ _ =>
    -- the line that opens the choice is on both paths
    have hswitch : Line.resumption? ⟨2, "switch ".toList ++ style.result ++ " \x7b".toList⟩ = none := by
      refine Resumption.read?_eq_none ?_
      simp [not_mem_of_isIdentifier hstyle.result (by decide : Text.isWordChar '.' = false)]
    have hchoice : Line.label? ⟨2, "switch ".toList ++ style.result ++ " \x7b".toList⟩ = none := by
      rw [Line.label?, Line.role, Line.roleOf_switch hstyle.result]
    have hsuccess : Line.label? ⟨2, "case .success(let value):".toList⟩ =
        some ".success(let value)".toList := by decide +kernel
    have hfailure : Line.label? ⟨2, "case .failure(let error):".toList⟩ =
        some ".failure(let error)".toList := by decide +kernel
    have hsilent : Line.resumption? ⟨2, "case .success(let value):".toList⟩ = none ∧
        Line.resumption? ⟨2, "case .failure(let error):".toList⟩ = none := by decide +kernel
    simp only [completion, Code.paths, Arms.paths, outcomes, List.map_cons, List.map_nil,
      List.flatMap_cons, List.flatMap_nil, List.append_nil, List.cons_append, List.nil_append,
      List.filterMap_cons, List.filterMap_nil, hplain, hreturning, hthrowing, hswitch, hchoice, hsuccess,
      hfailure, hsilent]

lemma resumption?_of_plain (hstyle : style.IsNamed) (d : Delivery) :
    ∀ l ∈ (completion style d).lines, l.role = .plain → l.resumption?.isSome = true := by
  have hresume : ∀ (n : Nat) (label argument : Text), ':' ∉ label →
      (Line.resumption? ⟨n, resume style.continuation label argument⟩).isSome = true := by
    intro n label argument hlabel
    rw [Line.resumption?_resume hstyle.continuation hlabel, Option.isSome_some]
  cases d with
  | value _ =>
    rw [completion, Code.lines, Code.lines, List.forall_mem_singleton]
    exact fun _ => hresume 2 _ _ (by decide)
  | result _ _ =>
    have hswitch : Line.role ⟨2, "switch ".toList ++ style.result ++ " \x7b".toList⟩ ≠ .plain := by
      rw [Line.role, Line.roleOf_switch hstyle.result]
      exact Line.Role.noConfusion
    have hlabels : Line.role ⟨2, "case .success(let value):".toList⟩ ≠ .plain ∧
        Line.role ⟨2, "case .failure(let error):".toList⟩ ≠ .plain := by decide +kernel
    simp only [completion, Code.lines, Arms.lines, List.cons_append, List.nil_append,
      List.forall_mem_cons]
    exact ⟨fun h => absurd h hswitch, fun h => absurd h hlabels.1, fun _ => hresume 3 _ _ (by decide),
      fun h => absurd h hlabels.2, fun _ => hresume 3 _ _ (by decide),
      fun h => absurd h (by decide), by simp⟩

/-- The contract, for the tree of a body. -/
lemma resumesOnce_tree (hname : isIdentifier s.name = true) (hstyle : style.IsNamed) :
    (tree s d w arguments style).ResumesOnce w s.name style d (waitBlock s d w arguments style)
      (callBlock s d arguments style) := by
  have hwait : (waitBlock s d w arguments style).opening.role = _ := role_waitBlock hstyle
  have hcall : (callBlock s d arguments style).opening.role = _ := role_callBlock hstyle
  have hcallee := callee?_call s hname arguments
  -- the call is not a line that waits, because nothing is called in front of a primitive
  have hne : call s arguments ≠ waiting w := by
    intro heq
    rw [heq, callee?_waiting] at hcallee
    cases hcallee
  refine ⟨⟨_, rfl⟩, ?_, ?_, ?_, ⟨_, rfl⟩, ?_, resumes_completion hstyle d,
    resumption?_of_plain hstyle d⟩
  · rw [blocks_tree, List.filter_cons_of_pos, List.filter_cons_of_neg, List.filter_nil]
    · simp [Block.waitsIn, Block.head?, hcall, hne]
    · simp [Block.waitsIn, Block.head?, hwait]
  · simp only [Block.parameter?, hwait]
  · rw [blocks_tree, List.filter_cons_of_neg, List.filter_cons_of_pos, List.filter_nil]
    · simp [Block.calls, Block.head?, Block.parameter?, hcall, hcallee]
    · simp [Block.calls, Block.head?, hwait, callee?_waiting]
  · simp only [Block.parameter?, hcall]

end Body

/-- The body of every peer waits once, calls the function once and resumes once on each path, if the
name of the function and the names of the style are identifiers. -/
theorem body_resumesOnce {declaration : Declaration} {w : Suspension} {style : Style} {p : Peer}
    (h : Peer.of declaration w style = .ok p) (hname : isIdentifier p.name = true)
    (hstyle : style.IsNamed) :
    ∃ code waiting completion, Code.read? p.body = some code ∧ code.lines = p.body ∧
      code.PlacedAt 0 ∧ code.ResumesOnce w p.name style p.delivery waiting completion := by
  obtain ⟨s, completion, -, -, -, -, -, -, hp⟩ := Peer.of_eq_ok h
  have hbody : p.body = Body.lines s p.delivery w _ style := congrArg Peer.body hp
  have hsame : p.name = s.name := congrArg Peer.name hp
  rw [hsame] at hname ⊢
  rw [hbody]
  exact ⟨_, _, _, Body.read?_lines hstyle, Body.lines_tree, Body.placedAt_tree,
    Body.resumesOnce_tree hname hstyle⟩

/-- A function whose completion delivers a result. -/
def fetchFunction : Signature where
  name := "fetch".toList
  parameters := [
    { label := some "_".toList, name := "url".toList, type := "URL".toList },
    { label := some "trying".toList, name := "tries".toList, type := "Int".toList },
    { name := "done".toList, type := "@escaping (Result<Data, Error>) -> Void".toList }]
  result := some "Task".toList

/-- Its peer. -/
def fetchPeer : Peer where
  name := "fetch".toList
  modifiers := []
  generics := none
  clause := "_ url: URL, trying tries: Int".toList
  delivery := .result "Data".toList "Error".toList
  requirements := none
  suspension := { throwing := true }
  body := [
    ⟨0, "try await withCheckedThrowingContinuation \x7b continuation in".toList⟩,
    ⟨1, "_ = self.fetch(url, trying: tries) \x7b result in".toList⟩,
    ⟨2, "switch result \x7b".toList⟩,
    ⟨2, "case .success(let value):".toList⟩,
    ⟨3, "continuation.resume(returning: value)".toList⟩,
    ⟨2, "case .failure(let error):".toList⟩,
    ⟨3, "continuation.resume(throwing: error)".toList⟩,
    ⟨2, "\x7d".toList⟩,
    ⟨1, "\x7d".toList⟩,
    ⟨0, "\x7d".toList⟩]

lemma peer_fetchFunction :
    Peer.of (.function fetchFunction) { throwing := true } {} = .ok fetchPeer := by
  decide +kernel

theorem fetch_resumesOnce :
    Peer.of (.function fetchFunction) { throwing := true } {} = .ok fetchPeer ∧
      ∃ code waiting completion, Code.read? fetchPeer.body = some code ∧
        code.lines = fetchPeer.body ∧ code.PlacedAt 0 ∧
        code.ResumesOnce { throwing := true } "fetch".toList {} fetchPeer.delivery waiting completion :=
  ⟨peer_fetchFunction, body_resumesOnce peer_fetchFunction (by decide +kernel) (by decide +kernel)⟩

end AsyncPeer
