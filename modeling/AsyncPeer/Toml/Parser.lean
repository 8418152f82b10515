/-
# From tokens to TOML documents

A machine with a stack reads the tokens of a document one by one.  The stack holds the arrays and
tables that are open around a value, with the statement at its bottom; the mode says what may come
next.  A line end is added at the end of the document, so that the last statement ends like the
others.
-/
import AsyncPeer.Toml.Document
import AsyncPeer.Toml.Scalar
import AsyncPeer.Toml.Token

namespace AsyncPeer.Toml

/-- What is open around a value. -/
inductive Frame where
  /-- The statement that gives the value to a key. -/
  | statement (path : List Text)
  /-- An array with the items so far in reverse order. -/
  | array (done : List Value)
  /-- A table in curly brackets, and the key whose value comes next. -/
  | inline (entries : Entries) (path : List Text)

/-- Where a key stands: in a line of its own, or in a table in curly brackets. -/
inductive Scope where
  | line
  | inside (entries : Entries)

/-- What may come next. -/
inductive Mode where
  /-- A statement or an empty line. -/
  | line
  /-- The rest of a line after a statement. -/
  | lineEnd
  /-- A second bracket or a key, behind the bracket that begins a header. -/
  | headerOpen
  /-- A part of the key of a header, or, when `ready`, what may follow a part. -/
  | header (list : Bool) (parts : List Text) (ready : Bool)
  /-- The second closing bracket of a header. -/
  | headerClose (parts : List Text)
  /-- A part of a key, or, when `ready`, what may follow a part. -/
  | key (scope : Scope) (parts : List Text) (ready : Bool)
  /-- A value. -/
  | value
  /-- An item of an array, or its end. -/
  | item
  /-- A key of a table in curly brackets, or its end. -/
  | member (entries : Entries)
  /-- More of a value without quotes. -/
  | scalar (text : Text)
  /-- A time behind a date and a space, or what may follow a value. -/
  | scalarGap (text : Text)
  /-- What may follow a value. -/
  | complete (v : Value)

/-- The state of the machine. -/
structure State where
  /-- What may come next. -/
  mode : Mode := .line
  /-- What is open. -/
  stack : List Frame := []
  /-- The statements so far in reverse order. -/
  statements : List Statement := []

/-- The deepest nesting of arrays and tables in a value. -/
def nestingLimit : Nat :=
  80

/-- The part of a key that a token is. -/
def keyPart? : Token → Option Text
  | .word t => if t.all fun c => c.isAlphanum || c == '_' || c == '-' then some t else none
  | .string t true => some t
  | _ => none

namespace State

/-- Going on in another mode. -/
def turn (s : State) (mode : Mode) : Option State :=
  some { s with mode }

/-- Going on in another mode with another stack. -/
def enter (s : State) (mode : Mode) (stack : List Frame) : Option State :=
  some { s with mode, stack }

/-- A statement is complete; the line goes on in the given mode. -/
def emit (s : State) (statement : Statement) (mode : Mode) : Option State :=
  some { mode, stack := [], statements := statement :: s.statements }

/-- A token of a key.  `next` is the mode in which the key goes on, from its parts in reverse order and
whether a part was just read. -/
def stepKey (s : State) (parts : List Text) (ready : Bool) (next : List Text → Bool → Mode)
    (token : Token) : Option State :=
  match token with
  | .blank _ => s.turn (next parts ready)
  | .dot => if ready then s.turn (next parts false) else none
  | token =>
    if ready then none
    else (keyPart? token).bind fun part => s.turn (next (part :: parts) true)

/-- The first token of a value. -/
def stepValue (s : State) : Token → Option State
  | .string t _ => s.turn (.complete (.string t))
  | .word t => s.turn (.scalar t)
  | .dot => s.turn (.scalar ['.'])
  | .squareOpen =>
    if s.stack.length ≤ nestingLimit then s.enter .item (.array [] :: s.stack) else none
  | .curlyOpen => if s.stack.length ≤ nestingLimit then s.turn (.member []) else none
  | _ => none

/-- The token after a complete value. -/
def stepComplete (s : State) (v : Value) (token : Token) : Option State :=
  match s.stack, token with
  | [.statement path], .blank _ => s.enter (.complete v) [.statement path]
  | [.statement path], .newline => s.emit (.assign path v) .line
  | .array done :: stack, .comma => s.enter .item (.array (v :: done) :: stack)
  | .array done :: stack, .squareClose => s.enter (.complete (.array (v :: done).reverse)) stack
  | .inline entries path :: stack, .comma =>
    (Change.assign path v .inline entries).bind fun es => s.enter (.member es) stack
  | .inline entries path :: stack, .curlyClose =>
    (Change.assign path v .inline entries).bind fun es =>
      s.enter (.complete (.table .inline es)) stack
  | .array _ :: _, .blank _ | .array _ :: _, .newline => s.turn (.complete v)
  | .inline _ _ :: _, .blank _ | .inline _ _ :: _, .newline => s.turn (.complete v)
  | _, _ => none

/-- The token after a value without quotes. -/
def endScalar (s : State) (t : Text) (token : Token) : Option State :=
  (readScalar? t).bind fun v => s.stepComplete v token

/-- The machine reads one token. -/
def step (s : State) (token : Token) : Option State :=
  match s.mode with
  | .line =>
    match token with
    | .blank _ | .newline => some s
    | .squareOpen => s.turn .headerOpen
    | _ => s.stepKey [] false (.key .line) token
  | .lineEnd =>
    match token with
    | .blank _ => some s
    | .newline => s.turn .line
    | _ => none
  | .headerOpen =>
    match token with
    | .squareOpen => s.turn (.header true [] false)
    | _ => s.stepKey [] false (.header false) token
  | .header list parts ready =>
    match token with
    | .squareClose =>
      if !ready then none
      else if list then s.turn (.headerClose parts)
      else s.emit (.header parts.reverse) .lineEnd
    | _ => s.stepKey parts ready (.header list) token
  | .headerClose parts =>
    match token with
    | .squareClose => s.emit (.listHeader parts.reverse) .lineEnd
    | _ => none
  | .key scope parts ready =>
    match token with
    | .equals =>
      if !ready then none
      else
        match scope with
        | .line => s.enter .value [.statement parts.reverse]
        | .inside entries => s.enter .value (.inline entries parts.reverse :: s.stack)
    | _ => s.stepKey parts ready (.key scope) token
  | .value =>
    match token with
    | .blank _ => some s
    | _ => s.stepValue token
  | .item =>
    match token, s.stack with
    | .blank _, _ | .newline, _ => some s
    | .squareClose, .array done :: stack => s.enter (.complete (.array done.reverse)) stack
    | _, _ => s.stepValue token
  | .member entries =>
    match token with
    | .blank _ | .newline => some s
    | .curlyClose => s.turn (.complete (.table .inline entries))
    | _ => s.stepKey [] false (.key (.inside entries)) token
  | .scalar t =>
    match token with
    | .word w => s.turn (.scalar (t ++ w))
    | .dot => s.turn (.scalar (t ++ ['.']))
    | .blank 1 => if afterDate? t == some [] then s.turn (.scalarGap t) else s.endScalar t token
    | _ => s.endScalar t token
  | .scalarGap t =>
    match token with
    | .word (c :: cs) =>
      if c.isDigit then s.turn (.scalar (t ++ ' ' :: c :: cs)) else none
    | _ => s.endScalar t token
  | .complete v => s.stepComplete v token

end State

/-- The statements of a list of tokens. -/
def statements? (tokens : List Token) : Option (List Statement) :=
  match (tokens ++ [Token.newline]).foldlM State.step {} with
  | some s =>
    match s.mode with
    | .line => some s.statements.reverse
    | _ => none
  | none => none

/-- The table that a text spells.  A byte order mark in front of it is passed over. -/
def parse? (t : Text) : Option Entries :=
  let t :=
    match t with
    | '\uFEFF' :: cs => cs
    | _ => t
  ((tokens? t).bind statements?).bind Document.ofStatements?

end AsyncPeer.Toml
