/-
# From tokens to JSON values

A value is built from its tokens by a machine with a stack: the stack holds the arrays and objects
that are still open, and the mode says what may come next.  Each token is one step, so the machine
stops with the token list.  The height of the stack is the depth of nesting, which may be limited.
-/
import AsyncPeer.Json.Basic
import AsyncPeer.Json.Token

namespace AsyncPeer.Json

/-- An array or an object that is still open around a value.  What it holds so far is kept in
reverse order. -/
inductive Frame where
  /-- The items of an array. -/
  | array (done : List Json)
  /-- The members of an object, and the name of the member whose value comes next. -/
  | object (done : List (Text × Json)) (name : Text)

/-- What may come next. -/
inductive Mode where
  /-- A value. -/
  | value
  /-- The first item of an array, or its end. -/
  | item
  /-- The name of a member, or, in front of the first one, the end of the object. -/
  | name (done : List (Text × Json))
  /-- The colon behind the name of a member. -/
  | colon (done : List (Text × Json)) (name : Text)
  /-- A value is complete; what follows it belongs to what is open around it. -/
  | complete (j : Json)

/-- The beginning of a value. -/
def Frame.enter (limit : Nat) (stack : List Frame) : Token → Option (Mode × List Frame)
  | .null => some (.complete .null, stack)
  | .bool b => some (.complete (.bool b), stack)
  | .number lexeme => some (.complete (.number lexeme), stack)
  | .string text => some (.complete (.string text), stack)
  | .arrayOpen => if stack.length < limit then some (.item, .array [] :: stack) else none
  | .objectOpen => if stack.length < limit then some (.name [], stack) else none
  | _ => none

/-- The machine reads one token. -/
def Mode.step (limit : Nat) : Mode → List Frame → Token → Option (Mode × List Frame)
  | .item, .array [] :: stack, .arrayClose => some (.complete (.array []), stack)
  | .item, stack, token => Frame.enter limit stack token
  | .value, stack, token => Frame.enter limit stack token
  | .name [], stack, .objectClose => some (.complete (.object []), stack)
  | .name done, stack, .string key => some (.colon done key, stack)
  | .colon done key, stack, .colon => some (.value, .object done key :: stack)
  | .complete j, .array done :: stack, .comma => some (.value, .array (j :: done) :: stack)
  | .complete j, .array done :: stack, .arrayClose =>
    some (.complete (.array (j :: done).reverse), stack)
  | .complete j, .object done key :: stack, .comma => some (.name ((key, j) :: done), stack)
  | .complete j, .object done key :: stack, .objectClose =>
    some (.complete (.object ((key, j) :: done).reverse), stack)
  | _, _, _ => none

/-- The machine reads the tokens one after the other, and at their end has to have one complete
value. -/
def Mode.run (limit : Nat) : Mode → List Frame → List Token → Option Json
  | .complete j, [], [] => some j
  | _, _, [] => none
  | mode, stack, token :: tokens =>
    match mode.step limit stack token with
    | some (mode, stack) => run limit mode stack tokens
    | none => none

/-- The value that a text spells, with arrays and objects nested at most `limit` deep. -/
def parse? (limit : Nat) (t : Text) : Option Json :=
  match tokens? t with
  | some tokens => Mode.run limit .value [] tokens
  | none => none

end AsyncPeer.Json
