/-
# Declarations

What the library knows about the declaration that a peer is wanted for: a function with its
parameters, effects and clauses, or something else of which only the introducing word matters.
-/
import AsyncPeer.Spelling.Shape

namespace AsyncPeer

/-- One entry of a parameter clause. -/
structure Parameter where
  /-- The argument label, if one is written apart from the name. -/
  label : Option Text := none
  /-- The name inside the function. -/
  name : Text
  /-- The type as written. -/
  type : Text
  /-- The default value as written. -/
  defaultValue : Option Text := none
deriving DecidableEq, Repr

namespace Parameter

/-- The label that callers write. -/
def externalLabel (p : Parameter) : Text :=
  p.label.getD p.name

/-- Callers write no label. -/
def isWildcard (p : Parameter) : Bool :=
  p.label == some ['_']

/-- The parameter takes a function. -/
def isCallback (p : Parameter) : Bool :=
  (Spelling.FunctionType.read? p.type).isSome

/-- The parameter takes any number of arguments. -/
def isVariadic (p : Parameter) : Bool :=
  "...".toList.isSuffixOf p.type.trimEnd

end Parameter

/-- A function as declared. -/
structure Signature where
  /-- The name of the function. -/
  name : Text
  /-- The modifiers in front of `func`. -/
  modifiers : List Text := []
  /-- The generic parameter clause with its angle brackets. -/
  generics : Option Text := none
  /-- The parameters in order. -/
  parameters : List Parameter
  /-- The function is asynchronous. -/
  isAsync : Bool := false
  /-- The function throws. -/
  throws : Bool := false
  /-- The result type as written. -/
  result : Option Text := none
  /-- The requirements behind `where`. -/
  requirements : Option Text := none
  /-- The function is declared in the body of a type. -/
  isMember : Bool := true
deriving DecidableEq, Repr

/-- On what a function is called from inside its own declaration context. -/
inductive Receiver where
  | instanceSelf
  | typeSelf
  | none
deriving DecidableEq, Repr

namespace Signature

/-- The last parameter, where a completion has its place. -/
def completion? (s : Signature) : Option Parameter :=
  s.parameters.getLast?

/-- The parameters that a peer hands on: all but the last. -/
def passedOn (s : Signature) : List Parameter :=
  s.parameters.dropLast

/-- The function belongs to its type and not to an instance. -/
def isTypeMember (s : Signature) : Bool :=
  s.modifiers.any fun m => m == "static".toList || m == "class".toList

/-- The function has a result other than the empty tuple. -/
def returnsValue (s : Signature) : Bool :=
  s.result.any fun t => !Spelling.isVoid t

/-- On what the function is called. -/
def receiver (s : Signature) : Receiver :=
  if !s.isMember then .none else if s.isTypeMember then .typeSelf else .instanceSelf

end Signature

/-- Whatever an attribute is attached to. -/
inductive Declaration where
  /-- A function. -/
  | function (signature : Signature)
  /-- Anything else, by its introducing word. -/
  | other (introducer : Text)
deriving DecidableEq, Repr

namespace Declaration

/-- The signature of a function. -/
def signature? : Declaration → Option Signature
  | function s => some s
  | other _ => none

end Declaration

end AsyncPeer
