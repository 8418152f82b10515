/-
# What a completion delivers

The shape of a completion decides the signature of the peer: a plain value is returned, a result is
taken apart into a returned value and a thrown error.  The shape is read off the spelling of the
type alone.
-/
import AsyncPeer.Declaration
import AsyncPeer.Generator
import AsyncPeer.Refusal
import AsyncPeer.Spelling.Shape

namespace AsyncPeer

/-- What a completion is called with. -/
inductive Delivery where
  /-- A value of the type `payload`. -/
  | value (payload : Text)
  /-- A result: a value of the type `success`, or an error of the type `failure`. -/
  | result (success failure : Text)
deriving DecidableEq, Repr

namespace Delivery

/-- The type that the peer returns. -/
def returned : Delivery → Text
  | value payload => payload
  | result success _ => success

/-- The completion delivers a result that is taken apart. -/
def isResult : Delivery → Bool
  | value _ => false
  | result _ _ => true

/-- The one argument type of a completion. -/
def payload? (type : Text) : Option Text :=
  match Spelling.FunctionType.read? type with
  | some f => if f.isCompletion then f.parameters.head? else none
  | none => none

/-- The delivery of a completion of the given type, for a peer that waits in the given way.  A peer
that cannot throw hands a result on as it is. -/
def ofType (type : Text) (s : Suspension) : Except Refusal Delivery :=
  match payload? type with
  | none => .error .noCompletion
  | some payload =>
    if s.throwing then
      match Spelling.ResultType.read? payload with
      | some r => .ok (result r.success r.failure)
      | none => .error .noResult
    else .ok (value payload)

end Delivery

namespace Declaration

/-- The function and its completion, if the declaration is a function whose last parameter takes a
function. -/
def eligible : Declaration → Except Refusal (Signature × Parameter)
  | other _ => .error .notAFunction
  | function s =>
    match s.completion? with
    | some p => if p.isCallback then .ok (s, p) else .error .noCompletion
    | none => .error .noCompletion

end Declaration

namespace Signature

/-- A function with effects of its own is turned down: an asynchronous one needs no peer, and a
throwing one could fail after its completion was called. -/
def effectFree (s : Signature) : Except Refusal Unit :=
  if s.isAsync then .error (.alreadyAsync s.name)
  else if s.throws then .error (.throwing s.name)
  else .ok ()

end Signature

end AsyncPeer
