/-
# Handing parameters on

Each parameter that a peer hands on is written twice: in the parameter clause of the peer, and as an
argument of the call inside its body.
-/
import AsyncPeer.Declaration
import AsyncPeer.Generator
import AsyncPeer.Refusal

namespace AsyncPeer

namespace Parameter

/-- The parameter as it stands in a parameter clause: `label name: Type = default`, with one word
where label and name agree. -/
def declared (p : Parameter) : Text :=
  let names :=
    match p.label with
    | some label => if label = p.name then p.name else label ++ ' ' :: p.name
    | none => p.name
  let value :=
    match p.defaultValue with
    | some v => " = ".toList ++ v.trim
    | none => []
  names ++ ": ".toList ++ p.type.squeeze ++ value

/-- The parameter as it stands in a call: `label: name`, or the bare name. -/
def passed (w : WildcardStyle) (p : Parameter) : Text :=
  if p.isWildcard then
    match w with
    | .positional => p.name
    | .named => p.name ++ ": ".toList ++ p.name
  else p.externalLabel ++ ": ".toList ++ p.name

/-- What stands in the way of handing the parameter on. -/
def obstacle? (p : Parameter) : Option Refusal :=
  if p.name.blank then some .unnamedParameter
  else if p.type.blank then some (.untypedParameter p.name)
  else if p.isVariadic then some (.variadicParameter p.name)
  else none

end Parameter

/-- The parameters of a peer, as it declares them and as it passes them. -/
structure Forwarding where
  /-- The entries of the parameter clause. -/
  declared : List Text
  /-- The arguments of the call. -/
  passed : List Text
deriving DecidableEq, Repr

namespace Forwarding

/-- The forms of the parameters, whether they can be handed on or not. -/
def forms (w : WildcardStyle) (ps : List Parameter) : Forwarding :=
  { declared := ps.map Parameter.declared, passed := ps.map (Parameter.passed w) }

/-- The forms of the parameters, or what stands in the way of the first that cannot be handed on. -/
def ofParameters (w : WildcardStyle) (ps : List Parameter) : Except Refusal Forwarding :=
  match ps.findSome? Parameter.obstacle? with
  | some r => .error r
  | none => .ok (forms w ps)

/-- The parameter clause without its parentheses. -/
def clause (f : Forwarding) : Text :=
  Text.join ", ".toList f.declared

/-- The argument list without its parentheses. -/
def arguments (f : Forwarding) : Text :=
  Text.join ", ".toList f.passed

end Forwarding

end AsyncPeer
