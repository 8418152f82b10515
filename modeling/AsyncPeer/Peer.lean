/-
# Peers

The asynchronous peer of a function with a completion: the same function without the completion,
which suspends until the completion is called.  `Peer.of` decides whether a declaration has a peer
and builds it; the first condition that is not met is the reason given for a refusal.
-/
import AsyncPeer.Body
import AsyncPeer.Forwarding

namespace AsyncPeer

/-- An asynchronous peer. -/
structure Peer where
  /-- The name, which is that of the function. -/
  name : Text
  /-- The modifiers that the peer keeps. -/
  modifiers : List Text
  /-- The generic parameter clause. -/
  generics : Option Text
  /-- The parameter clause without its parentheses. -/
  clause : Text
  /-- What the completion of the function delivers. -/
  delivery : Delivery
  /-- The requirements behind `where`. -/
  requirements : Option Text
  /-- How the peer waits. -/
  suspension : Suspension
  /-- The lines of the body. -/
  body : List Line
deriving DecidableEq, Repr

/-- The modifiers that mean the same on a peer. -/
def carriedModifiers : List Text :=
  ["public", "open", "package", "internal", "fileprivate", "private", "static", "class", "final",
    "nonisolated", "mutating", "nonmutating"].map String.toList

/-- The modifiers that decide how a function is called and what it may change. -/
def semanticModifiers : List Text :=
  ["static", "class", "mutating", "nonmutating"].map String.toList

namespace Signature

/-- The modifiers that the peer keeps. -/
def keptModifiers (s : Signature) (all : Bool) : List Text :=
  s.modifiers.filter fun m =>
    carriedModifiers.contains m && (all || semanticModifiers.contains m)

end Signature

namespace Peer

/-- The peer throws: it does if the completion delivers a result that is taken apart. -/
def throws (p : Peer) : Bool :=
  p.delivery.isResult

/-- The result type of the peer, which is left out for the empty tuple. -/
def result? (p : Peer) : Option Text :=
  if Spelling.isVoid p.delivery.returned then none else some p.delivery.returned

/-- The declaration of the peer up to its body. -/
def header (p : Peer) : Text :=
  p.modifiers.flatMap (· ++ [' ']) ++ "func ".toList ++ p.name ++ p.generics.getD [] ++
    '(' :: p.clause ++ ") async".toList ++
    (if p.throws then " throws".toList else []) ++
    (match p.result? with
      | some t => " -> ".toList ++ t
      | none => []) ++
    (match p.requirements with
      | some t => " where ".toList ++ t
      | none => [])

/-- A line of the body, one level deeper than the declaration, with its line feed. -/
def bodyLine (width : Nat) (line : Line) : Text :=
  List.replicate (width * (line.depth + 1)) ' ' ++ line.text ++ ['\n']

/-- The whole text of the peer, with the given number of spaces for each level. -/
def render (width : Nat) (p : Peer) : Text :=
  p.header ++ " \x7b\n".toList ++ p.body.flatMap (bodyLine width) ++ ['\x7d']

/-- The peer of a declaration.  It has one if it is a function whose last parameter is a completion
that fits the way of waiting, which has no effects of its own, and all of whose other parameters can
be handed on. -/
def of (d : Declaration) (w : Suspension) (style : Style) : Except Refusal Peer := do
  let (s, completion) ← d.eligible
  let delivery ← Delivery.ofType completion.type w
  s.effectFree
  let forwarding ← Forwarding.ofParameters style.wildcard s.passedOn
  return {
    name := s.name
    modifiers := s.keptModifiers style.keepsModifiers
    generics := s.generics
    clause := forwarding.clause
    delivery
    requirements := s.requirements
    suspension := w
    body := Body.lines s delivery w forwarding.arguments style }

end Peer

end AsyncPeer
