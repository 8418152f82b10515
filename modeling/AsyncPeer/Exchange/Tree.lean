/-
# Syntax trees in JSON

The form in which a parser hands over a syntax tree.  A node is an array of its kind, its flags, the
byte offsets of its beginning and its end, and the array of the nodes below it.  The flags are a sum:
1 for a named node, 2 for one that the source does not have, 4 for one with an error in it.
-/
import AsyncPeer.Json.Parser
import AsyncPeer.Source.Node

namespace AsyncPeer.Exchange

/-- The natural number that a JSON value stands for. -/
def natural? : Json → Option Nat
  | .number lexeme => Number.read? 10 lexeme
  | _ => none

mutual

/-- The syntax tree that a JSON value stands for. -/
def readTree? : Json → Option Source.Node
  | .array [.string kind, flags, start, stop, .array children] => do
    let flags ← natural? flags
    return {
      kind := String.ofList kind
      isNamed := flags.testBit 0
      isMissing := flags.testBit 1
      hasError := flags.testBit 2
      start := ← natural? start
      stop := ← natural? stop
      children := ← readTrees? children }
  | _ => none

/-- The syntax trees that JSON values stand for. -/
def readTrees? : List Json → Option (List Source.Node)
  | [] => some []
  | j :: js => do return (← readTree? j) :: (← readTrees? js)

end

/-- The syntax tree that a text spells.  A tree may be as deep as the source makes it. -/
def parseTree? (t : Text) : Option Source.Node :=
  (Json.parse? t.length t).bind readTree?

end AsyncPeer.Exchange
