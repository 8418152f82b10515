/-
# Peers in JSON

The form in which a peer is handed over to other tools, and the two formats in which a peer can be
asked for.
-/
import AsyncPeer.Exchange.Declaration
import AsyncPeer.Json.Basic
import AsyncPeer.Peer

namespace AsyncPeer.Exchange

/-- The JSON form of what a completion delivers. -/
def writeDelivery : Delivery → Json
  | .value payload =>
    .object [("shape".toList, .string "plain_value".toList), ("payload".toList, .string payload)]
  | .result success failure =>
    .object [("shape".toList, .string "result_pair".toList), ("success".toList, .string success),
      ("failure".toList, .string failure)]

/-- The JSON form of a line of a body. -/
def writeLine (line : Line) : Json :=
  .object [("depth".toList, .ofNat line.depth), ("text".toList, .string line.text)]

/-- The JSON form of a peer. -/
def writePeer (p : Peer) : Json :=
  .object ([("name".toList, .string p.name),
      ("modifiers".toList, .array (p.modifiers.map .string))] ++
    optionalMember "generic_clause" p.generics ++
    [("parameters".toList, .string p.clause),
      ("shape".toList, writeDelivery p.delivery),
      ("throws".toList, .bool p.throws)] ++
    optionalMember "where_clause" p.requirements ++
    [("variant".toList, .string p.suspension.name),
      ("body".toList, .array (p.body.map writeLine))])

/-- The formats in which a peer can be asked for. -/
inductive Format where
  | text
  | json
deriving DecidableEq, Repr

/-- Why no peer can be given for a text that should spell a declaration. -/
inductive Failure where
  /-- The text does not spell a declaration. -/
  | malformed
  /-- The declaration has no peer. -/
  | refused (generator : Generator) (reason : Refusal)
deriving DecidableEq, Repr

/-- The message for the user. -/
def Failure.message : Failure → Text
  | malformed => "Failed to parse declaration JSON".toList
  | refused g r => g.written ++ " failed: ".toList ++ r.message

/-- The text of a peer in the given format. -/
def formatPeer (format : Format) (style : Style) (p : Peer) : Text :=
  match format with
  | .text => p.render style.indent
  | .json => (writePeer p).render

/-- The text of the peer of the declaration that `json` spells. -/
def renderPeer (json : Text) (g : Generator) (format : Format) (style : Style) :
    Except Failure Text :=
  match parseDeclaration? json with
  | none => .error .malformed
  | some d =>
    match Peer.of d g.suspension style with
    | .error r => .error (.refused g r)
    | .ok p => .ok (formatPeer format style p)

end AsyncPeer.Exchange
