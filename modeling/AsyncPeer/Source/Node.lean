/-
# Syntax trees of source texts

A parser of the language hands over the tree of a source: for each node its kind, a few flags and the
byte offsets between which it stands.  The tree is input like the source itself, so a text is cut out
of the source only where the offsets allow it.
-/
import AsyncPeer.Refusal
import AsyncPeer.Text.Slice

namespace AsyncPeer.Source

/-- A node of a syntax tree. -/
structure Node where
  /-- The name of the rule or the token. -/
  kind : String
  /-- The node stands for a rule of the grammar and not for a fixed word or sign. -/
  isNamed : Bool
  /-- The parser supposed the node where the source has nothing. -/
  isMissing : Bool
  /-- The node, or a node below it, is a place where the source is not well-formed. -/
  hasError : Bool
  /-- The byte offset of its beginning. -/
  start : Nat
  /-- The byte offset of its end. -/
  stop : Nat
  /-- The nodes directly below, in the order of the source. -/
  children : List Node
deriving Repr

namespace Node

/-- The node is a comment. -/
def isComment (n : Node) : Bool :=
  n.kind == "comment" || n.kind == "multiline_comment"

/-- The nodes directly below, without comments. -/
def parts (n : Node) : List Node :=
  n.children.filter fun c => !c.isComment

end Node

/-- The part of a source between two byte offsets. -/
def slice (source : Text) (start stop : Nat) : Except Refusal Text :=
  match source.slice? start stop with
  | some t => .ok t
  | none => .error (.misplaced start stop)

/-- The text of a node. -/
def Node.text (source : Text) (n : Node) : Except Refusal Text :=
  slice source n.start n.stop

/-- A node together with the nodes above it, the nearest first. -/
structure Located where
  /-- The node. -/
  node : Node
  /-- The nodes above it. -/
  above : List Node
deriving Repr

namespace Located

/-- The node directly above. -/
def parent? (l : Located) : Option Located :=
  match l.above with
  | [] => none
  | p :: above => some ⟨p, above⟩

end Located

mutual

/-- The attributes in a tree, in the order of the source.  What stands inside an attribute is not
looked at. -/
def attributesIn (above : List Node) : Node → List Located
  | ⟨kind, isNamed, isMissing, hasError, start, stop, children⟩ =>
    let node : Node := ⟨kind, isNamed, isMissing, hasError, start, stop, children⟩
    if kind == "attribute" then [⟨node, above⟩]
    else attributesInAll (node :: above) children

/-- The attributes in trees that stand side by side. -/
def attributesInAll (above : List Node) : List Node → List Located
  | [] => []
  | n :: ns => attributesIn above n ++ attributesInAll above ns

end

end AsyncPeer.Source
