/-
# JSON values

The data that declarations and peers are exchanged in.  Members of an object stay in the order in
which they are written, and a name may occur more than once; a number is kept as it is written.

Values are written in the layout with one item or member a line and two spaces for each level.  Empty
arrays and objects stay on their line.
-/
import AsyncPeer.Number

namespace AsyncPeer

/-- A JSON value. -/
inductive Json where
  | null
  | bool (b : Bool)
  | number (lexeme : Text)
  | string (text : Text)
  | array (items : List Json)
  | object (members : List (Text × Json))
deriving Repr, BEq, Inhabited

namespace Json

/-- The number `n`. -/
def ofNat (n : Nat) : Json :=
  number (Number.digits n)

/-- The text of a string. -/
def text? : Json → Option Text
  | string t => some t
  | _ => none

/-- The truth value. -/
def bool? : Json → Option Bool
  | bool b => some b
  | _ => none

/-- The items of an array. -/
def items? : Json → Option (List Json)
  | array items => some items
  | _ => none

/-- A value that may also be null. -/
def optional? (read : Json → Option α) : Json → Option (Option α)
  | null => some none
  | j => (read j).map some

/-! ### Writing -/

/-- A character inside a string: quotes, backslashes and control characters are escaped. -/
def escape (c : Char) : Text :=
  match c with
  | '"' => "\\\"".toList
  | '\\' => "\\\\".toList
  | '\n' => "\\n".toList
  | '\r' => "\\r".toList
  | '\t' => "\\t".toList
  | '\x08' => "\\b".toList
  | '\x0c' => "\\f".toList
  | _ =>
    if c.toNat < 0x20 then
      "\\u00".toList ++ [Nat.digitChar (c.toNat / 16), Nat.digitChar (c.toNat % 16)]
    else [c]

/-- A string with its quotes. -/
def quote (t : Text) : Text :=
  '"' :: t.flatMap escape ++ ['"']

/-- A new line at the given level. -/
def newline (level : Nat) : Text :=
  '\n' :: List.replicate (2 * level) ' '

mutual

/-- The text of a value at the given level. -/
def renderAt (level : Nat) : Json → Text
  | .null => "null".toList
  | .bool true => "true".toList
  | .bool false => "false".toList
  | .number lexeme => lexeme
  | .string t => quote t
  | .array [] => "[]".toList
  | .array (item :: items) =>
    '[' :: newline (level + 1) ++ renderAt (level + 1) item ++ renderItems (level + 1) items ++
      newline level ++ [']']
  | .object [] => "\x7b\x7d".toList
  | .object ((name, value) :: members) =>
    '\x7b' :: newline (level + 1) ++ quote name ++ ": ".toList ++ renderAt (level + 1) value ++
      renderMembers (level + 1) members ++ newline level ++ ['\x7d']

/-- The items behind the first, each on a line of its own. -/
def renderItems (level : Nat) : List Json → Text
  | [] => []
  | item :: items => ',' :: newline level ++ renderAt level item ++ renderItems level items

/-- The members behind the first, each on a line of its own. -/
def renderMembers (level : Nat) : List (Text × Json) → Text
  | [] => []
  | (name, value) :: members =>
    ',' :: newline level ++ quote name ++ ": ".toList ++ renderAt level value ++
      renderMembers level members

end

/-- The text of a value. -/
def render (j : Json) : Text :=
  renderAt 0 j

end Json

end AsyncPeer
