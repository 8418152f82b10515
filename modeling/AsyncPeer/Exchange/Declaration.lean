/-
# Declarations in JSON

The form in which a declaration is handed over.  A record is an object with one member a field, or
an array of the fields in order.  As an object it may have members that mean nothing, but a field
must not occur twice; as an array it may leave out fields with a default at its end, and it has no
items behind the fields.  The kind of a declaration is one more field, in front of the others.

Absent optional fields are not written.
-/
import AsyncPeer.Declaration
import AsyncPeer.Json.Parser

namespace AsyncPeer.Exchange

/-! ### Records -/

/-- A field of a record: its name, how its value is read, and the value that it has when it is left
out, if it may be. -/
structure Field (α : Type) where
  /-- The name of the member. -/
  name : Text
  /-- The value that a JSON value stands for. -/
  read : Json → Option α
  /-- The value of a field that is left out. -/
  fallback : Option α := none

/-- The contents of a record, named or in order. -/
inductive Record where
  /-- The members of an object. -/
  | members (members : List (Text × Json))
  /-- The items of an array that are not read yet. -/
  | items (items : List Json)

namespace Record

/-- The contents that a JSON value gives. -/
def ofJson? : Json → Option Record
  | .object ms => some (.members ms)
  | .array js => some (.items js)
  | _ => none

/-- The value of the next field, and the record behind it. -/
def next? (f : Field α) : Record → Option (α × Record)
  | .members ms =>
    match ms.filter fun m => m.1 == f.name with
    | [] => f.fallback.map (·, .members ms)
    | [m] => (f.read m.2).map (·, .members ms)
    | _ => none
  | .items [] => f.fallback.map (·, .items [])
  | .items (j :: js) => (f.read j).map (·, .items js)

/-- Nothing is left that a record must not have. -/
def isDone : Record → Bool
  | .members _ => true
  | .items js => js.isEmpty

end Record

/-- A field that holds a text and has to be there. -/
def textField (name : String) : Field Text :=
  { name := name.toList, read := Json.text? }

/-- A field that holds a text and may be null or left out. -/
def optionalField (name : String) : Field (Option Text) :=
  { name := name.toList, read := Json.optional? Json.text?, fallback := some none }

/-- A truth value that may be left out. -/
def flagField (name : String) (fallback : Bool) : Field Bool :=
  { name := name.toList, read := Json.bool?, fallback := some fallback }

/-! ### Reading -/

/-- The parameter that a JSON value stands for. -/
def readParameter? (j : Json) : Option Parameter := do
  let r ← Record.ofJson? j
  let (label, r) ← r.next? (optionalField "label")
  let (name, r) ← r.next? (textField "name")
  let (type, r) ← r.next? (textField "type")
  let (defaultValue, r) ← r.next? (optionalField "default_value")
  if r.isDone then return { label, name, type, defaultValue } else none

/-- The signature that the fields of a record give. -/
def readSignature? (r : Record) : Option Signature := do
  let (name, r) ← r.next? (textField "name")
  let (modifiers, r) ← r.next?
    { name := "modifiers".toList, read := (·.items?.bind (·.mapM Json.text?)), fallback := some [] }
  let (generics, r) ← r.next? (optionalField "generic_clause")
  let (parameters, r) ← r.next?
    { name := "parameters".toList, read := (·.items?.bind (·.mapM readParameter?)) }
  let (isAsync, r) ← r.next? (flagField "is_async" false)
  let (throws, r) ← r.next? (flagField "throws" false)
  let (result, r) ← r.next? (optionalField "return_type")
  let (requirements, r) ← r.next? (optionalField "where_clause")
  let (isMember, r) ← r.next? (flagField "is_member" true)
  if r.isDone then
    return { name, modifiers, generics, parameters, isAsync, throws, result, requirements, isMember }
  else none

/-- The declaration that a JSON value stands for. -/
def readDeclaration? (j : Json) : Option Declaration := do
  let (kind, r) ← (← Record.ofJson? j).next? (textField "kind")
  if kind == "function".toList then
    return .function (← readSignature? r)
  else if kind == "other".toList then
    let (introducer, r) ← r.next? (textField "introducer")
    if r.isDone then return .other introducer else none
  else none

/-- Arrays and objects of a declaration are nested at most this deep. -/
def nestingLimit : Nat :=
  127

/-- The declaration that a text spells. -/
def parseDeclaration? (t : Text) : Option Declaration :=
  (Json.parse? nestingLimit t).bind readDeclaration?

/-! ### Writing -/

/-- The member for an optional text, which is left out if there is none. -/
def optionalMember (name : String) : Option Text → List (Text × Json)
  | some t => [(name.toList, .string t)]
  | none => []

/-- The JSON form of a parameter. -/
def writeParameter (p : Parameter) : Json :=
  .object (optionalMember "label" p.label ++
    [("name".toList, .string p.name), ("type".toList, .string p.type)] ++
    optionalMember "default_value" p.defaultValue)

/-- The members of a signature. -/
def signatureMembers (s : Signature) : List (Text × Json) :=
  [("name".toList, .string s.name),
    ("modifiers".toList, .array (s.modifiers.map .string))] ++
  optionalMember "generic_clause" s.generics ++
  [("parameters".toList, .array (s.parameters.map writeParameter)),
    ("is_async".toList, .bool s.isAsync),
    ("throws".toList, .bool s.throws)] ++
  optionalMember "return_type" s.result ++
  optionalMember "where_clause" s.requirements ++
  [("is_member".toList, .bool s.isMember)]

/-- The JSON form of a declaration. -/
def writeDeclaration : Declaration → Json
  | .function s => .object (("kind".toList, .string "function".toList) :: signatureMembers s)
  | .other introducer =>
    .object [("kind".toList, .string "other".toList), ("introducer".toList, .string introducer)]

end AsyncPeer.Exchange
