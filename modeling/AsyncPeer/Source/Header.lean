/-
# Reading declarations

The declaration that a node of a syntax tree shows.  Of a function only the header is read: its
modifiers, name, parameters, effects and clauses.  Types and default values are taken from the source
between the signs that delimit them, because not every spelling has a node of its own.
-/
import AsyncPeer.Declaration
import AsyncPeer.Source.Node

namespace AsyncPeer.Source

/-- Why a declaration is not readable, with the first line of its text. -/
def unreadable (source : Text) (n : Node) : Refusal :=
  match n.text source with
  | .ok t => .unreadable (t.lines.headD []).trim
  | .error r => r

/-! ### Where a declaration stands -/

/-- The bodies in which declarations are members of a type. -/
def typeBodies : List String :=
  ["class_body", "enum_class_body", "protocol_body"]

/-- The scopes in which declarations are local. -/
def localScopes : List String :=
  ["function_body", "lambda_literal", "statements", "computed_property", "computed_getter",
    "computed_setter", "computed_modify", "init_declaration", "deinit_declaration",
    "subscript_declaration"]

/-- The nearest body or scope around a declaration is the body of a type. -/
def isMember : (above : List Node) → Bool
  | [] => false
  | p :: above =>
    if typeBodies.contains p.kind then true
    else if localScopes.contains p.kind then false
    else isMember above

/-! ### Parameters -/

/-- The entry of a parameter ends here. -/
def endsEntry (n : Node) : Bool :=
  n.kind == "," || n.kind == ")"

/-- The label, if there is one, and the name of a parameter from the texts in front of its colon. -/
def parameterNames? : List Text → Option (Option Text × Text)
  | [name] => some (none, name)
  | [label, name] => some (some label, name)
  | _ => none

/-- The parameter at a node, whose default value is among the nodes that follow it. -/
def readParameter (source : Text) (n : Node) (following : List Node) : Except Refusal Parameter := do
  let parts := n.parts
  let before := parts.takeWhile fun p => p.kind != ":"
  let some colon := parts.find? fun p => p.kind == ":"
    | .error (unreadable source n)
  let names ← before.mapM (Node.text source)
  let entry := following.takeWhile fun p => !endsEntry p
  let entryStop := ((following.find? endsEntry).map Node.start).getD n.stop
  let equals := entry.find? fun p => p.kind == "="
  let value := entry.find? fun p => p.isNamed && p.kind != "attribute"
  let typeStop := ((equals.map Node.start).or (value.map Node.start)).getD entryStop
  let defaultStart := (equals.map Node.stop).or (value.map Node.start)
  let type ← slice source colon.stop (max typeStop colon.stop)
  let some (label, name) := parameterNames? names
    | .error (unreadable source n)
  let defaultValue ← defaultStart.mapM fun start => slice source start (max entryStop start)
  return {
    label
    name
    type := (type.trim.dropEndWhile (· == '=')).squeeze
    defaultValue := (defaultValue.map Text.trim).filter fun t => !t.isEmpty }

/-- The parameters among the nodes of a header up to its closing parenthesis. -/
def readParameters (source : Text) : List Node → Except Refusal (List Parameter)
  | [] => .ok []
  | n :: rest =>
    if n.kind == ")" then .ok []
    else if n.kind == "parameter" then do
      let p ← readParameter source n rest
      return p :: (← readParameters source rest)
    else readParameters source rest

/-! ### The rest of a header -/

/-- The modifiers at a node in front of `func`; attributes are none. -/
def readModifiers (source : Text) (n : Node) : Except Refusal (List Text) := do
  let parts := if n.kind == "modifiers" then n.parts else [n]
  let texts ← (parts.filter fun p => p.kind != "attribute").mapM (Node.text source)
  return texts.flatMap Text.words

/-- The effects and the result type in the text between the parameter clause and the end of the
header. -/
def readEffects (t : Text) : Bool × Bool × Option Text :=
  let (effects, result) :=
    match t.cut? "->".toList with
    | some (effects, result) => (effects, some result.trim)
    | none => (t, none)
  let words := effects.fields fun c => !Text.isWordChar c
  (words.contains "async".toList,
    words.contains "throws".toList || words.contains "rethrows".toList,
    (result.filter fun r => !r.isEmpty).map Text.squeeze)

/-- The requirements in the text of a where clause. -/
def readRequirements (t : Text) : Text :=
  let t := t.trim
  ((t.after? "where".toList).getD t).squeeze

/-- The end of a header: the beginning of its where clause or its body, whichever comes first. -/
def headerStop (n : Node) (rest : List Node) : Nat :=
  let ends := rest.filter fun p => p.kind == "type_constraints" || p.kind == "function_body"
  (ends.map Node.start).foldl min n.stop

/-- The function at a node with the given nodes above it.  Of several generic clauses, or where clauses,
the last one counts. -/
def readFunction (source : Text) (n : Node) (above : List Node) : Except Refusal Signature := do
  let parts := n.parts
  if parts.any fun p => p.kind != "function_body" && (p.hasError || p.isMissing) then
    .error (unreadable source n)
  let lead := parts.takeWhile fun p => p.kind != "func"
  match parts.dropWhile fun p => p.kind != "func" with
  | [] => .error (unreadable source n)
  | [_] => .error .missingName
  | _ :: nameNode :: rest =>
    let name ← nameNode.text source
    let modifiers ← lead.mapM (readModifiers source)
    let clause := rest.takeWhile fun p => p.kind != ")"
    let generics ← (clause.filter fun p => p.kind == "type_parameters").mapM (Node.text source)
    let parameters ← readParameters source rest
    let requirements ← (rest.filter fun p => p.kind == "type_constraints").mapM (Node.text source)
    let some close := rest.find? fun p => p.kind == ")"
      | .error (.missingClause name)
    let effects ← slice source close.stop (max (headerStop n rest) close.stop)
    let (isAsync, throws, result) := readEffects effects
    return {
      name
      modifiers := modifiers.flatten
      generics := generics.getLast?.map Text.squeeze
      parameters
      isAsync
      throws
      result
      requirements := requirements.getLast?.map readRequirements
      isMember := isMember above }

/-- The word that introduces a declaration, or the kind of its node. -/
def introducer (source : Text) (n : Node) : Except Refusal Text := do
  let lead ← (n.parts.find? fun p => p.kind != "modifiers" && p.kind != "attribute").mapM
    (Node.text source)
  let word := (lead.getD []).takeWhile Text.isWordChar
  return if word.isEmpty then n.kind.toList else word

/-- The declaration at a node. -/
def readDeclaration (source : Text) (l : Located) : Except Refusal Declaration :=
  match l.node.kind with
  | "function_declaration" => (readFunction source l.node l.above).map .function
  | "protocol_function_declaration" => .error .requirement
  | "ERROR" => .error (unreadable source l.node)
  | _ => (introducer source l.node).map .other

/-! ### Declarations on their own -/

/-- The first declaration of a source, of which it is known whether it is a member of a type. -/
def firstDeclaration (source : Text) (tree : Node) (isMember : Bool) :
    Except Refusal Declaration := do
  let some n := tree.parts.find? Node.isNamed
    | .error .nothingDeclared
  match ← readDeclaration source ⟨n, [tree]⟩ with
  | .function s => return .function { s with isMember }
  | d => return d

/-- A source whose only declaration has the given parameter clause. -/
def clauseSource (clause : Text) : Text :=
  "func clause(".toList ++ clause ++ ") \x7b\x7d".toList

/-- The parameters of a clause, read from the tree of its source. -/
def clauseParameters (clause : Text) (tree : Node) : Except Refusal (List Parameter) := do
  match ← firstDeclaration (clauseSource clause) tree false with
  | .function s => return s.parameters
  | .other _ => .error (.unreadableClause clause)

end AsyncPeer.Source
