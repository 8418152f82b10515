/-
# Function types and result types

The two kinds of types whose parts matter.  The spelling `(A, B) async throws -> R` of a function type
is taken apart whatever qualifiers are in front of it and redundant parentheses around it; anything else
around it, such as the question mark of an optional type, makes it a spelling of something else.  The
spelling `Result<Success, Failure>` is taken apart also with the module name in front.
-/
import AsyncPeer.Spelling.Nesting
import AsyncPeer.Spelling.Qualifier

namespace AsyncPeer.Spelling

/-! ### Function types -/

/-- The spellings of the empty tuple type. -/
def voidSpellings : List Text :=
  ["Void", "()", "Swift.Void"].map String.toList

/-- The text spells the empty tuple type, wherever blanks stand in it. -/
def isVoid (t : Text) : Bool :=
  voidSpellings.contains (t.filter fun c => !Text.isBlank c)

/-- What a function type says. -/
structure FunctionType where
  /-- The types of the parameters, without labels and qualifiers. -/
  parameters : List Text
  /-- The function suspends. -/
  isAsync : Bool
  /-- The function throws. -/
  throws : Bool
  /-- The type of the result. -/
  result : Text
deriving DecidableEq, Repr

namespace FunctionType

/-- The type of a completion: one argument, no effects, and no result. -/
def isCompletion (f : FunctionType) : Bool :=
  f.parameters.length == 1 && !f.isAsync && !f.throws && isVoid f.result

end FunctionType

/-- What follows a keyword and the blanks behind it.  A longer name that begins so is no keyword. -/
def afterKeyword? (keyword t : Text) : Option Text :=
  match t.after? keyword with
  | some (c :: rest) => if isNameChar c then none else some (Text.trimStart (c :: rest))
  | some [] => some []
  | none => none

/-- What follows `throws` or `rethrows`, and the type of the error if one is given in
parentheses. -/
def afterThrows? (t : Text) : Option (Option Text) :=
  ((afterKeyword? "throws".toList t).or (afterKeyword? "rethrows".toList t)).map fun rest =>
    match rest with
    | '(' :: _ => (group? rest).map (·.2.trimStart)
    | _ => some rest

/-- The effects and the result type that follow a parameter clause. -/
def readEffects? (t : Text) : Option (Bool × Bool × Text) := do
  let t := t.trimStart
  let (isAsync, t) :=
    match afterKeyword? "async".toList t with
    | some rest => (true, rest)
    | none => (false, t)
  let (throws, t) ←
    match afterThrows? t with
    | some rest => rest.map (true, ·)
    | none => some (false, t)
  let result := (← t.after? "->".toList).trim
  if result.isEmpty then none else some (isAsync, throws, result.squeeze)

/-- The type of one parameter of a function type, behind its label and its qualifiers. -/
def parameterType (t : Text) : Text :=
  unqualified ((behind? ':' (outermost t)).getD t)

/-- The function type that an unqualified spelling shows.  Parentheses around one type are looked
through; parentheses around several types, or around none, are a tuple. -/
def FunctionType.readBare? : Text → Option FunctionType
  | '(' :: cs =>
    match _h : group? ('(' :: cs) with
    | none => none
    | some (inside, rest) =>
      let rest := rest.trim
      if rest.isEmpty then
        if (pieces ',' inside).length = 1 then readBare? (unqualified inside) else none
      else
        (readEffects? rest).map fun (isAsync, throws, result) =>
          { parameters := (pieces ',' inside).map parameterType, isAsync, throws, result }
  | _ => none
termination_by t => t.length
decreasing_by
  have := length_of_group? _h
  have := Text.length_squeeze_le (dropQualifiers inside.trim)
  have := length_dropQualifiers_le inside.trim
  have := Text.length_trim_le inside
  simp only [unqualified]
  omega

/-- The function type that a spelling shows. -/
def FunctionType.read? (t : Text) : Option FunctionType :=
  readBare? (unqualified t)

/-! ### Result types -/

/-- The two arguments of a result type. -/
structure ResultType where
  /-- The type of the value on success. -/
  success : Text
  /-- The type of the error on failure. -/
  failure : Text
deriving DecidableEq, Repr

/-- The argument list of a text that begins with the name `Result`, from its `<` on. -/
def resultArguments? (t : Text) : Option Text :=
  let t := (t.after? "Swift.".toList).getD t
  match (t.after? "Result".toList).map Text.trimStart with
  | some ('<' :: rest) => some ('<' :: rest)
  | _ => none

/-- The result type that a spelling shows: the name, and nothing behind an argument list with
exactly two arguments. -/
def ResultType.read? (t : Text) : Option ResultType := do
  let (inside, rest) ← group? (← resultArguments? t.trim)
  if !rest.isEmpty then none
  else
    match pieces ',' inside with
    | [success, failure] =>
      if success.isEmpty || failure.isEmpty then none
      else some { success := success.squeeze, failure := failure.squeeze }
    | _ => none

end AsyncPeer.Spelling
