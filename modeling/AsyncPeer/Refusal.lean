/-
# Refusals

Why a declaration gets no peer.  Each cause carries what its message names; the wording of all
messages is in one place, `Refusal.message`.
-/
import AsyncPeer.Text.Basic

namespace AsyncPeer

/-- A reason for which a declaration is turned down. -/
inductive Refusal where
  /-- The declaration is not a function. -/
  | notAFunction
  /-- The last parameter is not a completion. -/
  | noCompletion
  /-- A throwing peer was asked for, and the completion does not deliver a result. -/
  | noResult
  /-- The function is already asynchronous. -/
  | alreadyAsync (function : Text)
  /-- The function throws. -/
  | throwing (function : Text)
  /-- A parameter has no name. -/
  | unnamedParameter
  /-- A parameter has no type. -/
  | untypedParameter (parameter : Text)
  /-- A parameter takes any number of arguments. -/
  | variadicParameter (parameter : Text)
  /-- The function is a requirement of a protocol. -/
  | requirement
  /-- The source of the declaration could not be read; its first line is shown. -/
  | unreadable (line : Text)
  /-- No name stands behind `func`. -/
  | missingName
  /-- No parameter clause stands behind the name. -/
  | missingClause (function : Text)
  /-- There is no declaration at all. -/
  | nothingDeclared
  /-- The text is not a parameter clause. -/
  | unreadableClause (text : Text)
  /-- A node of the syntax tree does not lie on character boundaries of the source. -/
  | misplaced (start stop : Nat)
deriving DecidableEq, Repr

namespace Refusal

/-- The four classes into which refusals are sorted for reports. -/
inductive Kind where
  | onlyFunction
  | wrongFunctionType
  | notThrowing
  | custom
deriving DecidableEq, Repr

/-- The class of a refusal. -/
def kind : Refusal → Kind
  | notAFunction => .onlyFunction
  | noCompletion => .wrongFunctionType
  | noResult => .notThrowing
  | _ => .custom

/-- The message for the user. -/
def message : Refusal → Text
  | notAFunction => "@Asyncify can be attached only to functions.".toList
  | noCompletion =>
    ("@Asyncify can only be used on functions with a trailing `(T) -> Void` " ++
      "completion closure.").toList
  | noResult =>
    ("@AsyncifyThrowing requires a completion of the form " ++
      "`(Result<Success, Failure>) -> Void`.").toList
  | alreadyAsync function =>
    function.quoted ++ " is already async; there is nothing to asyncify.".toList
  | throwing function =>
    function.quoted ++
      (" throws; its completion could fire before the error and resume the continuation twice. " ++
        "Report errors through a `Result` completion instead.").toList
  | unnamedParameter => "Encountered a parameter without a name.".toList
  | untypedParameter parameter =>
    "Could not read the type of parameter ".toList ++ parameter.quoted ++ ['.']
  | variadicParameter parameter =>
    "Variadic parameter ".toList ++ parameter.quoted ++
      " cannot be forwarded to the original function.".toList
  | requirement =>
    ("Protocol requirements have no body to delegate to; attach the attribute to an " ++
      "implementation.").toList
  | unreadable line => "Could not read the declaration ".toList ++ line.quoted ++ ['.']
  | missingName => "Expected a function name after `func`.".toList
  | missingClause function =>
    "Expected a parameter clause after ".toList ++ function.quoted ++ ['.']
  | nothingDeclared => "Expected a declaration.".toList
  | unreadableClause text =>
    "Could not read parameter clause ".toList ++ text.quoted ++ ['.']
  | misplaced start stop =>
    ("The syntax tree has a node from " ++ toString start ++ " to " ++ toString stop ++
      " that does not fit the source.").toList

end Refusal

end AsyncPeer
