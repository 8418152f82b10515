/-
# Generators and styles

What a user asks for.  An attribute asks for a peer, and for the way in which the body of the peer
suspends.  Four attributes name the four ways; two older ones are kept as other names of the checked
ways.  The style holds the names and the layout that a user may choose for generated peers.
-/
import AsyncPeer.Text.Basic

namespace AsyncPeer

/-! ### Generators -/

/-- How the body of a peer waits for the completion. -/
structure Suspension where
  /-- Resuming twice, or never, is reported when the program runs. -/
  checked : Bool := true
  /-- The peer throws the error of a failed result. -/
  throwing : Bool := false
deriving DecidableEq, Repr

namespace Suspension

/-- The four ways to wait. -/
def all : List Suspension :=
  [{}, { checked := false }, { throwing := true }, { checked := false, throwing := true }]

/-- The name by which settings and reports call the way. -/
def name : Suspension → Text
  | ⟨true, false⟩ => "checked".toList
  | ⟨false, false⟩ => "unchecked".toList
  | ⟨true, true⟩ => "checked_throwing".toList
  | ⟨false, true⟩ => "unchecked_throwing".toList

/-- The function that the body waits in. -/
def primitive : Suspension → Text
  | ⟨true, false⟩ => "withCheckedContinuation".toList
  | ⟨false, false⟩ => "withUnsafeContinuation".toList
  | ⟨true, true⟩ => "withCheckedThrowingContinuation".toList
  | ⟨false, true⟩ => "withUnsafeThrowingContinuation".toList

/-- The words in front of the call of the primitive. -/
def awaiting (s : Suspension) : Text :=
  if s.throwing then "try await".toList else "await".toList

end Suspension

/-- An attribute that asks for a peer. -/
inductive Generator where
  | checked
  | unchecked
  | checkedThrowing
  | uncheckedThrowing
  /-- The older name of `checked`. -/
  | plain
  /-- The older name of `checkedThrowing`. -/
  | throwing
deriving DecidableEq, Repr

namespace Generator

/-- All generators, in the order in which they are listed. -/
def all : List Generator :=
  [checked, unchecked, checkedThrowing, uncheckedThrowing, plain, throwing]

/-- The generator that is meant when none is named. -/
def default : Generator :=
  checked

/-- The name of the attribute. -/
def name : Generator → Text
  | checked => "AsyncifyChecked".toList
  | unchecked => "AsyncifyUnchecked".toList
  | checkedThrowing => "AsyncifyCheckedThrowing".toList
  | uncheckedThrowing => "AsyncifyUncheckedThrowing".toList
  | plain => "Asyncify".toList
  | throwing => "AsyncifyThrowing".toList

/-- The attribute as it is written. -/
def written (g : Generator) : Text :=
  '@' :: g.name

/-- The way in which the peers of this generator wait. -/
def suspension : Generator → Suspension
  | checked | plain => {}
  | unchecked => { checked := false }
  | checkedThrowing | throwing => { throwing := true }
  | uncheckedThrowing => { checked := false, throwing := true }

/-- The attribute is one of the two older names. -/
def isLegacy : Generator → Bool
  | plain | throwing => true
  | _ => false

/-- The generator with exactly this attribute name. -/
def named? (name : Text) : Option Generator :=
  all.find? fun g => g.name == name

/-- The generator that an attribute names, with or without the sign in front and blanks around. -/
def ofAttribute? (t : Text) : Option Generator :=
  named? (t.trim.dropWhile (· == '@'))

/-- The message for a text that names no generator. -/
def unknownMessage (t : Text) : Text :=
  "unknown generator attribute ".toList ++ t.quoted

/-- Different generators have different names. -/
theorem name_injective {g h : Generator} (e : g.name = h.name) : g = h := by
  revert e
  cases g <;> cases h <;> decide

theorem named?_name (g : Generator) : named? g.name = some g := by
  cases g <;> decide

end Generator

/-! ### Styles -/

/-- How an argument without a label is handed on. -/
inductive WildcardStyle where
  /-- By position. -/
  | positional
  /-- Under its inner name. -/
  | named
deriving DecidableEq, Repr

/-- The choices that shape the text of a peer. -/
structure Style where
  /-- The number of spaces of one level of indentation. -/
  indent : Nat := 4
  /-- The name of the continuation inside the body. -/
  continuation : Text := "continuation".toList
  /-- The name of the value that a completion delivers. -/
  value : Text := "object".toList
  /-- The name of the result that a completion delivers. -/
  result : Text := "result".toList
  /-- How arguments without a label are handed on. -/
  wildcard : WildcardStyle := .positional
  /-- The peer keeps the modifiers that only say who may use it. -/
  keepsModifiers : Bool := true
deriving DecidableEq, Repr

end AsyncPeer
