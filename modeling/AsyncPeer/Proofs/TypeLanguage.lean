/-
# The language of types

The types of the language as trees, and how they are written.  A type is named, where a name has
components that may carry generic arguments; or it is built with one of the signs of the language: an
existential, an array, a dictionary, a tuple, an optional or a function.

Everything that a tree is made of carries the proof that it can be written: identifiers are not empty
and made of word characters, a tuple has no or at least two elements, and the qualifiers in front of a
type have argument lists that close.  So every tree is a type of the language, and there is nothing to
ask of one.
-/
import AsyncPeer.Proofs.Qualifiers

namespace AsyncPeer.Spelling

/-! ### Trees -/

/-- An identifier. -/
structure Identifier where
  text : Text
  nonempty : text ≠ []
  chars : ∀ c ∈ text, Text.isWordChar c = true

/-- The argument list of the qualifier, if it has one, is balanced and written with single spaces. -/
def Qualifier.IsTidy : Qualifier → Prop
  | applied _ args _ => Balanced (fun _ => True) args ∧ (args ++ [')']).Spaced = true
  | _ => True

/-- A qualifier that can stand in the middle of a type. -/
structure InnerQualifier where
  qualifier : Qualifier
  tidy : qualifier.IsTidy

/-- One component of a dotted name, with its generic arguments. -/
structure Component (α : Type) where
  name : Identifier
  args : List α := []

/-- One element of a tuple or one parameter of a function type. -/
structure Element (α : Type) where
  /-- The words of its label. -/
  label : List Identifier := []
  /-- The qualifiers in front of its type. -/
  qualifiers : List InnerQualifier := []
  type : α

/-- Whether a function throws. -/
inductive Throwing (α : Type) where
  | never
  | throws
  | rethrows
  /-- It throws errors of one type. -/
  | typed (error : α)

/-- The types of the language. -/
inductive Ty where
  /-- A dotted name. -/
  | named (first : Component Ty) (rest : List (Component Ty))
  /-- A type behind `any`. -/
  | existential (constraint : Ty)
  | array (element : Ty)
  | dictionary (key value : Ty)
  /-- The tuple without elements. -/
  | unit
  /-- A tuple with at least two elements. -/
  | tuple (first second : Element Ty) (rest : List (Element Ty))
  | optional (wrapped : Ty)
  | function (parameters : List (Element Ty)) (isAsync : Bool) (throwing : Throwing Ty) (result : Ty)

/-! ### Writing types -/

namespace Component

/-- The list of arguments that are written. -/
def writeArgs (args : List Text) : Text :=
  if args.isEmpty then [] else '<' :: (Text.join ", ".toList args ++ ['>'])

/-- A component whose arguments are written. -/
def write (name : Identifier) (args : List Text) : Text :=
  name.text ++ writeArgs args

end Component

namespace Element

/-- An element whose type is written. -/
def write (label : List Identifier) (qualifiers : List InnerQualifier) (type : Text) : Text :=
  (if label.isEmpty then [] else Text.join [' '] (label.map (·.text)) ++ ": ".toList) ++
    (qualifiers.flatMap (fun q => q.qualifier.text ++ [' ']) ++ type)

end Element

/-- The type of the errors, if it is given. -/
def Throwing.parts {α : Type} : Throwing α → List α
  | typed error => [error]
  | _ => []

namespace Ty

/-- The type is that of a function. -/
def isFunction : Ty → Bool
  | function _ _ _ _ => true
  | _ => false

mutual

/-- The type as it is written. -/
def print : Ty → Text
  | named first rest => Text.join ['.'] (printComponent first :: printComponents rest)
  | existential constraint => "any ".toList ++ constraint.print
  | array element => '[' :: (element.print ++ [']'])
  | dictionary key value => '[' :: (key.print ++ ": ".toList ++ value.print ++ [']'])
  | unit => ['(', ')']
  | tuple first second rest =>
    '(' :: (Text.join ", ".toList (printElement first :: printElement second :: printElements rest) ++
      [')'])
  | optional wrapped =>
    (if wrapped.isFunction then '(' :: (wrapped.print ++ [')']) else wrapped.print) ++ ['?']
  | function parameters isAsync throwing result =>
    '(' :: (Text.join ", ".toList (printElements parameters) ++ ')' :: ' ' ::
      ((if isAsync then "async ".toList else []) ++
        (printThrowing throwing ++ ("-> ".toList ++ result.print))))

def printAll : List Ty → List Text
  | [] => []
  | t :: ts => t.print :: printAll ts

def printComponent : Component Ty → Text
  | ⟨name, args⟩ => Component.write name (printAll args)

def printComponents : List (Component Ty) → List Text
  | [] => []
  | c :: cs => printComponent c :: printComponents cs

def printElement : Element Ty → Text
  | ⟨label, qualifiers, type⟩ => Element.write label qualifiers type.print

def printElements : List (Element Ty) → List Text
  | [] => []
  | e :: es => printElement e :: printElements es

def printThrowing : Throwing Ty → Text
  | .never => []
  | .throws => "throws ".toList
  | .rethrows => "rethrows ".toList
  | .typed error => "throws".toList ++ '(' :: (error.print ++ [')', ' '])

end

lemma printAll_eq (ts : List Ty) : printAll ts = ts.map print := by
  induction ts with
  | nil => rfl
  | cons t ts ih => rw [printAll, ih, List.map_cons]

lemma printComponent_eq (c : Component Ty) :
    printComponent c = Component.write c.name (c.args.map print) := by
  rw [← printAll_eq]
  cases c
  rfl

lemma printComponents_eq (cs : List (Component Ty)) : printComponents cs = cs.map printComponent := by
  induction cs with
  | nil => rfl
  | cons c cs ih => rw [printComponents, ih, List.map_cons]

lemma printElement_eq (e : Element Ty) :
    printElement e = Element.write e.label e.qualifiers e.type.print := by
  cases e
  rfl

lemma printElements_eq (es : List (Element Ty)) : printElements es = es.map printElement := by
  induction es with
  | nil => rfl
  | cons e es ih => rw [printElements, ih, List.map_cons]

/-! ### Induction over types -/

/-- The types that a type is made of. -/
def parts : Ty → List Ty
  | named first rest => (first :: rest).flatMap (·.args)
  | existential constraint => [constraint]
  | array element => [element]
  | dictionary key value => [key, value]
  | unit => []
  | tuple first second rest => (first :: second :: rest).map (·.type)
  | optional wrapped => [wrapped]
  | function parameters _ throwing result =>
    parameters.map (·.type) ++ throwing.parts ++ [result]

lemma sizeOf_lt_of_mem_args {t : Ty} {c : Component Ty} (h : t ∈ c.args) : sizeOf t < sizeOf c := by
  obtain ⟨name, args⟩ := c
  have hlt : sizeOf t < sizeOf args := List.sizeOf_lt_of_mem h
  simp only [Component.mk.sizeOf_spec]
  omega

lemma sizeOf_type_lt (e : Element Ty) : sizeOf e.type < sizeOf e := by
  obtain ⟨label, qualifiers, type⟩ := e
  simp only [Element.mk.sizeOf_spec]
  omega

lemma sizeOf_lt_of_mem_parts {u t : Ty} (h : u ∈ t.parts) : sizeOf u < sizeOf t := by
  cases t with
  | named first rest =>
    obtain ⟨c, hc, hu⟩ := List.mem_flatMap.1 h
    have hlt := sizeOf_lt_of_mem_args hu
    rw [named.sizeOf_spec]
    rcases List.mem_cons.1 hc with rfl | hc
    · omega
    · have := List.sizeOf_lt_of_mem hc
      omega
  | existential constraint =>
    rw [List.mem_singleton.1 h, existential.sizeOf_spec]
    omega
  | array element =>
    rw [List.mem_singleton.1 h, array.sizeOf_spec]
    omega
  | dictionary key value =>
    rw [dictionary.sizeOf_spec]
    rcases List.mem_pair.1 h with rfl | rfl <;> omega
  | unit => simp [parts] at h
  | tuple first second rest =>
    obtain ⟨e, he, rfl⟩ := List.mem_map.1 h
    have hlt := sizeOf_type_lt e
    rw [tuple.sizeOf_spec]
    rw [List.mem_cons, List.mem_cons] at he
    rcases he with rfl | rfl | he
    · omega
    · omega
    · have := List.sizeOf_lt_of_mem he
      omega
  | optional wrapped =>
    rw [List.mem_singleton.1 h, optional.sizeOf_spec]
    omega
  | function parameters isAsync throwing result =>
    rw [function.sizeOf_spec]
    rw [parts, List.mem_append, List.mem_append, List.mem_singleton] at h
    rcases h with (h | h) | rfl
    · obtain ⟨e, he, rfl⟩ := List.mem_map.1 h
      have hlt := sizeOf_type_lt e
      have := List.sizeOf_lt_of_mem he
      omega
    · cases throwing with
      | typed error =>
        rw [List.mem_singleton.1 h, Throwing.typed.sizeOf_spec]
        omega
      | never => simp [Throwing.parts] at h
      | throws => simp [Throwing.parts] at h
      | rethrows => simp [Throwing.parts] at h
    · omega

/-- Induction over types: from the types that it is made of to the type itself. -/
@[elab_as_elim]
theorem byParts {motive : Ty → Prop} (step : ∀ t : Ty, (∀ u ∈ t.parts, motive u) → motive t)
    (t : Ty) : motive t :=
  step t fun u _hu => byParts step u
termination_by sizeOf t
decreasing_by exact sizeOf_lt_of_mem_parts _hu

end Ty

end AsyncPeer.Spelling
