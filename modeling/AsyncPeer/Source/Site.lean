/-
# Sites

The places in a source where a generator is attached to a declaration.
-/
import AsyncPeer.Generator
import AsyncPeer.Source.Header

namespace AsyncPeer.Source

/-- A generator attribute and the declaration under it. -/
structure Site where
  /-- The generator that the attribute names. -/
  generator : Generator
  /-- The byte offset of the beginning of the attribute. -/
  start : Nat
  /-- The byte offset of the end of the attribute. -/
  stop : Nat
  /-- The line of the attribute, counted from one. -/
  line : Nat
  /-- The column of the attribute in bytes, counted from one. -/
  column : Nat
  /-- The declaration, or why it could not be read. -/
  declaration : Except Refusal Declaration
  /-- The byte offset of the end of the declaration. -/
  declarationStop : Nat
  /-- The blanks at the beginning of the line of the attribute. -/
  indent : Text

/-- A space or a tab. -/
def isIndent (c : Char) : Bool :=
  c == ' ' || c == '\t'

/-- The part of a text behind its last line feed. -/
def lastLine (t : Text) : Text :=
  (t.reverse.takeWhile (· != '\n')).reverse

/-- The part of a text in front of its first line feed. -/
def firstLine (t : Text) : Text :=
  t.takeWhile (· != '\n')

/-- The name of an attribute: letters, digits and underscores behind the sign and blanks. -/
def attributeName? : Text → Option Text
  | '@' :: cs =>
    match Text.trimStart cs with
    | c :: rest =>
      if c.isAlpha || c == '_' then
        some (c :: rest.takeWhile fun d => d.isAlphanum || d == '_')
      else none
    | [] => none
  | _ => none

/-- The declaration that an attribute belongs to: the node above it, or the one above the modifiers
it stands in. -/
def attachedTo? (a : Located) : Option Located :=
  a.parent?.bind fun p => if p.node.kind == "modifiers" then p.parent? else some p

/-- The site at an attribute, if it names a generator and belongs to a declaration. -/
def siteAt? (source : Text) (a : Located) : Except Refusal (Option Site) := do
  let text ← a.node.text source
  match (attributeName? text).bind Generator.named?, attachedTo? a with
  | some generator, some declared =>
    let before ← slice source 0 a.node.start
    let behind ← slice source a.node.start source.byteSize
    let head := lastLine before
    return some {
      generator
      start := a.node.start
      stop := a.node.stop
      line := before.count '\n' + 1
      column := head.byteSize + 1
      declaration := readDeclaration source declared
      declarationStop := declared.node.stop
      indent := (head ++ behind).takeWhile isIndent }
  | _, _ => return none

/-- The sites of a source, in its order. -/
def sites (source : Text) (tree : Node) : Except Refusal (List Site) := do
  return (← (attributesIn [] tree).mapM (siteAt? source)).filterMap id

end AsyncPeer.Source
