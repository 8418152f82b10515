/-
# Expansion of a source

Every site of a source is expanded on its own: the peer is put behind the declaration, indented like
the attribute, and the attribute is taken away unless it shall stay.  A site without a peer leaves the
source as it is and is reported with the reason.

Both changes are edits, which are given by byte offsets into the source as it was before any of them.
They are made from the back to the front, so that the offsets of those still to be made stay right.  Of
edits that begin at the same place the one that is listed first ends up in front.
-/
import AsyncPeer.Peer
import AsyncPeer.Source.Site

namespace AsyncPeer.Source

/-! ### Edits -/

/-- The replacement of the part between two byte offsets. -/
structure Edit where
  /-- The byte offset of the beginning of the part. -/
  start : Nat
  /-- The byte offset of the end of the part. -/
  stop : Nat
  /-- What stands there afterwards. -/
  replacement : Text
deriving DecidableEq, Repr

namespace Edit

/-- The text after the edit. -/
def apply (e : Edit) (t : Text) : Except Refusal Text :=
  match t.upTo? e.start, t.slice? e.start e.stop, t.from? e.stop with
  | some before, some _, some behind => .ok (before ++ e.replacement ++ behind)
  | _, _, _ => .error (.misplaced e.start e.stop)

/-- The text after all edits. -/
def applyAll (edits : List Edit) (t : Text) : Except Refusal Text :=
  (edits.mergeSort fun a b => a.start ≤ b.start).reverse.foldlM (fun t e => e.apply t) t

end Edit

/-! ### Reports -/

/-- What became of a site. -/
inductive Status where
  /-- The peer was written. -/
  | expanded (peer : Text)
  /-- There is no peer. -/
  | failed (reason : Refusal)
deriving DecidableEq, Repr

/-- A site in the report. -/
structure Outcome where
  /-- The line of the attribute. -/
  line : Nat
  /-- The column of the attribute. -/
  column : Nat
  /-- The generator. -/
  generator : Generator
  /-- The name of the function, if the declaration could be read and is one. -/
  function : Option Text
  /-- What became of the site. -/
  status : Status
deriving DecidableEq, Repr

namespace Outcome

/-- The reason for a failure. -/
def failure? (o : Outcome) : Option Refusal :=
  match o.status with
  | .expanded _ => none
  | .failed r => some r

end Outcome

/-- The source after expansion, and what became of each site. -/
structure Report where
  /-- The new source. -/
  output : Text
  /-- The sites in the order of the source. -/
  outcomes : List Outcome
deriving DecidableEq, Repr

namespace Report

/-- The sites that failed. -/
def failures (r : Report) : List Outcome :=
  r.outcomes.filter fun o => o.failure?.isSome

/-- The number of sites that were expanded. -/
def expandedCount (r : Report) : Nat :=
  r.outcomes.length - r.failures.length

end Report

/-! ### Expanding the sites -/

/-- Each line that is not empty behind an indentation, with line feeds between the lines. -/
def indentLines (indent t : Text) : Text :=
  Text.join ['\n'] (t.lines.map fun line => if line.isEmpty then [] else indent ++ line)

/-- The edit that takes an attribute away: with its line if it stands alone there, and otherwise with
the spaces and tabs behind it. -/
def removal (source : Text) (s : Site) : Except Refusal Edit := do
  let before ← slice source 0 s.start
  let behind ← slice source s.stop source.byteSize
  let head := lastLine before
  let tail := firstLine behind
  if head.blank && tail.blank then
    return {
      start := s.start - head.byteSize
      stop := min (s.stop + tail.byteSize + 1) source.byteSize
      replacement := [] }
  else
    return {
      start := s.start
      stop := s.stop + Text.byteSize (tail.takeWhile isIndent)
      replacement := [] }

/-- The edit that puts a peer behind its declaration. -/
def insertion (s : Site) (peer : Text) : Edit :=
  { start := s.declarationStop
    stop := s.declarationStop
    replacement := "\n\n".toList ++ indentLines s.indent peer }

/-- The text of the peer of a site. -/
def Site.peer (style : Style) (s : Site) : Except Refusal Text := do
  let p ← Peer.of (← s.declaration) s.generator.suspension style
  return p.render style.indent

/-- What becomes of a site. -/
def Site.outcome (style : Style) (s : Site) : Outcome :=
  { line := s.line
    column := s.column
    generator := s.generator
    function := (s.declaration.toOption.bind Declaration.signature?).map Signature.name
    status :=
      match s.peer style with
      | .ok peer => .expanded peer
      | .error r => .failed r }

/-- The edits that expand a site. -/
def Site.edits (source : Text) (style : Style) (keepAttributes : Bool) (s : Site) :
    Except Refusal (List Edit) :=
  match s.peer style with
  | .error _ => .ok []
  | .ok peer =>
    if keepAttributes then .ok [insertion s peer]
    else do return [← removal source s, insertion s peer]

/-- The expansion of a source with its syntax tree. -/
def expand (source : Text) (tree : Node) (style : Style) (keepAttributes : Bool) :
    Except Refusal Report := do
  let found ← sites source tree
  let edits ← found.mapM (Site.edits source style keepAttributes)
  return {
    output := ← Edit.applyAll edits.flatten source
    outcomes := found.map (Site.outcome style) }

end AsyncPeer.Source
