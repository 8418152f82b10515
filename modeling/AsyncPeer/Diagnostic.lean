/-
# Diagnostics

The lines in which a run reports failed sites and its tally, and the question whether they are
coloured.
-/
import AsyncPeer.Number
import AsyncPeer.Source.Expansion

namespace AsyncPeer

/-- When diagnostics are coloured. -/
inductive ColorMode where
  /-- On a terminal. -/
  | auto
  | always
  | never
deriving DecidableEq, Repr

/-- What the surroundings of a run say about colours. -/
structure Surroundings where
  /-- The variable `NO_COLOR`. -/
  noColor : Option Text := none
  /-- The variable `CLICOLOR`. -/
  cliColor : Option Text := none
  /-- The variable `CLICOLOR_FORCE`. -/
  cliColorForce : Option Text := none
  /-- The variable `TERM`. -/
  term : Option Text := none
  /-- Diagnostics are written to a terminal. -/
  isTerminal : Bool := false
deriving DecidableEq, Repr

namespace ColorMode

/-- The mode after the variables that overrule the automatic one: `NO_COLOR` with any value forbids
colours, `CLICOLOR_FORCE=1` demands them, `CLICOLOR=0` forbids them, in this order. -/
def resolve (e : Surroundings) : ColorMode → ColorMode
  | auto =>
    if e.noColor.isSome then never
    else if e.cliColorForce == some ['1'] then always
    else if e.cliColor == some ['0'] then never
    else auto
  | mode => mode

/-- The mode colours diagnostics. -/
def isColored (e : Surroundings) : ColorMode → Bool
  | always => true
  | never => false
  | auto => e.term != some "dumb".toList && e.isTerminal

end ColorMode

namespace Diagnostic

/-- The text between the control sequence with the given code and the one that resets it. -/
def paint (colored : Bool) (code : String) (t : Text) : Text :=
  if colored then '\x1b' :: '[' :: code.toList ++ 'm' :: t ++ "\x1b[0m".toList else t

/-- Bold. -/
def bold (colored : Bool) (t : Text) : Text :=
  paint colored "1" t

/-- Dimmed. -/
def dim (colored : Bool) (t : Text) : Text :=
  paint colored "2" t

/-- Bold and red. -/
def alarm (colored : Bool) (t : Text) : Text :=
  paint colored "1;31" t

/-- Green. -/
def calm (colored : Bool) (t : Text) : Text :=
  paint colored "32" t

/-- The line for a failed site: `path:line:column: error: message [@Generator]`. -/
def line? (colored : Bool) (path : Text) (o : Source.Outcome) : Option Text :=
  o.failure?.map fun r =>
    let location := path ++ ':' :: Number.digits o.line ++ ':' :: Number.digits o.column ++ [':']
    bold colored location ++ ' ' :: alarm colored "error:".toList ++ ' ' :: r.message ++
      ' ' :: dim colored ('[' :: o.generator.written ++ [']'])

/-- The tally of a run. -/
def summary (colored : Bool) (expanded failed : Nat) : Text :=
  let t := Number.digits expanded ++ " expanded, ".toList ++ Number.digits failed ++
    " failed".toList
  if 0 < failed then alarm colored t else calm colored t

end Diagnostic

end AsyncPeer
