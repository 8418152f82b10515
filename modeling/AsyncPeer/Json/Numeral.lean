/-
# JSON numerals

The grammar of JSON numbers, and the range in which a number is accepted.  The decimal digits of a
number are gathered in a significand of at most 64 bits.  Digits that no longer fit are dropped:
those of the integer part count as zeros, those of the fraction do not count.  The number is out of
range when the significand times its power of ten is.
-/
import AsyncPeer.Number

namespace AsyncPeer.Json

/-- The parts of a JSON number. -/
structure Numeral where
  /-- A minus sign is written. -/
  negative : Bool
  /-- The digits of the integer part. -/
  whole : Text
  /-- The digits of the fraction. -/
  fraction : Text
  /-- The exponent. -/
  exponent : Int
deriving DecidableEq, Repr

namespace Numeral

/-- The digits at the beginning of a text, of which there has to be at least one, and the rest. -/
def readDigits? (t : Text) : Option (Text × Text) :=
  let ds := t.takeWhile Char.isDigit
  if ds.isEmpty then none else some (ds, t.dropWhile Char.isDigit)

/-- The exponent that makes up the rest of a number. -/
def readExponent? : Text → Option Int
  | [] => some 0
  | c :: cs =>
    if c = 'e' ∨ c = 'E' then
      let (negative, cs) :=
        match cs with
        | '-' :: cs => (true, cs)
        | '+' :: cs => (false, cs)
        | _ => (false, cs)
      match readDigits? cs with
      | some (ds, []) =>
        let n : Int := Number.decimal ds
        some (if negative then -n else n)
      | _ => none
    else none

/-- The number that a text spells.  The integer part has no needless zero in front, and there is a
digit behind the point. -/
def read? (t : Text) : Option Numeral := do
  let (negative, t) :=
    match t with
    | '-' :: cs => (true, cs)
    | _ => (false, t)
  let (whole, t) ← readDigits? t
  if 1 < whole.length && whole.head? == some '0' then none
  else
    let (fraction, t) ←
      match t with
      | '.' :: cs => readDigits? cs
      | _ => some ([], t)
    let exponent ← readExponent? t
    return { negative, whole, fraction, exponent }

/-- The significand grown by digits as long as it stays below 2^64, and the digits that no longer
fit. -/
def gather (significand : Nat) : Text → Nat × Text
  | [] => (significand, [])
  | c :: cs =>
    let next := significand * 10 + Number.decimal [c]
    if next < Nat.pow 2 64 then gather next cs else (significand, c :: cs)

/-- The number is not infinite in double precision. -/
def inRange (n : Numeral) : Bool :=
  let (whole, dropped) := gather 0 n.whole
  let (all, unread) := gather whole n.fraction
  let kept : Int := (n.fraction.length - unread.length : Nat)
  !Number.productExceedsDouble all (dropped.length - kept + n.exponent)

end Numeral

end AsyncPeer.Json
