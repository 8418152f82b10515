/-
# TOML scalars

Numbers, truth values, dates and times: the values that are written without quotes and brackets.
-/
import AsyncPeer.Toml.Value

namespace AsyncPeer.Toml

/-! ### Numbers -/

/-- The digits of a number with single underscores between digits, without the underscores. -/
def readDigits? (base : Nat) (t : Text) : Option Text :=
  let groups := t.fields (· == '_')
  if groups.all fun g => !g.isEmpty && g.all fun c => (Number.digit? base c).isSome then
    some groups.flatten
  else none

/-- The sign and the rest. -/
def readSign (t : Text) : Bool × Text :=
  match t with
  | '-' :: cs => (true, cs)
  | '+' :: cs => (false, cs)
  | _ => (false, t)

/-- Decimal digits without a needless zero in front. -/
def readWhole? (t : Text) : Option Text :=
  (readDigits? 10 t).filter fun ds => ds.length == 1 || ds.head? != some '0'

/-- An integer, in one of the four bases.  Only decimal numbers have a sign. -/
def readInteger? (t : Text) : Option Int :=
  let based (base : Nat) (t : Text) : Option Int :=
    ((readDigits? base t).bind (Number.read? base)).map Int.ofNat
  match t with
  | '0' :: 'x' :: cs => based 16 cs
  | '0' :: 'o' :: cs => based 8 cs
  | '0' :: 'b' :: cs => based 2 cs
  | _ =>
    let (negative, cs) := readSign t
    (readWhole? cs).map fun ds =>
      let n : Int := Number.decimal ds
      if negative then -n else n

/-- The exponent of a floating point number. -/
def readExponent? (t : Text) : Option Int :=
  let (negative, cs) := readSign t
  (readDigits? 10 cs).map fun ds =>
    let n : Int := Number.decimal ds
    if negative then -n else n

/-- A floating point number, which has a fraction or an exponent or is one of the named ones. -/
def readFloat? (t : Text) : Option Value := do
  let (_, t) := readSign t
  if t == "inf".toList || t == "nan".toList then
    return .float 0 0
  let isMark : Char → Bool := fun c => c == 'e' || c == 'E'
  let mantissa := t.takeWhile (!isMark ·)
  let exponent ←
    match t.dropWhile (!isMark ·) with
    | [] => some none
    | _ :: cs => (readExponent? cs).map some
  let whole ← readWhole? (mantissa.takeWhile (· != '.'))
  let fraction ←
    match mantissa.dropWhile (· != '.') with
    | [] => some none
    | _ :: cs => (readDigits? 10 cs).map some
  if exponent.isNone && fraction.isNone then none
  else
    let fraction := fraction.getD []
    return .float (Number.decimal (whole ++ fraction)) (exponent.getD 0 - fraction.length)

/-! ### Dates and times -/

/-- The number written with exactly the given number of decimal digits, and the rest. -/
def readFixed? (count : Nat) (t : Text) : Option (Nat × Text) :=
  if (t.take count).length = count && (t.take count).all Char.isDigit then
    some (Number.decimal (t.take count), t.drop count)
  else none

/-- The number of days of a month. -/
def daysIn (year month : Nat) : Nat :=
  if month = 2 then
    if year % 4 = 0 ∧ (year % 100 ≠ 0 ∨ year % 400 = 0) then 29 else 28
  else if month = 4 ∨ month = 6 ∨ month = 9 ∨ month = 11 then 30
  else 31

/-- What follows a date. -/
def afterDate? (t : Text) : Option Text := do
  let (year, t) ← readFixed? 4 t
  let (month, t) ← readFixed? 2 (← t.after? ['-'])
  let (day, t) ← readFixed? 2 (← t.after? ['-'])
  if 1 ≤ month && month ≤ 12 && 1 ≤ day && day ≤ daysIn year month then some t else none

/-- What follows the seconds of a time, which may be left out and may have a fraction. -/
def afterSeconds? (t : Text) : Option Text :=
  match t with
  | ':' :: cs =>
    match readFixed? 2 cs with
    | some (second, '.' :: ds) =>
      if second ≤ 60 && (ds.head?.any Char.isDigit) then some (ds.dropWhile Char.isDigit) else none
    | some (second, rest) => if second ≤ 60 then some rest else none
    | none => none
  | _ => some t

/-- What follows the hours and the minutes. -/
def afterMinutes? (t : Text) : Option Text := do
  let (hour, t) ← readFixed? 2 t
  let (minute, t) ← readFixed? 2 (← t.after? [':'])
  if hour ≤ 23 && minute ≤ 59 then some t else none

/-- What follows a time. -/
def afterTime? (t : Text) : Option Text :=
  (afterMinutes? t).bind afterSeconds?

/-- The text is an offset from universal time, or empty. -/
def isOffset (t : Text) : Bool :=
  match t with
  | [] => true
  | ['Z'] | ['z'] => true
  | '+' :: cs | '-' :: cs => afterMinutes? cs == some []
  | _ => false

/-- The text is a date, a time, or a date with a time. -/
def isMoment (t : Text) : Bool :=
  match afterDate? t with
  | some [] => true
  | some (c :: cs) =>
    (c == 'T' || c == 't' || c == ' ') && (afterTime? cs).any isOffset
  | none => afterTime? t == some []

/-- The value that a text without quotes and brackets spells. -/
def readScalar? (t : Text) : Option Value :=
  if t == "true".toList then some (.bool true)
  else if t == "false".toList then some (.bool false)
  else
    match readInteger? t with
    | some n => some (.integer n)
    | none =>
      match readFloat? t with
      | some v => some v
      | none => if isMoment t then some .moment else none

end AsyncPeer.Toml
