/-
# Numerals and their range

Digits of positional numerals and the numbers they stand for, and the range of double precision.

A decimal number is out of range when the nearest double precision number is infinite.  The largest
finite one is 2^1024 - 2^971, and everything from the middle between it and 2^1024 upwards rounds to
infinity.  All of this is decided in exact arithmetic on natural numbers.
-/
import AsyncPeer.Text.Basic

namespace AsyncPeer.Number

/-! ### Digits -/

/-- The value of a digit, where the letters of either case follow the decimal digits. -/
def digitValue? (c : Char) : Option Nat :=
  if c.isDigit then some (c.toNat - '0'.toNat)
  else if 'a' ≤ c ∧ c ≤ 'z' then some (c.toNat - 'a'.toNat + 10)
  else if 'A' ≤ c ∧ c ≤ 'Z' then some (c.toNat - 'A'.toNat + 10)
  else none

/-- The value of a digit that exists in the given base. -/
def digit? (base : Nat) (c : Char) : Option Nat :=
  (digitValue? c).filter (· < base)

/-- The number that a non-empty run of digits stands for. -/
def read? (base : Nat) (t : Text) : Option Nat :=
  if t.isEmpty then none
  else t.foldl (fun n c => n.bind fun n => (digit? base c).map (n * base + ·)) (some 0)

/-- The number that a run of decimal digits stands for; other characters are passed over. -/
def decimal (t : Text) : Nat :=
  t.foldl (fun n c => n * 10 + (digit? 10 c).getD 0) 0

/-- The decimal digits of a number. -/
def digits (n : Nat) : Text :=
  Nat.toDigits 10 n

/-! ### The range of double precision -/

/-- The smallest number that rounds to infinity. -/
def doubleBound : Nat :=
  Nat.pow 2 1024 - Nat.pow 2 970

/-- A natural number rounded to the given number of binary digits; a half goes to the even
neighbour. -/
def roundBits (bits n : Nat) : Nat :=
  let size := n.log2 + 1
  if n = 0 ∨ size ≤ bits then n
  else
    let unit := Nat.pow 2 (size - bits)
    let q := n / unit
    let r := n % unit
    let up := 2 * r > unit || (2 * r == unit && q % 2 == 1)
    (if up then q + 1 else q) * unit

/-- The number `significand * 10 ^ exponent` rounds to infinity.  Far from the bound its number of
digits in front of the point settles the question. -/
def exceedsDouble (significand : Nat) (exponent : Int) : Bool :=
  let size : Int := (digits significand).length + exponent
  if significand = 0 ∨ size < 300 then false
  else if 400 < size then true
  else
    match exponent with
    | .ofNat e => decide (doubleBound ≤ significand * Nat.pow 10 e)
    | .negSucc e => decide (doubleBound * Nat.pow 10 (e + 1) ≤ significand)

/-- The product of the two roundings of `significand` and of `10 ^ exponent` rounds to infinity, or
the power alone is beyond the largest power of ten in range. -/
def productExceedsDouble (significand : Nat) (exponent : Int) : Bool :=
  if significand = 0 then false
  else
    match exponent with
    | .ofNat e =>
      decide (308 < e) ||
        decide (doubleBound ≤ roundBits 53 significand * roundBits 53 (Nat.pow 10 e))
    | .negSucc _ => false

end AsyncPeer.Number
