import StaticSite.Binary64
import StaticSite.Text.Taken

/-!
# Reading decimals

This file turns decimal digits with an exponent into the nearest float, and digit characters into
numbers.
-/

namespace StaticSite
namespace Decimal

open Binary64

/-- Value of a digit of a base up to sixteen. -/
def digit? (c : Char) : Option Nat :=
  if '0' ≤ c && c ≤ '9' then some (c.toNat - '0'.toNat)
  else if 'a' ≤ c && c ≤ 'f' then some (c.toNat - 'a'.toNat + 10)
  else if 'A' ≤ c && c ≤ 'F' then some (c.toNat - 'A'.toNat + 10)
  else none

/-- Value of digit characters that follow a number already read. -/
def digitsFrom? (base : Nat) : Nat → List Char → Option Nat
  | value, [] => some value
  | value, c :: rest =>
      match digit? c with
      | some digit =>
          if digit < base then digitsFrom? base (value * base + digit) rest else none
      | none => none

/-- Value of one or more digits of the base. -/
def digits? (base : Nat) (chars : List Char) : Option Nat :=
  if chars.isEmpty then none else digitsFrom? base 0 chars

/-- Value of decimal digits; a character that is none counts as zero. -/
def value (chars : List Char) : Nat :=
  chars.foldl (fun sum c => sum * 10 + (digit? c).getD 0) 0

/-- Whether an integer fits 64 bits with a sign. -/
def fitsInt64 (value : Int) : Bool :=
  Int64.minValue.toInt ≤ value && value ≤ Int64.maxValue.toInt

/-- The float nearest to `digits · 10 ^ exponent` with the given sign.  Numbers far outside the
range of floats are settled by their count of digits alone. -/
def toFloat (negative : Bool) (digits : Nat) (exponent : Int) : Float :=
  let size := (toString digits).length
  if digits == 0 || exponent + size < -400 then ofRatio negative 0 1
  else if 400 < exponent + size then infinity negative
  else if 0 ≤ exponent then ofRatio negative (digits * Nat.pow 10 exponent.natAbs) 1
  else ofRatio negative digits (Nat.pow 10 exponent.natAbs)

/-- Whether a minus sign comes first, and what follows the sign if there is one. -/
def splitSign : List Char → Bool × List Char
  | '+' :: rest => (false, rest)
  | '-' :: rest => (true, rest)
  | chars => (false, chars)

theorem length_splitSign_le (chars : List Char) : (splitSign chars).2.length ≤ chars.length := by
  unfold splitSign
  split <;> simp

/-- A decimal numeral: digits, and maybe a fraction and an exponent. -/
structure Numeral where
  whole : List Char
  fraction : Option (List Char)
  /-- Whether the exponent is negative, and its digits. -/
  exponent : Option (Bool × List Char)
  deriving DecidableEq, Repr

namespace Numeral

def isFloat (numeral : Numeral) : Bool :=
  numeral.fraction.isSome || numeral.exponent.isSome

/-- The exponent as a number. -/
def scale (numeral : Numeral) : Int :=
  match numeral.exponent with
  | none => 0
  | some (true, digits) => -(value digits : Int)
  | some (false, digits) => value digits

/-- The float nearest to the numeral with the given sign. -/
def toFloat (negative : Bool) (numeral : Numeral) : Float :=
  let fraction := numeral.fraction.getD []
  Decimal.toFloat negative (value (numeral.whole ++ fraction)) (numeral.scale - fraction.length)

end Numeral

/-- Read a float: a sign, digits with at most one point among them and at least one digit, and
maybe an exponent.  Nothing may follow. -/
def float? (chars : List Char) : Option Float :=
  let (negative, chars) := splitSign chars
  let (whole, rest) := Text.splitWhile Char.isDigit chars
  let (fraction, rest) :=
    match rest with
    | '.' :: rest => Text.splitWhile Char.isDigit rest
    | _ => ([], rest)
  if whole.isEmpty && fraction.isEmpty then none
  else
    let number (exponent : Option (Bool × List Char)) : Float :=
      Numeral.toFloat negative ⟨whole, some fraction, exponent⟩
    match rest with
    | [] => some (number none)
    | e :: rest =>
        if e == 'e' || e == 'E' then
          let (negative, digits) := splitSign rest
          if !digits.isEmpty && digits.all Char.isDigit then some (number (some (negative, digits)))
          else none
        else none

end Decimal
end StaticSite
