import StaticSite.Binary64

/-!
# The shortest decimal of a float

This file finds the fewest digits that read back as a given float, the nearest of those, and lays
digits out as text.  Both neighbours of the value on each decimal grid are tried, from one digit
up to seventeen; a grid has a point in the float's rounding interval only if one of the two
neighbours lies in it.
-/

namespace StaticSite
namespace Decimal

open Binary64

/-- Which of two equally near candidates is taken. -/
inductive Tie where
  | up
  | even
  deriving DecidableEq, Repr

/-- A positive decimal `digits · 10 ^ exponent`. -/
structure Scientific where
  digits : Nat
  exponent : Int
  deriving DecidableEq, Repr

/-- The reals that round to a float, counted in quarters of its last place. -/
structure Interval where
  low : Nat
  value : Nat
  high : Nat
  /-- Whether the two ends round to the float as well. -/
  closed : Bool

/-- The rounding interval of `significand · 2 ^ exponent`.  Just above a power of two the floats
below lie half as far apart. -/
def Interval.ofFinite (significand : Nat) (exponent : Int) : Interval where
  low :=
    if significand == Nat.pow 2 52 && leastExponent < exponent then 4 * significand - 1
    else 4 * significand - 2
  value := 4 * significand
  high := 4 * significand + 2
  closed := significand % 2 == 0

/-- Whether a count of quarters lies in the interval, both given over one denominator. -/
def Interval.holds (interval : Interval) (numerator denominator : Nat) : Bool :=
  if interval.closed then
    interval.low * denominator ≤ numerator && numerator ≤ interval.high * denominator
  else
    interval.low * denominator < numerator && numerator < interval.high * denominator

/-- `10 ^ exponent` as a fraction. -/
def powerOfTen (exponent : Int) : Nat × Nat :=
  if 0 ≤ exponent then (Nat.pow 10 exponent.natAbs, 1) else (1, Nat.pow 10 exponent.natAbs)

/-- The point of the grid `10 ^ grid` that is nearest to the value among its two neighbours in the
interval.  The value is `interval.value · 2 ^ (exponent - 2)`. -/
def onGrid? (tie : Tie) (interval : Interval) (exponent grid : Int) : Option Scientific :=
  let (tenUp, tenDown) := powerOfTen grid
  let (up, down) := scaled 1 1 (exponent - 2)
  -- one step of the grid is `step / unit` quarters
  let step := tenUp * down
  let unit := tenDown * up
  let below := interval.value * unit / step
  let above := below + 1
  let belowHolds := 0 < below && interval.holds (below * step) unit
  let aboveHolds := interval.holds (above * step) unit
  let toBelow := interval.value * unit - below * step
  let toAbove := above * step - interval.value * unit
  if belowHolds && aboveHolds then
    let takeBelow :=
      toBelow < toAbove ||
        (toBelow == toAbove &&
          match tie with
          | .up => false
          | .even => below % 2 == 0)
    some ⟨if takeBelow then below else above, grid⟩
  else if belowHolds then some ⟨below, grid⟩
  else if aboveHolds then some ⟨above, grid⟩
  else none

/-- The greatest `e` with `10 ^ e` at most a positive fraction, found from its size in bits. -/
def log10Ratio (numerator denominator : Nat) : Int :=
  let guess := log2Ratio numerator denominator * 1233 / 4096
  let reaches (e : Int) : Bool :=
    let (up, down) := powerOfTen e
    denominator * up ≤ numerator * down
  if reaches (guess + 1) then guess + 1 else if reaches guess then guess else guess - 1

/-- Try grids of the given number of digits and more. -/
def shortestFrom (tie : Tie) (interval : Interval) (exponent lead : Int) :
    Nat → Nat → Scientific
  | 0, _ => ⟨0, 0⟩
  | tries + 1, count =>
      (onGrid? tie interval exponent (lead - count + 1)).getD
        (shortestFrom tie interval exponent lead tries (count + 1))

/-- Drop the zeros at the end of the digits. -/
def Scientific.stripped (number : Scientific) : Nat → Scientific
  | 0 => number
  | tries + 1 =>
      if number.digits % 10 == 0 && number.digits != 0 then
        Scientific.stripped ⟨number.digits / 10, number.exponent + 1⟩ tries
      else number

/-- The fewest digits that read back as `significand · 2 ^ exponent`, for a positive value. -/
def shortest (tie : Tie) (significand : Nat) (exponent : Int) : Scientific :=
  let (up, down) := scaled significand 1 exponent
  let lead := log10Ratio up down
  (shortestFrom tie (.ofFinite significand exponent) exponent lead 17 1).stripped 17

/-- Digits with a point before the last `places`, always with a digit on both sides. -/
def pointed (digits : String) (places : Nat) : String :=
  let padded := String.ofList (List.replicate (places + 1 - digits.length) '0') ++ digits
  let whole := padded.length - places
  String.ofList (padded.toList.take whole) ++ "." ++ String.ofList (padded.toList.drop whole)

/-- Positional notation, with `.0` after an integral number. -/
def Scientific.positional (number : Scientific) : String :=
  let digits := toString number.digits
  if 0 ≤ number.exponent then
    digits ++ String.ofList (List.replicate number.exponent.natAbs '0') ++ ".0"
  else pointed digits number.exponent.natAbs

/-- The exponent of the leading digit. -/
def Scientific.lead (number : Scientific) : Int :=
  number.exponent + ((toString number.digits).length - 1 : Nat)

/-- One digit before the point, the others after it, and an exponent with the given sign in front
if it is not negative. -/
def Scientific.exponential (plus : String) (number : Scientific) : String :=
  let digits := toString number.digits
  let places := digits.length - 1
  let front := if places == 0 then digits else pointed digits places
  front ++ "e" ++ (if 0 ≤ number.lead then plus else "") ++ toString number.lead

/-- How a finite float is written. -/
structure Style where
  tie : Tie
  /-- Whether a number with this exponent of its leading digit is written positionally. -/
  isPositional : Int → Bool
  /-- What stands in front of an exponent that is not negative. -/
  plus : String

/-- The text of `± significand · 2 ^ exponent`. -/
def Style.write (style : Style) (negative : Bool) (significand : Nat) (exponent : Int) : String :=
  let sign := if negative then "-" else ""
  if significand == 0 then sign ++ "0.0"
  else
    let number := shortest style.tie significand exponent
    sign ++ if style.isPositional number.lead then number.positional else number.exponential style.plus

end Decimal
end StaticSite
