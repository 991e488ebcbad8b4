import StaticSite.Decimal.Reading
import StaticSite.Json.Basic

/-!
# JSON numerals

This file reads the numerals of JSON.  Digits are gathered while they fit 64 bits, and the rest
only moves the point; the gathered number is then scaled by one power of ten in float arithmetic.
A numeral with more digits than fit may thus miss the nearest float by a place.
-/

namespace StaticSite
namespace Json
namespace Numeral

/-- The greatest number of gathered digits. -/
def bound : Nat := UInt64.size - 1

/-- Gather digits while they fit: the number, how many digits were taken, and the others. -/
def gather (number count : Nat) : List Char → Nat × Nat × List Char
  | [] => (number, count, [])
  | c :: rest =>
      let next := number * 10 + (c.toNat - '0'.toNat)
      if bound < next then (number, count, c :: rest) else gather next (count + 1) rest

/-- Divide by a power of ten, at most `10 ^ 308` at a time. -/
def scaleDown (value : Float) (exponent : Nat) : Float :=
  if exponent ≤ 308 then value / Decimal.toFloat false 1 exponent
  else if value == 0 then value
  else scaleDown (value / Decimal.toFloat false 1 308) (exponent - 308)
termination_by exponent
decreasing_by omega

/-- A gathered number times a power of ten; none if it is too great for a float. -/
def scale? (number : Nat) (exponent : Int) : Option Float :=
  let value := number.toUInt64.toFloat
  if exponent < 0 then some (scaleDown value exponent.natAbs)
  else if 308 < exponent then if value == 0 then some value else none
  else
    let product := value * Decimal.toFloat false 1 exponent
    if product.isInf then none else some product

/-- The greatest exponent that is counted. -/
def exponentBound : Nat := Nat.pow 2 31 - 1

/-- The float of a numeral with the given digits, of which the fraction may be empty. -/
def float? (whole fraction : List Char) (exponent : Option (Bool × List Char)) : Option Float := do
  let (number, _, dropped) := gather 0 0 whole
  let (number, taken, _) := gather number 0 fraction
  let point : Int := (dropped.length : Int) - taken
  match exponent with
  | none => scale? number point
  | some (negative, digits) =>
      let size := Decimal.value digits
      if exponentBound < size then if number == 0 || negative then some 0 else none
      else
        let sum := if negative then point - size else point + size
        scale? number (max (-(exponentBound : Int) - 1) (min exponentBound sum))

/-- The tree of a numeral without fraction and exponent.  Minus zero, and what fits no integer of
64 bits, is a float. -/
def integer? (negative : Bool) (whole : List Char) : Option Json :=
  let number := Decimal.value whole
  if bound < number then
    (float? whole [] none).map fun value => .float (if negative then -value else value)
  else if !negative then some (.integer number)
  else if 0 < number && number ≤ Nat.pow 2 63 then some (.integer (-(number : Int)))
  else some (.float (-number.toUInt64.toFloat))

/-- The whole part: a zero alone, or digits that start with another. -/
def whole? (chars : List Char) : Option (List Char × List Char) :=
  match chars with
  | '0' :: rest =>
      match rest with
      | c :: _ => if c.isDigit then none else some (['0'], rest)
      | [] => some (['0'], [])
  | c :: rest =>
      if c.isDigit then
        let (digits, rest) := Text.splitWhile Char.isDigit rest
        some (c :: digits, rest)
      else none
  | [] => none

/-- The fraction, if a point follows; it needs a digit. -/
def fraction? (chars : List Char) : Option (Option (List Char) × List Char) :=
  match chars with
  | '.' :: rest =>
      let (digits, rest) := Text.splitWhile Char.isDigit rest
      if digits.isEmpty then none else some (some digits, rest)
  | _ => some (none, chars)

/-- The exponent, if a letter for it follows; it needs a digit. -/
def exponent? (chars : List Char) : Option (Option (Bool × List Char) × List Char) :=
  match chars with
  | e :: rest =>
      if e == 'e' || e == 'E' then
        let (negative, rest) := Decimal.splitSign rest
        let (digits, rest) := Text.splitWhile Char.isDigit rest
        if digits.isEmpty then none else some (some (negative, digits), rest)
      else some (none, chars)
  | [] => some (none, [])

/-- Read a numeral after its sign. -/
def read? (negative : Bool) (chars : List Char) : Option (Json × List Char) := do
  let (whole, rest) ← whole? chars
  let (fraction, rest) ← fraction? rest
  let (exponent, rest) ← exponent? rest
  if fraction.isNone && exponent.isNone then
    let tree ← integer? negative whole
    pure (tree, rest)
  else
    let value ← float? whole (fraction.getD []) exponent
    pure (.float (if negative then -value else value), rest)

theorem length_whole?_lt {chars digits rest : List Char}
    (found : whole? chars = some (digits, rest)) : rest.length < chars.length := by
  unfold whole? at found
  split at found
  · next after =>
    cases after with
    | nil =>
        simp only [Option.some.injEq, Prod.mk.injEq] at found
        simp [← found.2]
    | cons c more =>
        simp only at found
        split at found
        · simp at found
        · simp only [Option.some.injEq, Prod.mk.injEq] at found
          simp [← found.2]
  · next after _ =>
    have := Text.length_splitWhile_le Char.isDigit after
    simp only at found
    split at found
    · simp only [Option.some.injEq, Prod.mk.injEq] at found
      rw [← found.2, List.length_cons]
      omega
    · simp at found
  · simp at found

theorem length_fraction?_le {chars rest : List Char} {digits : Option (List Char)}
    (found : fraction? chars = some (digits, rest)) : rest.length ≤ chars.length := by
  unfold fraction? at found
  split at found
  · next after =>
    have := Text.length_splitWhile_le Char.isDigit after
    simp only at found
    split at found
    · simp at found
    · simp only [Option.some.injEq, Prod.mk.injEq] at found
      rw [← found.2, List.length_cons]
      omega
  · simp only [Option.some.injEq, Prod.mk.injEq] at found
    exact Nat.le_of_eq (congrArg List.length found.2.symm)

theorem length_exponent?_le {chars rest : List Char} {exponent : Option (Bool × List Char)}
    (found : exponent? chars = some (exponent, rest)) : rest.length ≤ chars.length := by
  unfold exponent? at found
  split at found
  · next after =>
    split at found
    · simp only at found
      split at found
      · simp at found
      · simp only [Option.some.injEq, Prod.mk.injEq] at found
        have digits := Text.length_splitWhile_le Char.isDigit (Decimal.splitSign after).2
        have sign := Decimal.length_splitSign_le after
        rw [← found.2, List.length_cons]
        omega
    · simp only [Option.some.injEq, Prod.mk.injEq] at found
      exact Nat.le_of_eq (congrArg List.length found.2.symm)
  · simp only [Option.some.injEq, Prod.mk.injEq] at found
    simp [← found.2]

theorem length_read?_lt {negative : Bool} {chars rest : List Char} {tree : Json}
    (found : read? negative chars = some (tree, rest)) : rest.length < chars.length := by
  unfold read? at found
  simp only [Option.bind_eq_bind, Option.bind_eq_some_iff, Prod.exists] at found
  obtain ⟨digits, afterWhole, whole, fraction, afterFraction, hfraction, exponent, afterExponent,
    hexponent, last⟩ := found
  have first := length_whole?_lt whole
  have second := length_fraction?_le hfraction
  have third := length_exponent?_le hexponent
  have same : afterExponent = rest := by
    split at last
    · simp only [Option.bind_eq_some_iff, Option.pure_def, Option.some.injEq,
        Prod.mk.injEq] at last
      obtain ⟨_, _, _, eq⟩ := last
      exact eq
    · simp only [Option.bind_eq_some_iff, Option.pure_def, Option.some.injEq,
        Prod.mk.injEq] at last
      obtain ⟨_, _, _, eq⟩ := last
      exact eq
  rw [← same]
  omega

end Numeral
end Json
end StaticSite
