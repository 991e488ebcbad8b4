/-!
# Binary floating point numbers

This file reads a 64-bit float as an exact multiple of a power of two, rounds an exact fraction to
the nearest float, and takes remainders.  Everything between the two bit patterns is arithmetic on
natural numbers.
-/

namespace StaticSite
namespace Binary64

/-- What a bit pattern stands for. -/
inductive Datum where
  /-- `± significand · 2 ^ exponent`. -/
  | finite (negative : Bool) (significand : Nat) (exponent : Int)
  | infinite (negative : Bool)
  | notANumber
  deriving DecidableEq, Repr

def leastExponent : Int := -1074

/-- Read the sign, the eleven exponent bits and the fifty-two fraction bits. -/
def Datum.ofFloat (x : Float) : Datum :=
  let bits := x.toBits.toNat
  let negative := bits / Nat.pow 2 63 == 1
  let biased : Nat := bits / Nat.pow 2 52 % Nat.pow 2 11
  let fraction : Nat := bits % Nat.pow 2 52
  if biased == 2047 then
    if fraction == 0 then .infinite negative else .notANumber
  else if biased == 0 then .finite negative fraction leastExponent
  else .finite negative (Nat.pow 2 52 + fraction) ((biased : Int) + leastExponent - 1)

/-- The integer nearest to a fraction; a half goes to the even neighbour. -/
def roundRatio (numerator denominator : Nat) : Nat :=
  let quotient := numerator / denominator
  let twice := 2 * (numerator % denominator)
  if twice < denominator then quotient
  else if denominator < twice then quotient + 1
  else quotient + quotient % 2

/-- `numerator / denominator · 2 ^ exponent` as a fraction. -/
def scaled (numerator denominator : Nat) (exponent : Int) : Nat × Nat :=
  if 0 ≤ exponent then (numerator * Nat.pow 2 exponent.natAbs, denominator)
  else (numerator, denominator * Nat.pow 2 exponent.natAbs)

/-- The greatest `e` with `2 ^ e` at most a positive fraction. -/
def log2Ratio (numerator denominator : Nat) : Int :=
  let guess : Int := numerator.log2 - denominator.log2
  let (low, high) := scaled numerator denominator (-guess)
  if high ≤ low then guess else guess - 1

def infinityBits : Nat := 2047 * Nat.pow 2 52

/-- Bit pattern of the float nearest to a fraction that is not negative.  The fraction is counted
in units of the float's last place; a count that reaches the next power of two carries into the
exponent bits by itself. -/
def bitsOfRatio (numerator denominator : Nat) : Nat :=
  if numerator == 0 then 0
  else
    let exponent := max (log2Ratio numerator denominator - 52) leastExponent
    let (low, high) := scaled numerator denominator (-exponent)
    min ((exponent - leastExponent).toNat * Nat.pow 2 52 + roundRatio low high) infinityBits

/-- The float nearest to a fraction with the given sign. -/
def ofRatio (negative : Bool) (numerator denominator : Nat) : Float :=
  let bits := bitsOfRatio numerator denominator
  Float.ofBits (UInt64.ofNat (if negative then bits + Nat.pow 2 63 else bits))

def notANumber : Float :=
  Float.ofBits (UInt64.ofNat (infinityBits + Nat.pow 2 51))

def infinity (negative : Bool) : Float :=
  Float.ofBits (UInt64.ofNat (if negative then infinityBits + Nat.pow 2 63 else infinityBits))

/-- The exact remainder of a division whose quotient is cut toward zero.  It has the sign of the
dividend. -/
def remainder (dividend divisor : Float) : Float :=
  match Datum.ofFloat dividend, Datum.ofFloat divisor with
  | .finite negative a p, .finite _ b q =>
      if b == 0 then notANumber
      else
        let least := min p q
        let rest := a * Nat.pow 2 (p - least).natAbs % (b * Nat.pow 2 (q - least).natAbs)
        let (numerator, denominator) := scaled rest 1 least
        ofRatio negative numerator denominator
  | .finite .., .infinite _ => dividend
  | _, _ => notANumber

end Binary64
end StaticSite
