import StaticSite.Decimal.Reading
import StaticSite.RenderError

/-!
# Numbers

This file gives arithmetic on integers of 64 bits and floats.  Integer arithmetic wraps around;
as soon as one operand is a float the other is turned into one.
-/

namespace StaticSite

inductive Number where
  | integer (value : Int64)
  | float (value : Float)

namespace Number

/-- The number as a float, rounded to the nearest. -/
def toFloat : Number → Float
  | integer value => value.toFloat
  | float value => value

def plus : Number → Number → Number
  | integer a, integer b => integer (a + b)
  | a, b => float (a.toFloat + b.toFloat)

def minus : Number → Number → Number
  | integer a, integer b => integer (a - b)
  | a, b => float (a.toFloat - b.toFloat)

def times : Number → Number → Number
  | integer a, integer b => integer (a * b)
  | a, b => float (a.toFloat * b.toFloat)

/-- Quotient; of integers it is cut toward zero. -/
def dividedBy : Number → Number → Except RenderError Number
  | integer a, integer b =>
      if b == 0 then .error (.arithmetic .divisionByZero) else .ok (integer (a / b))
  | a, b => .ok (float (a.toFloat / b.toFloat))

/-- Remainder of a division whose quotient is cut toward zero. -/
def modulo (number : Number) (divisor : Int64) : Except RenderError Number :=
  match number with
  | integer a =>
      if divisor == 0 then .error (.arithmetic .moduloByZero) else .ok (integer (a % divisor))
  | float a => .ok (float (Binary64.remainder a divisor.toFloat))

/-- The number with the other sign. -/
def negated : Number → Number
  | integer a => integer (-a)
  | float a => float (-a)

/-- `product · base ^ exponent` by repeated squaring. -/
def powerFrom (product base : Int64) (exponent : Nat) : Int64 :=
  if exponent = 0 then product
  else
    powerFrom (if exponent % 2 = 1 then product * base else product) (base * base) (exponent / 2)
termination_by exponent
decreasing_by omega

def integerPower (base exponent : Int64) : Except RenderError Int64 :=
  if exponent < 0 then .error (.arithmetic .negativePower)
  else .ok (powerFrom 1 base exponent.toInt.toNat)

def power : Number → Number → Except RenderError Number
  | integer base, integer exponent => integer <$> integerPower base exponent
  | base, exponent => .ok (float (base.toFloat.pow exponent.toFloat))

/-- How near two floats must be to count as equal. -/
def tolerance : Float := Decimal.toFloat false 1 (-8)

def near (a b : Float) : Bool :=
  (a - b).abs < tolerance

def isEqual : Number → Number → Bool
  | integer a, integer b => a == b
  | a, b => near a.toFloat b.toFloat

def isLess : Number → Number → Bool
  | integer a, integer b => a < b
  | a, b => a.toFloat < b.toFloat

def isGreater : Number → Number → Bool
  | integer a, integer b => b < a
  | a, b => b.toFloat < a.toFloat

/-- Whether the first number is less or equal up to the tolerance. -/
def isAtMost (a b : Number) : Bool :=
  a.isLess b || a.isEqual b

/-- Whether the first number is greater or equal up to the tolerance. -/
def isAtLeast (a b : Number) : Bool :=
  a.isGreater b || a.isEqual b

end Number
end StaticSite
