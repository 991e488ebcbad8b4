import StaticSite.Decimal.Reading

/-!
# YAML trees

This file gives YAML trees, their equality, and the meaning of scalars without quotes.
-/

namespace StaticSite

/-- A YAML tree.  The entries of a mapping stand in order. -/
inductive Yaml where
  | null
  | boolean (value : Bool)
  | integer (value : Int)
  | float (value : Float)
  | string (text : String)
  | sequence (items : List Yaml)
  | mapping (entries : List (Yaml × Yaml))
  /-- A tree with a tag of its own, given without its exclamation mark. -/
  | tagged (tag : String) (value : Yaml)
  deriving Inhabited

namespace Yaml

/-! ### Equality -/

/-- Whether two floats are the same number, or both none. -/
def sameFloat (a b : Float) : Bool :=
  a == b || (a.isNaN && b.isNaN)

/-- A tag without one more exclamation mark in front of it. -/
def bareTag (tag : String) : List Char :=
  match tag.toList with
  | '!' :: c :: rest => c :: rest
  | chars => chars

mutual

/-- Whether two trees are equal.  Mappings are compared without regard to order. -/
def isEqual : Yaml → Yaml → Bool
  | null, null => true
  | boolean a, boolean b => a == b
  | integer a, integer b => a == b
  | float a, float b => sameFloat a b
  | string a, string b => a == b
  | sequence a, sequence b => itemsEqual a b
  | mapping a, mapping b => a.length == b.length && entriesAmong b a
  | tagged tag a, tagged other b => bareTag tag == bareTag other && isEqual a b
  | _, _ => false

/-- Whether two sequences have equal items in the same order. -/
def itemsEqual : List Yaml → List Yaml → Bool
  | [], [] => true
  | a :: as, b :: bs => isEqual a b && itemsEqual as bs
  | _, _ => false

/-- Whether each entry, second argument, has an equal one among the others. -/
def entriesAmong (others : List (Yaml × Yaml)) : List (Yaml × Yaml) → Bool
  | [] => true
  | (key, value) :: rest =>
      (others.any fun other => isEqual key other.1 && isEqual value other.2) &&
        entriesAmong others rest

end

/-! ### Scalars -/

def boolean? (text : String) : Option Bool :=
  if ["true", "True", "TRUE"].contains text then some true
  else if ["false", "False", "FALSE"].contains text then some false
  else none

def isNull (text : String) : Bool :=
  ["null", "Null", "NULL", "~"].contains text

/-- Whether more than one decimal digit follows the sign, the first of them a zero. -/
def hasLeadingZero (chars : List Char) : Bool :=
  match (Decimal.splitSign chars).2 with
  | '0' :: d :: rest => (d :: rest).all Char.isDigit
  | _ => false

/-- Value of an integer without its sign: decimal, or in base sixteen, eight or two behind a
mark. -/
def magnitude? : List Char → Option Nat
  | '0' :: 'x' :: digits => Decimal.digits? 16 digits
  | '0' :: 'o' :: digits => Decimal.digits? 8 digits
  | '0' :: 'b' :: digits => Decimal.digits? 2 digits
  | digits => Decimal.digits? 10 digits

/-- The integer that a word stands for, if it fits 128 bits.  Digits behind a zero are no
integer. -/
def integer? (chars : List Char) : Option Int :=
  if hasLeadingZero chars then none
  else
    let (negative, digits) := Decimal.splitSign chars
    match magnitude? digits with
    | none => none
    | some value =>
        if negative then if value ≤ Nat.pow 2 127 then some (-value) else none
        else if value < Nat.pow 2 128 then some value
        else none

/-- Whether an integer fits 64 bits, with a sign only if it is negative. -/
def isSmall (value : Int) : Bool :=
  Int64.minValue.toInt ≤ value && value < UInt64.size

/-- The float that a word stands for.  A number beyond the greatest float is none. -/
def float? (chars : List Char) : Option Float :=
  let unsigned :=
    match chars with
    | '+' :: rest => rest
    | _ => chars
  let infinite := [".inf", ".Inf", ".INF"]
  if infinite.contains (String.ofList unsigned) then some (Binary64.infinity false)
  else if (infinite.map ("-" ++ ·)).contains (String.ofList chars) then
    some (Binary64.infinity true)
  else if [".nan", ".NaN", ".NAN"].contains (String.ofList chars) then some Binary64.notANumber
  else if chars.head? == some '+' && (unsigned.head?.map ['+', '-'].contains).getD false then none
  else (Decimal.float? unsigned).filter Float.isFinite

/-- The tree of an integer; none if it is too great. -/
def ofInteger? (value : Int) : Option Yaml :=
  if isSmall value then some (integer value) else none

/-- The tree of a scalar without quotes.  One that is a great integer has none. -/
def ofPlain? (text : String) : Option Yaml :=
  let chars := text.toList
  if text.isEmpty || isNull text then some null
  else
    match boolean? text with
    | some value => some (boolean value)
    | none =>
        match integer? chars with
        | some value => ofInteger? value
        | none =>
            if hasLeadingZero chars then some (string text)
            else
              match float? chars with
              | some value => some (float value)
              | none => some (string text)

end Yaml
end StaticSite
