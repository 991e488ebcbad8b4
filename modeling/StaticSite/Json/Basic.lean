import StaticSite.Decimal.Shortest

/-!
# JSON trees and their compact text

This file gives JSON trees and writes them without blanks.
-/

namespace StaticSite

/-- A JSON tree.  The members of an object stand in order. -/
inductive Json where
  | null
  | boolean (value : Bool)
  | integer (value : Int)
  | float (value : Float)
  | string (text : String)
  | array (items : List Json)
  | object (members : List (String × Json))
  deriving Inhabited

namespace Json

/-- The members given by some entries.  A name keeps its first place and takes its last value. -/
def insertMember (name : String) (value : Json) : List (String × Json) → List (String × Json)
  | [] => [(name, value)]
  | (other, old) :: rest =>
      if other == name then (name, value) :: rest
      else (other, old) :: insertMember name value rest

/-- A digit below sixteen in lower case. -/
def hexDigit (digit : Nat) : Char :=
  Char.ofNat (if digit < 10 then '0'.toNat + digit else 'a'.toNat + (digit - 10))

/-- How a character is written inside quotes. -/
def escape (c : Char) : List Char :=
  if c == '"' then ['\\', '"']
  else if c == '\\' then ['\\', '\\']
  else if c == '\n' then ['\\', 'n']
  else if c == '\r' then ['\\', 'r']
  else if c == '\t' then ['\\', 't']
  else if c == '\x08' then ['\\', 'b']
  else if c == '\x0c' then ['\\', 'f']
  else if c.toNat < 0x20 then
    ['\\', 'u', '0', '0', hexDigit (c.toNat / 16), hexDigit (c.toNat % 16)]
  else [c]

def quoted (text : String) : List Char :=
  '"' :: text.toList.flatMap escape ++ ['"']

/-- Floats are written positionally from `0.00001` up to sixteen digits before the point. -/
def floatStyle : Decimal.Style where
  tie := .even
  isPositional := fun lead => -5 ≤ lead && lead < 16
  plus := "+"

/-- The text of a float; there is none but `null` for infinities and what is not a number. -/
def floatText (value : Float) : List Char :=
  match Binary64.Datum.ofFloat value with
  | .finite negative significand exponent =>
      (floatStyle.write negative significand exponent).toList
  | _ => ['n', 'u', 'l', 'l']

mutual

def compact : Json → List Char
  | null => ['n', 'u', 'l', 'l']
  | boolean true => ['t', 'r', 'u', 'e']
  | boolean false => ['f', 'a', 'l', 's', 'e']
  | integer value => (toString value).toList
  | float value => floatText value
  | string text => quoted text
  | array items => '[' :: compactItems items
  | object members => '{' :: compactMembers members

/-- The items of an array, with commas between, and the closing bracket. -/
def compactItems : List Json → List Char
  | [] => [']']
  | item :: rest => compact item ++ compactMoreItems rest

/-- The items after the first, each with a comma before it, and the closing bracket. -/
def compactMoreItems : List Json → List Char
  | [] => [']']
  | item :: rest => ',' :: compact item ++ compactMoreItems rest

/-- The members of an object, with commas between, and the closing brace. -/
def compactMembers : List (String × Json) → List Char
  | [] => ['}']
  | (name, value) :: rest => quoted name ++ ':' :: compact value ++ compactMoreMembers rest

/-- The members after the first, each with a comma before it, and the closing brace. -/
def compactMoreMembers : List (String × Json) → List Char
  | [] => ['}']
  | (name, value) :: rest =>
      ',' :: quoted name ++ ':' :: compact value ++ compactMoreMembers rest

end

end Json
end StaticSite
