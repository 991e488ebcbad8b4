import StaticSite.Json.Basic
import StaticSite.Value.Basic

/-!
# The text of a value

This file writes values as they appear in rendered pages.  Lists and maps are written as compact
JSON, a baked scope as the text that was rendered from it.
-/

namespace StaticSite
namespace Value

/-- Floats in pages are always written positionally, the greater of two equally near decimals
deciding. -/
def floatStyle : Decimal.Style where
  tie := .up
  isPositional := fun _ => true
  plus := ""

def floatText (value : Float) : String :=
  match Binary64.Datum.ofFloat value with
  | .finite negative significand exponent => floatStyle.write negative significand exponent
  | .infinite false => "inf"
  | .infinite true => "-inf"
  | .notANumber => "NaN"

mutual

def toJson : Value → Json
  | integer value => .integer value.toInt
  | float value => .float value
  | boolean value => .boolean value
  | string text => .string text
  | list items => .array (itemsToJson items)
  | map fields => .object (fieldsToJson fields)
  | scope _ _ text => .string text

def itemsToJson : List Value → List Json
  | [] => []
  | item :: rest => toJson item :: itemsToJson rest

def fieldsToJson : List (String × Value) → List (String × Json)
  | [] => []
  | (name, value) :: rest => (name, toJson value) :: fieldsToJson rest

end

/-- The text of a value. -/
def text : Value → String
  | integer value => toString value.toInt
  | float value => floatText value
  | boolean value => if value then "true" else "false"
  | string text => text
  | value@(list _) | value@(map _) => String.ofList value.toJson.compact
  | scope _ _ text => text

end Value
end StaticSite
