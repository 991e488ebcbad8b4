import StaticSite.Json.Reader
import StaticSite.Value.Text

/-!
# Values from JSON

This file turns JSON objects into maps.  There is no value for `null`.  An integer that does not
fit 64 bits with a sign becomes a float.
-/

namespace StaticSite
namespace Value

def ofInt (value : Int) : Value :=
  if Decimal.fitsInt64 value then integer (.ofInt value)
  else float (Decimal.toFloat (value < 0) value.natAbs 0)

mutual

/-- The value of a JSON tree; none if a `null` is in it. -/
def ofJson? : Json → Option Value
  | .null => none
  | .boolean value => some (boolean value)
  | .integer value => some (ofInt value)
  | .float value => some (float value)
  | .string text => some (string text)
  | .array items => (itemsOfJson? items).map list
  | .object members => (fieldsOfJson? members).map map

def itemsOfJson? : List Json → Option (List Value)
  | [] => some []
  | item :: rest =>
      match ofJson? item, itemsOfJson? rest with
      | some value, some values => some (value :: values)
      | _, _ => none

def fieldsOfJson? : List (String × Json) → Option (List (String × Value))
  | [] => some []
  | (name, item) :: rest =>
      match ofJson? item, fieldsOfJson? rest with
      | some value, some fields => some ((name, value) :: fields)
      | _, _ => none

end

/-- The map that JSON data stand for. -/
def decodeJson (content : ByteArray) : Except DecodeFault Value :=
  match String.fromUTF8? content with
  | none => .error .unreadable
  | some text =>
      match Json.parse? text.toList with
      | none => .error .unreadable
      | some (.object members) =>
          match fieldsOfJson? members with
          | none => .error .jsonNull
          | some fields => .ok (map fields)
      | some _ => .error .jsonNotObject

end Value
end StaticSite
