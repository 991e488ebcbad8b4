import StaticSite.Value.OfJson
import StaticSite.Yaml.Document

/-!
# Values from YAML

This file turns YAML mappings into maps.  Keys are taken by their text, nothing becomes the empty
string, and tags are dropped.  An empty document is an empty map.
-/

namespace StaticSite
namespace Value

/-- Floats in the keys of mappings are written positionally from `0.00001` up to sixteen digits
before the point. -/
def keyStyle : Decimal.Style where
  tie := .even
  isPositional := fun lead => -5 ≤ lead && lead < 16
  plus := ""

def keyOfFloat (value : Float) : String :=
  match Binary64.Datum.ofFloat value with
  | .finite negative significand exponent => keyStyle.write negative significand exponent
  | .infinite false => ".inf"
  | .infinite true => "-.inf"
  | .notANumber => ".nan"

/-- The name of the field that a key stands for; none if the key is a collection. -/
def nameOfKey? : Yaml → Option String
  | .string text => some text
  | .integer value => some (toString value)
  | .float value => some (keyOfFloat value)
  | .boolean value => some (if value then "true" else "false")
  | .null => some ""
  | .tagged _ key => nameOfKey? key
  | .sequence _ | .mapping _ => none

mutual

/-- The value of a YAML tree; none if a key in it is a collection. -/
def ofYaml? : Yaml → Option Value
  | .null => some (string "")
  | .boolean value => some (boolean value)
  | .integer value => some (ofInt value)
  | .float value => some (float value)
  | .string text => some (string text)
  | .sequence items => (itemsOfYaml? items).map list
  | .mapping entries => (entriesOfYaml? entries).map fun fields => map (Fields.ofEntries fields)
  | .tagged _ tree => ofYaml? tree

def itemsOfYaml? : List Yaml → Option (List Value)
  | [] => some []
  | item :: rest =>
      match ofYaml? item, itemsOfYaml? rest with
      | some value, some values => some (value :: values)
      | _, _ => none

def entriesOfYaml? : List (Yaml × Yaml) → Option (List (String × Value))
  | [] => some []
  | (key, item) :: rest =>
      match nameOfKey? key, ofYaml? item, entriesOfYaml? rest with
      | some name, some value, some entries => some ((name, value) :: entries)
      | _, _, _ => none

end

/-- The map that YAML data stand for. -/
def decodeYaml (content : ByteArray) : Except DecodeFault Value :=
  match String.fromUTF8? content with
  | none => .error .unreadable
  | some text =>
      match Yaml.parse? text.toList with
      | none => .error .unreadable
      | some .null => .ok (map [])
      | some tree@(.mapping _) =>
          match ofYaml? tree with
          | none => .error .yamlCompoundKey
          | some value => .ok value
      | some _ => .error .yamlNotMapping

end Value
end StaticSite
