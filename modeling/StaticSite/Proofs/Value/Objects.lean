import Mathlib
import StaticSite.Asset.Library
import StaticSite.Proofs.Json.RoundTrip
import StaticSite.Proofs.Text.Utf8
import StaticSite.Proofs.Value.Equality

/-!
# JSON objects as maps

Writing a value as JSON and reading JSON as a value are inverse where there are neither floats nor
baked scopes, and neither `null` nor numbers but integers of 64 bits.  So the text of such a map is
decoded as that map, and what such an object is decoded as has the compact text of the object.
-/

namespace StaticSite

/-- Whether a tree is `null` or has it within, at any depth. -/
inductive Json.HasNull : Json → Prop
  | null : HasNull .null
  | item {items : List Json} {item : Json} (member : item ∈ items) (within : HasNull item) :
      HasNull (.array items)
  | member {members : List (String × Json)} {member : String × Json} (isMember : member ∈ members)
      (within : HasNull member.2) : HasNull (.object members)

namespace Value

variable {value : Value} {values : List Value} {fields : Fields} {tree : Json}
  {items : List Json} {members : List (String × Json)}

/-! ## Trees with `null` -/

theorem itemsOfJson?_eq_none_iff :
    itemsOfJson? items = none ↔ ∃ item ∈ items, ofJson? item = none := by
  induction items with
  | nil => simp [itemsOfJson?]
  | cons item items induction =>
      rw [List.exists_mem_cons_iff, ← induction, itemsOfJson?]
      cases ofJson? item <;> cases itemsOfJson? items <;> simp

theorem fieldsOfJson?_eq_none_iff :
    fieldsOfJson? members = none ↔ ∃ member ∈ members, ofJson? member.2 = none := by
  induction members with
  | nil => simp [fieldsOfJson?]
  | cons member members induction =>
      rw [List.exists_mem_cons_iff, ← induction, fieldsOfJson?]
      cases ofJson? member.2 <;> cases fieldsOfJson? members <;> simp

theorem ofJson?_eq_none_of_hasNull (hasNull : tree.HasNull) : ofJson? tree = none := by
  induction hasNull with
  | null => rfl
  | item member _ induction =>
      exact Option.map_eq_none_iff.mpr (itemsOfJson?_eq_none_iff.mpr ⟨_, member, induction⟩)
  | member isMember _ induction =>
      exact Option.map_eq_none_iff.mpr (fieldsOfJson?_eq_none_iff.mpr ⟨_, isMember, induction⟩)

theorem hasNull_of_ofJson?_eq_none : ∀ {tree : Json}, ofJson? tree = none → tree.HasNull
  | .null, _ => .null
  | .array items, refused => by
      obtain ⟨item, member, isNone⟩ :=
        itemsOfJson?_eq_none_iff.mp (Option.map_eq_none_iff.mp refused)
      exact .item member (hasNull_of_ofJson?_eq_none isNone)
  | .object members, refused => by
      obtain ⟨member, isMember, isNone⟩ :=
        fieldsOfJson?_eq_none_iff.mp (Option.map_eq_none_iff.mp refused)
      exact .member isMember (hasNull_of_ofJson?_eq_none isNone)
decreasing_by
  · have := List.sizeOf_lt_of_mem member
    simp only [Json.array.sizeOf_spec]
    omega
  · have := List.sizeOf_lt_of_mem isMember
    have : sizeOf member = 1 + sizeOf member.1 + sizeOf member.2 := rfl
    simp only [Json.object.sizeOf_spec]
    omega

/-- Just the trees with `null` have no value. -/
theorem ofJson?_eq_none_iff : ofJson? tree = none ↔ tree.HasNull :=
  ⟨hasNull_of_ofJson?_eq_none, ofJson?_eq_none_of_hasNull⟩

/-! ## There and back -/

theorem fitsInt64_toInt (value : Int64) : Decimal.fitsInt64 value.toInt = true :=
  Json.fitsInt64_iff.mpr ⟨value.le_toInt, value.toInt_lt⟩

theorem ofInt_toInt (value : Int64) : ofInt value.toInt = integer value := by
  rw [ofInt, if_pos (fitsInt64_toInt value), Int64.ofInt_toInt]

theorem itemsOfJson?_itemsToJson (each : ∀ value ∈ values, ofJson? value.toJson = some value) :
    itemsOfJson? (itemsToJson values) = some values := by
  induction values with
  | nil => rfl
  | cons value values induction =>
      obtain ⟨first, others⟩ := List.forall_mem_cons.mp each
      rw [itemsToJson, itemsOfJson?, first, induction others]

theorem fieldsOfJson?_fieldsToJson
    (each : ∀ field ∈ fields, ofJson? field.2.toJson = some field.2) :
    fieldsOfJson? (fieldsToJson fields) = some fields := by
  induction fields with
  | nil => rfl
  | cons field fields induction =>
      obtain ⟨first, others⟩ := List.forall_mem_cons.mp each
      rw [fieldsToJson, fieldsOfJson?, first, induction others]

theorem Plain.ofJson?_toJson (plain : value.Plain) : ofJson? value.toJson = some value := by
  induction plain with
  | integer value => exact congrArg some (ofInt_toInt value)
  | boolean value => rfl
  | string text => rfl
  | list _ induction => rw [toJson, ofJson?, itemsOfJson?_itemsToJson induction, Option.map_some]
  | map _ induction => rw [toJson, ofJson?, fieldsOfJson?_fieldsToJson induction, Option.map_some]

theorem itemsToJson_of_itemsOfJson?
    (each : ∀ item ∈ items, ∀ value, ofJson? item = some value → value.toJson = item)
    (given : itemsOfJson? items = some values) : itemsToJson values = items := by
  induction items generalizing values with
  | nil =>
      obtain rfl := Option.some.inj given
      rfl
  | cons item items induction =>
      obtain ⟨first, others⟩ := List.forall_mem_cons.mp each
      rw [itemsOfJson?] at given
      split at given
      · next value values isValue areValues =>
        obtain rfl := Option.some.inj given
        rw [itemsToJson, first value isValue, induction others areValues]
      · contradiction

theorem fieldsToJson_of_fieldsOfJson?
    (each : ∀ member ∈ members, ∀ value, ofJson? member.2 = some value → value.toJson = member.2)
    (given : fieldsOfJson? members = some fields) : fieldsToJson fields = members := by
  induction members generalizing fields with
  | nil =>
      obtain rfl := Option.some.inj given
      rfl
  | cons member members induction =>
      obtain ⟨first, others⟩ := List.forall_mem_cons.mp each
      rw [fieldsOfJson?] at given
      split at given
      · next value fields isValue areFields =>
        obtain rfl := Option.some.inj given
        rw [fieldsToJson, first value isValue, induction others areFields]
      · contradiction

theorem toJson_of_ofJson? (fitting : tree.FitsInt64) (given : ofJson? tree = some value) :
    value.toJson = tree := by
  induction fitting generalizing value with
  | null => contradiction
  | boolean truth =>
      obtain rfl := Option.some.inj given
      rfl
  | @integer number fits =>
      obtain ⟨least, greatest⟩ := Json.fitsInt64_iff.mp fits
      rw [ofJson?, ofInt, if_pos fits] at given
      obtain rfl := Option.some.inj given
      rw [toJson, Int64.toInt_ofInt_of_le least greatest]
  | string text =>
      obtain rfl := Option.some.inj given
      rfl
  | array _ induction =>
      obtain ⟨values, areValues, rfl⟩ := Option.map_eq_some_iff.mp given
      rw [toJson, itemsToJson_of_itemsOfJson? (fun item member _ => induction item member)
        areValues]
  | object _ induction =>
      obtain ⟨fields, areFields, rfl⟩ := Option.map_eq_some_iff.mp given
      rw [toJson,
        fieldsToJson_of_fieldsOfJson? (fun member isMember _ => induction member isMember)
          areFields]

/-! ## Trees of values -/

theorem itemsToJson_eq_map (values : List Value) : itemsToJson values = values.map toJson := by
  induction values with
  | nil => rfl
  | cons value values induction => rw [itemsToJson, induction, List.map_cons]

theorem fieldsToJson_eq_map (fields : Fields) :
    fieldsToJson fields = fields.map fun field => (field.1, field.2.toJson) := by
  induction fields with
  | nil => rfl
  | cons field fields induction => rw [fieldsToJson, induction, List.map_cons]

theorem Plain.toJson (plain : value.Plain) : value.toJson.FitsInt64 := by
  induction plain with
  | integer value => exact .integer (fitsInt64_toInt value)
  | boolean value => exact .boolean value
  | string text => exact .string text
  | list _ induction =>
      rw [Value.toJson, itemsToJson_eq_map]
      exact .array (List.forall_mem_map.mpr induction)
  | map _ induction =>
      rw [Value.toJson, fieldsToJson_eq_map]
      exact .object (List.forall_mem_map.mpr induction)

theorem Distinct.toJson (distinct : value.Distinct) : value.toJson.Distinct := by
  induction distinct with
  | integer value => exact .integer _
  | float value => exact .float _
  | boolean value => exact .boolean value
  | string text => exact .string text
  | list _ induction =>
      rw [Value.toJson, itemsToJson_eq_map]
      exact .array (List.forall_mem_map.mpr induction)
  | map names _ induction =>
      rw [Value.toJson, fieldsToJson_eq_map]
      refine .object ?_ (List.forall_mem_map.mpr induction)
      rw [List.map_map]
      exact names
  | scope _ _ _ => exact .string _

/-! ## Decoded objects -/

/-- What an object that is read from some bytes is decoded as. -/
theorem decode_object (key : String) {content : ByteArray} {text : String}
    (isText : String.fromUTF8? content = some text)
    (parsed : Json.parse? text.toList = some (.object members)) :
    Format.json.decode key content =
      ((ofJson? (.object members)).map fun value => .ok (.data value)).getD
        (.error (.decode key .json .jsonNull)) := by
  rw [Format.decode]
  simp only [decodeJson, isText, parsed, ofJson?]
  cases fieldsOfJson? members <;> rfl

/-- The text of a map without floats and baked scopes is decoded as that map if it is read as the
tree that was written, which it is unless maps and lists are nested too deep.  An object without
`null` and without numbers but integers of 64 bits is decoded as a value with the compact text of
the object, from whatever text it is read.  Just the objects that have a `null` within are refused,
as a whole. -/
theorem decode_text_inverse (key : String) :
    (∀ fields : Fields, (map fields).Distinct → (map fields).Plain →
      (Json.parse? (map fields).toJson.compact = some (map fields).toJson →
        Format.json.decode key (map fields).text.toUTF8 = .ok (.data (map fields))) ∧
      (Json.parse? (map fields).toJson.compact = some (map fields).toJson ↔
        (map fields).toJson.depth < Json.depthLimit)) ∧
    ∀ (content : ByteArray) (text : String) (members : List (String × Json)),
      String.fromUTF8? content = some text →
      Json.parse? text.toList = some (.object members) →
      ((Json.object members).FitsInt64 → ¬ (Json.object members).HasNull → ∃ value,
        Format.json.decode key content = .ok (.data value) ∧
          value.text = String.ofList (Json.object members).compact) ∧
      (Format.json.decode key content = .error (.decode key .json .jsonNull) ↔
        (Json.object members).HasNull) := by
  constructor
  · intro fields distinct plain
    constructor
    · intro readBack
      have isText := fromUTF8?_eq_some_iff.mpr (rfl : (map fields).text.toUTF8 = _)
      have parsed : Json.parse? (map fields).text.toList =
          some (.object (fieldsToJson fields)) := by
        rw [text, String.toList_ofList, readBack, toJson]
      have isValue := plain.ofJson?_toJson
      rw [toJson] at isValue
      rw [decode_object key isText parsed, isValue]
      rfl
    · rw [plain.toJson.parse?_compact distinct.toJson]
      split <;> simp [*]
  · intro content text members isText parsed
    rw [decode_object key isText parsed]
    constructor
    · intro fitting noNull
      rw [← ofJson?_eq_none_iff] at noNull
      obtain ⟨value, isValue⟩ := Option.ne_none_iff_exists'.mp noNull
      have back := toJson_of_ofJson? fitting isValue
      refine ⟨value, by rw [isValue]; rfl, ?_⟩
      obtain ⟨fields, -, rfl⟩ := Option.map_eq_some_iff.mp isValue
      rw [Value.text, back]
    · rw [← ofJson?_eq_none_iff]
      cases ofJson? (.object members) <;> simp

/-- A map with characters that are escaped and the least and the greatest integer. -/
def bounds : Fields :=
  [("\"note\n", .string "\x01\\é"),
   ("bounds", .list [.integer .minValue, .integer .maxValue, .map [("open", .boolean false)]])]

/-- A tree that has a `null` within. -/
def unknown : List (String × Json) :=
  [("known", .boolean true), ("list", .array [.object [("unknown", .null)]])]

theorem decode_text_inverse_bounds :
    Format.json.decode "a.json" (map bounds).text.toUTF8 = .ok (.data (map bounds)) ∧
      (∃ value, Format.json.decode "a.json" (map bounds).text.toUTF8 = .ok (.data value) ∧
        value.text = (map bounds).text) ∧
      Format.json.decode "a.json" (String.ofList (Json.object unknown).compact).toUTF8 =
        .error (.decode "a.json" .json .jsonNull) := by
  have distinct : (map bounds).Distinct := by
    refine .map (by decide)
      (List.forall_mem_cons.mpr ⟨.string _, List.forall_mem_singleton.mpr (.list ?_)⟩)
    refine List.forall_mem_cons.mpr ⟨.integer _,
      List.forall_mem_cons.mpr ⟨.integer _, List.forall_mem_singleton.mpr ?_⟩⟩
    exact .map (by decide) (List.forall_mem_singleton.mpr (.boolean false))
  have plain : (map bounds).Plain := by
    refine .map (List.forall_mem_cons.mpr ⟨.string _, List.forall_mem_singleton.mpr (.list ?_)⟩)
    refine List.forall_mem_cons.mpr ⟨.integer _,
      List.forall_mem_cons.mpr ⟨.integer _, List.forall_mem_singleton.mpr ?_⟩⟩
    exact .map (List.forall_mem_singleton.mpr (.boolean false))
  have distinctToo : (Json.object unknown).Distinct := by
    refine .object (by decide)
      (List.forall_mem_cons.mpr ⟨.boolean true, List.forall_mem_singleton.mpr (.array ?_)⟩)
    exact List.forall_mem_singleton.mpr (.object (by decide) (List.forall_mem_singleton.mpr .null))
  have fitting : (Json.object unknown).FitsInt64 := by
    refine .object
      (List.forall_mem_cons.mpr ⟨.boolean true, List.forall_mem_singleton.mpr (.array ?_)⟩)
    exact List.forall_mem_singleton.mpr (.object (List.forall_mem_singleton.mpr .null))
  have read : Json.parse? (map bounds).toJson.compact = some (map bounds).toJson :=
    (((decode_text_inverse "a.json").1 bounds distinct plain).2).mpr (by decide)
  have readToo : Json.parse? (String.ofList (Json.object unknown).compact).toList =
      some (.object unknown) := by
    rw [String.toList_ofList, fitting.parse?_compact distinctToo, if_pos (by decide)]
  have noNull : ¬ (map bounds).toJson.HasNull := by
    rw [← ofJson?_eq_none_iff, plain.ofJson?_toJson]
    exact Option.some_ne_none _
  refine ⟨((decode_text_inverse "a.json").1 bounds distinct plain).1 read, ?_, ?_⟩
  · exact ((decode_text_inverse "a.json").2 _ _ _ (fromUTF8?_eq_some_iff.mpr rfl)
      (by rw [text, String.toList_ofList]; exact read)).1 plain.toJson noNull
  · refine ((decode_text_inverse "a.json").2 _ _ _ (fromUTF8?_eq_some_iff.mpr rfl) readToo).2.mpr
      (.member (List.mem_cons_of_mem _ List.mem_cons_self) (.item List.mem_cons_self ?_))
    exact .member List.mem_cons_self .null

end Value
end StaticSite
