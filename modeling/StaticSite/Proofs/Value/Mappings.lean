import Mathlib
import StaticSite.Proofs.Sequencing
import StaticSite.Proofs.Text.Utf8
import StaticSite.Proofs.Value.Decoded
import StaticSite.Proofs.Value.Entries
import StaticSite.Asset.Library

/-!
# YAML mappings as maps

A key of a YAML mapping becomes a name by its text.  Keys that differ may have the same text, as a
number and a string of its digits do; then the entries set one field, and what they held is lost
but for the last of them.  A mapping whose keys have different texts keeps all its entries.
-/

namespace StaticSite

/-! ## Lists side by side -/

section

variable {α β : Type} {related relatedToo : α → β → Prop} {items : List α} {others : List β}

theorem exists_of_forall₂_of_mem (each : List.Forall₂ related items others) {item : α}
    (member : item ∈ items) : ∃ other ∈ others, related item other := by
  induction each with
  | nil => contradiction
  | cons first _ induction =>
      rcases List.mem_cons.mp member with rfl | later
      · exact ⟨_, List.mem_cons_self, first⟩
      · obtain ⟨other, isOther, isRelated⟩ := induction later
        exact ⟨other, List.mem_cons_of_mem _ isOther, isRelated⟩

theorem forall₂_and (each : List.Forall₂ related items others)
    (eachToo : List.Forall₂ relatedToo items others) :
    List.Forall₂ (fun item other => related item other ∧ relatedToo item other) items others := by
  induction each with
  | nil => exact .nil
  | cons first _ induction =>
      cases eachToo with
      | cons firstToo eachToo => exact .cons ⟨first, firstToo⟩ (induction eachToo)

end

/-! ## Mappings and maps -/

namespace Yaml

/-- Whether no two keys of a mapping have the same text. -/
def HasDistinctNames (entries : List (Yaml × Yaml)) : Prop :=
  (entries.map fun entry => Value.nameOfKey? entry.1).Nodup

/-- Whether a tree is part of another, as an item of a sequence, under a key of a mapping or behind
a tag, at any depth. -/
inductive IsWithin (part : Yaml) : Yaml → Prop
  | itself : IsWithin part part
  | item {items : List Yaml} {item : Yaml} (member : item ∈ items) (within : IsWithin part item) :
      IsWithin part (.sequence items)
  | entry {entries : List (Yaml × Yaml)} {entry : Yaml × Yaml} (member : entry ∈ entries)
      (within : IsWithin part entry.2) : IsWithin part (.mapping entries)
  | tagged {tag : String} {tree : Yaml} (within : IsWithin part tree) :
      IsWithin part (.tagged tag tree)

end Yaml

namespace Value

/-- Whether a value stands for a YAML tree.  The fields of a map are what the entries of a mapping
leave when each sets the name that the text of its key is to the value that stands for its tree. -/
inductive StandsFor : Yaml → Value → Prop
  | null : StandsFor .null (.string "")
  | boolean (value : Bool) : StandsFor (.boolean value) (.boolean value)
  | integer (value : Int) : StandsFor (.integer value) (ofInt value)
  | float (value : Float) : StandsFor (.float value) (.float value)
  | string (text : String) : StandsFor (.string text) (.string text)
  | sequence {items : List Yaml} {values : List Value}
      (each : List.Forall₂ StandsFor items values) : StandsFor (.sequence items) (.list values)
  | mapping {entries : List (Yaml × Yaml)} {named : List (String × Value)} {fields : Fields}
      (names : List.Forall₂ (fun (entry : Yaml × Yaml) (field : String × Value) =>
        nameOfKey? entry.1 = some field.1) entries named)
      (values : List.Forall₂ (fun (entry : Yaml × Yaml) (field : String × Value) =>
        StandsFor entry.2 field.2) entries named)
      (leaves : Leaves named fields) : StandsFor (.mapping entries) (.map fields)
  | tagged {tag : String} {tree : Yaml} {value : Value} (inner : StandsFor tree value) :
      StandsFor (.tagged tag tree) value

/-! ## What trees stand for -/

theorem setEntries_eq_ofEntries (entries : List (String × Value)) :
    setEntries entries = Fields.ofEntries entries := by
  simp only [Fields.ofEntries, Fields.insert_eq_setEntry, setEntries]

mutual

theorem standsFor_of_ofYaml? : ∀ {tree : Yaml} {value : Value},
    ofYaml? tree = some value → StandsFor tree value
  | .null, _, given => Option.some.inj given ▸ .null
  | .boolean value, _, given => Option.some.inj given ▸ .boolean value
  | .integer value, _, given => Option.some.inj given ▸ .integer value
  | .float value, _, given => Option.some.inj given ▸ .float value
  | .string text, _, given => Option.some.inj given ▸ .string text
  | .sequence items, _, given => by
      obtain ⟨values, isValues, rfl⟩ := Option.map_eq_some_iff.mp given
      exact .sequence (standFor_of_itemsOfYaml? isValues)
  | .mapping entries, _, given => by
      obtain ⟨named, isNamed, rfl⟩ := Option.map_eq_some_iff.mp given
      obtain ⟨names, values⟩ := standFor_of_entriesOfYaml? isNamed
      exact .mapping names values (setEntries_eq_ofEntries named ▸ leaves_setEntries named)
  | .tagged _ tree, _, given => by
      rw [ofYaml?] at given
      exact .tagged (standsFor_of_ofYaml? given)

theorem standFor_of_itemsOfYaml? : ∀ {items : List Yaml} {values : List Value},
    itemsOfYaml? items = some values → List.Forall₂ StandsFor items values
  | [], _, given => Option.some.inj given ▸ .nil
  | item :: items, _, given => by
      rw [itemsOfYaml?] at given
      split at given
      · next value values isValue isValues =>
        obtain rfl := Option.some.inj given
        exact .cons (standsFor_of_ofYaml? isValue) (standFor_of_itemsOfYaml? isValues)
      · contradiction

theorem standFor_of_entriesOfYaml? : ∀ {entries : List (Yaml × Yaml)}
    {named : List (String × Value)}, entriesOfYaml? entries = some named →
    List.Forall₂ (fun (entry : Yaml × Yaml) (field : String × Value) =>
        nameOfKey? entry.1 = some field.1) entries named ∧
      List.Forall₂ (fun (entry : Yaml × Yaml) (field : String × Value) =>
        StandsFor entry.2 field.2) entries named
  | [], _, given => Option.some.inj given ▸ ⟨.nil, .nil⟩
  | (key, item) :: entries, _, given => by
      rw [entriesOfYaml?] at given
      split at given
      · next name value named isName isValue isNamed =>
        obtain rfl := Option.some.inj given
        obtain ⟨names, values⟩ := standFor_of_entriesOfYaml? isNamed
        exact ⟨.cons isName names, .cons (standsFor_of_ofYaml? isValue) values⟩
      · contradiction

end

mutual

theorem StandsFor.ofYaml?_eq : ∀ {tree : Yaml} {value : Value},
    StandsFor tree value → ofYaml? tree = some value
  | .null, _, .null => rfl
  | .boolean _, _, .boolean _ => rfl
  | .integer _, _, .integer _ => rfl
  | .float _, _, .float _ => rfl
  | .string _, _, .string _ => rfl
  | .sequence items, _, .sequence each =>
      Option.map_eq_some_iff.mpr ⟨_, itemsOfYaml?_eq each, rfl⟩
  | .mapping entries, _, .mapping names values leaves => by
      refine Option.map_eq_some_iff.mpr ⟨_, entriesOfYaml?_eq names values, ?_⟩
      rw [leaves.eq_setEntries, setEntries_eq_ofEntries]
  | .tagged _ tree, _, .tagged inner => by
      rw [ofYaml?]
      exact inner.ofYaml?_eq

theorem itemsOfYaml?_eq : ∀ {items : List Yaml} {values : List Value},
    List.Forall₂ StandsFor items values → itemsOfYaml? items = some values
  | [], _, .nil => rfl
  | item :: items, _, .cons stands others => by
      rw [itemsOfYaml?, stands.ofYaml?_eq, itemsOfYaml?_eq others]

theorem entriesOfYaml?_eq : ∀ {entries : List (Yaml × Yaml)} {named : List (String × Value)},
    List.Forall₂ (fun (entry : Yaml × Yaml) (field : String × Value) =>
      nameOfKey? entry.1 = some field.1) entries named →
    List.Forall₂ (fun (entry : Yaml × Yaml) (field : String × Value) =>
      StandsFor entry.2 field.2) entries named →
    entriesOfYaml? entries = some named
  | [], _, .nil, .nil => rfl
  | (key, item) :: entries, _, .cons isName names, .cons stands values => by
      rw [entriesOfYaml?, isName, stands.ofYaml?_eq, entriesOfYaml?_eq names values]

end

theorem standsFor_iff {tree : Yaml} {value : Value} :
    StandsFor tree value ↔ ofYaml? tree = some value :=
  ⟨StandsFor.ofYaml?_eq, standsFor_of_ofYaml?⟩

/-! ## Mappings at every depth -/

/-- Whatever is part of a tree that a value stands for has a value that stands for it. -/
theorem StandsFor.exists_of_isWithin {part tree : Yaml} {value : Value}
    (stands : StandsFor tree value) (within : part.IsWithin tree) :
    ∃ inner, StandsFor part inner := by
  induction within generalizing value with
  | itself => exact ⟨value, stands⟩
  | item member _ induction =>
      cases stands with
      | sequence each =>
          obtain ⟨inner, -, isItem⟩ := exists_of_forall₂_of_mem each member
          exact induction isItem
  | entry member _ induction =>
      cases stands with
      | mapping names values leaves =>
          obtain ⟨field, -, isEntry⟩ := exists_of_forall₂_of_mem values member
          exact induction isEntry
  | tagged _ induction =>
      cases stands with
      | tagged inner => exact induction inner

/-- A map has as many fields as the mapping has entries if the texts of the keys are different, and
only then; it has those of the entries, in their order. -/
theorem StandsFor.keeps_entries {entries : List (Yaml × Yaml)} {fields : Fields}
    (stands : StandsFor (.mapping entries) (.map fields)) :
    (fields.length = entries.length ↔ Yaml.HasDistinctNames entries) ∧
      (Yaml.HasDistinctNames entries →
        List.Forall₂ (fun (entry : Yaml × Yaml) (field : String × Value) =>
          nameOfKey? entry.1 = some field.1 ∧ StandsFor entry.2 field.2) entries fields) := by
  cases stands with
  | @mapping _ named _ names values leaves =>
      have texts : entries.map (fun entry => nameOfKey? entry.1) =
          (named.map Prod.fst).map some := by
        rw [← List.forall₂_eq_eq_eq, List.forall₂_map_left_iff, List.forall₂_map_right_iff,
          List.forall₂_map_right_iff]
        exact names
      have distinct : Yaml.HasDistinctNames entries ↔ (named.map Prod.fst).Nodup := by
        rw [Yaml.HasDistinctNames, texts]
        exact List.nodup_map_iff (Option.some_injective _)
      rw [distinct, names.length_eq]
      refine ⟨leaves.length_eq_iff, fun nodup => ?_⟩
      rw [leaves.eq_setEntries, setEntries_of_nodup nodup]
      exact forall₂_and names values

/-! ## Documents -/

theorem decodeYaml_eq_ok_iff {content : ByteArray} {text : String} {entries : List (Yaml × Yaml)}
    (isText : String.fromUTF8? content = some text)
    (parsed : Yaml.parse? text.toList = some (.mapping entries)) {value : Value} :
    decodeYaml content = .ok value ↔ StandsFor (.mapping entries) value := by
  simp only [standsFor_iff, decodeYaml, isText, parsed]
  cases ofYaml? (.mapping entries) <;> simp

/-- A document that is a mapping is decoded as the value that stands for it, and refused if there is
none.  If it is decoded then each mapping in it, at any depth, becomes a map of one field for each
text of a key, where this text comes first and with the value of the entry where it comes last.  The
map has as many fields as the mapping has entries just if no two keys have the same text; then the
fields are those of the entries, in their order. -/
theorem decode_mapping (key : String) {content : ByteArray} {text : String}
    {entries : List (Yaml × Yaml)} (isText : String.fromUTF8? content = some text)
    (parsed : Yaml.parse? text.toList = some (.mapping entries)) :
    (∀ asset, Format.yaml.decode key content = .ok asset ↔
      ∃ value, StandsFor (.mapping entries) value ∧ asset = .data value) ∧
    ((Format.yaml.decode key content).isOk = true → ∀ inner : List (Yaml × Yaml),
      (Yaml.mapping inner).IsWithin (.mapping entries) →
      ∃ fields, StandsFor (.mapping inner) (.map fields) ∧
        (fields.length = inner.length ↔ Yaml.HasDistinctNames inner) ∧
        (Yaml.HasDistinctNames inner →
          List.Forall₂ (fun (entry : Yaml × Yaml) (field : String × Value) =>
            nameOfKey? entry.1 = some field.1 ∧ StandsFor entry.2 field.2) inner fields)) := by
  have decoded (asset : Asset) : Format.yaml.decode key content = .ok asset ↔
      ∃ value, StandsFor (.mapping entries) value ∧ asset = .data value := by
    simp only [← decodeYaml_eq_ok_iff isText parsed, Format.decode]
    cases decodeYaml content <;> simp [eq_comm]
  refine ⟨decoded, fun accepted inner within => ?_⟩
  obtain ⟨asset, isAsset⟩ := Except.exists_of_isOk accepted
  obtain ⟨value, stands, -⟩ := (decoded asset).mp isAsset
  obtain ⟨part, isPart⟩ := stands.exists_of_isWithin within
  cases isPart with
  | @mapping _ _ fields names values leaves =>
      have whole : StandsFor (.mapping inner) (.map fields) := .mapping names values leaves
      exact ⟨fields, whole, whole.keeps_entries⟩

/-- A text with a mapping of three keys in a sequence behind a tag. -/
def nestedText : String := "a: !b [\x7b~: 1, 2: c, '3': \x7d]"

/-- The entries of this mapping. -/
def nestedEntries : List (Yaml × Yaml) :=
  [(.null, .integer 1), (.integer 2, .string "c"), (.string "3", .null)]

/-- Nothing, a number and a string of a digit are keys with different texts. -/
theorem decode_mapping_nested :
    (Format.yaml.decode "a.yml" nestedText.toUTF8).isOk = true ∧
      (Yaml.mapping nestedEntries).IsWithin
        (.mapping [(.string "a", .tagged "b" (.sequence [.mapping nestedEntries]))]) ∧
      ∃ fields : Fields, StandsFor (.mapping nestedEntries) (.map fields) ∧ fields.length = 3 ∧
        List.Forall₂ (fun (entry : Yaml × Yaml) (field : String × Value) =>
          nameOfKey? entry.1 = some field.1 ∧ StandsFor entry.2 field.2) nestedEntries fields := by
  have isText : String.fromUTF8? nestedText.toUTF8 = some nestedText :=
    fromUTF8?_eq_some_iff.mpr rfl
  have parsed : Yaml.parse? nestedText.toList =
      some (.mapping [(.string "a", .tagged "b" (.sequence [.mapping nestedEntries]))]) := by
    cbv
  have accepted : (Format.yaml.decode "a.yml" nestedText.toUTF8).isOk = true := by
    simp only [Format.decode, decodeYaml, isText, parsed]
    cbv
  have within : (Yaml.mapping nestedEntries).IsWithin
      (.mapping [(.string "a", .tagged "b" (.sequence [.mapping nestedEntries]))]) :=
    .entry List.mem_cons_self (.tagged (.item List.mem_cons_self .itself))
  have distinct : Yaml.HasDistinctNames nestedEntries := by
    have texts : nestedEntries.map (fun entry => nameOfKey? entry.1) =
        [some "", some "2", some "3"] := by cbv
    rw [Yaml.HasDistinctNames, texts]
    decide
  obtain ⟨fields, stands, whole, each⟩ :=
    (decode_mapping "a.yml" isText parsed).2 accepted nestedEntries within
  exact ⟨accepted, within, fields, stands, whole.mpr distinct, each distinct⟩

/-- A number and a string of its digits are different keys with the same text: of two such entries
the map keeps the second only. -/
theorem decode_loses_entry :
    Yaml.parse? "1: a\n\"1\": b\n".toList =
        some (.mapping [(.integer 1, .string "a"), (.string "1", .string "b")]) ∧
      Format.yaml.decode "a.yml" "1: a\n\"1\": b\n".toUTF8 =
        .ok (.data (.map [("1", .string "b")])) := by
  have isText : String.fromUTF8? "1: a\n\"1\": b\n".toUTF8 = some "1: a\n\"1\": b\n" :=
    fromUTF8?_eq_some_iff.mpr rfl
  have parsed : Yaml.parse? "1: a\n\"1\": b\n".toList =
      some (.mapping [(.integer 1, .string "a"), (.string "1", .string "b")]) := by
    cbv
  refine ⟨parsed, ?_⟩
  simp only [Format.decode, decodeYaml, isText, parsed]
  cbv

end Value
end StaticSite
