import StaticSite.Proofs.Value.Names
import StaticSite.Value.OfYaml

/-!
# Decoded values bind no name twice

Reading JSON keeps one member of each name, and turning YAML mappings into maps keeps one field of
each name.  So no map in a decoded value binds a name twice.
-/

namespace StaticSite

/-! ## JSON trees -/

/-- Whether no object has two members of one name, in the tree or within it. -/
inductive Json.Distinct : Json → Prop
  | null : Distinct .null
  | boolean (value : Bool) : Distinct (.boolean value)
  | integer (value : Int) : Distinct (.integer value)
  | float (value : Float) : Distinct (.float value)
  | string (text : String) : Distinct (.string text)
  | array {items : List Json} (each : ∀ item ∈ items, Distinct item) : Distinct (.array items)
  | object {members : List (String × Json)} (names : (members.map Prod.fst).Nodup)
      (each : ∀ member ∈ members, Distinct member.2) : Distinct (.object members)

/-- Whether what is taken from the front of a text, if anything is, has a property. -/
def Text.TakesOnly {item α : Type} {size : Nat} (property : α → Prop)
    (taken? : Option (Text.Taken item α size)) : Prop :=
  ∀ taken ∈ taken?, property taken.value

namespace Text.TakesOnly

variable {item α β : Type} {size larger : Nat} {property : α → Prop} {other : β → Prop}

theorem none : TakesOnly property (.none : Option (Text.Taken item α size)) := by
  intro taken isTaken
  contradiction

theorem some {taken : Text.Taken item α size} (holds : property taken.value) :
    TakesOnly property (.some taken) := by
  intro found same
  exact Option.some.inj same ▸ holds

theorem map {taken? : Option (Text.Taken item α size)} (takes : TakesOnly property taken?)
    {change : α → β} (changed : ∀ value, property value → other (change value))
    (le : size ≤ larger) :
    TakesOnly other (taken?.map fun taken => (taken.map change).weaken le) := by
  intro found isFound
  obtain ⟨taken, isTaken, rfl⟩ := Option.map_eq_some_iff.mp isFound
  exact changed taken.value (takes taken isTaken)

end Text.TakesOnly

namespace Json

open Text (TakesOnly)

theorem insertMember_eq_setEntry (name : String) (value : Json) :
    insertMember name value = setEntry name value := by
  funext members
  induction members with
  | nil => rfl
  | cons member members induction => simp only [insertMember, setEntry, induction]

theorem Distinct.ofMembers {members : List (String × Json)}
    (each : ∀ member ∈ members, member.2.Distinct) :
    Json.Distinct
      (.object (members.foldl (fun all entry => insertMember entry.1 entry.2 all) [])) := by
  have same : members.foldl (fun all entry => insertMember entry.1 entry.2 all) [] =
      setEntries members := by
    simp only [insertMember_eq_setEntry, setEntries]
  obtain ⟨names, values⟩ := setEntries_spec each
  exact same ▸ .object names values

theorem distinct_of_integer? {negative : Bool} {whole : List Char} {tree : Json}
    (read : Numeral.integer? negative whole = some tree) : tree.Distinct := by
  unfold Numeral.integer? at read
  dsimp only at read
  split at read
  · obtain ⟨value, -, rfl⟩ := Option.map_eq_some_iff.mp read
    exact .float _
  · split at read
    · exact Option.some.inj read ▸ .integer _
    · split at read
      · exact Option.some.inj read ▸ .integer _
      · exact Option.some.inj read ▸ .float _

theorem distinct_of_read? {negative : Bool} {chars rest : List Char} {tree : Json}
    (read : Numeral.read? negative chars = some (tree, rest)) : tree.Distinct := by
  unfold Numeral.read? at read
  simp only [Option.bind_eq_bind, Option.bind_eq_some_iff, Prod.exists] at read
  obtain ⟨whole, _, -, fraction, _, -, exponent, _, -, last⟩ := read
  split at last
  · simp only [Option.bind_eq_some_iff, Option.pure_def, Option.some.injEq, Prod.mk.injEq] at last
    obtain ⟨integer, isInteger, rfl, -⟩ := last
    exact distinct_of_integer? isInteger
  · simp only [Option.bind_eq_some_iff, Option.pure_def, Option.some.injEq, Prod.mk.injEq] at last
    obtain ⟨value, -, rfl, -⟩ := last
    exact .float _

mutual

theorem takesOnly_value? (depth : Nat) (chars : List Char) :
    TakesOnly Distinct (value? depth chars) := by
  unfold value?
  split
  · exact .none
  · next c rest shorter first =>
    dsimp only
    split
    · split
      · exact .none
      · exact .some .null
    · split
      · exact .none
      · exact .some (.boolean true)
    · split
      · exact .none
      · exact .some (.boolean false)
    · have anything : TakesOnly (fun _ => True) (string? rest) := fun _ _ => trivial
      exact anything.map (fun chars _ => .string _) (Nat.le_of_lt shorter)
    · split
      · exact .none
      · exact (takesOnly_items? (depth - 1) true rest).map (fun _ each => .array each)
          (Nat.le_of_lt shorter)
    · split
      · exact .none
      · exact (takesOnly_members? (depth - 1) true rest).map (fun _ each => .ofMembers each)
          (Nat.le_of_lt shorter)
    · split
      · exact .none
      · next tree after read => exact .some (distinct_of_read? read)
    · split
      · exact .none
      · next tree after read => exact .some (distinct_of_read? read)
termination_by (chars.length, 0)

theorem takesOnly_items? (depth : Nat) (isFirst : Bool) (chars : List Char) :
    TakesOnly (fun items => ∀ item ∈ items, item.Distinct) (items? depth isFirst chars) := by
  unfold items?
  split
  · exact .none
  · next c rest shorter first =>
    split
    · exact .some fun _ member => absurd member List.not_mem_nil
    · split
      · exact .none
      · next next found =>
        have notLonger : next.length ≤ chars.length :=
          Nat.le_trans (length_afterSeparator?_le found) shorter
        dsimp only
        split
        · exact .none
        · next item isItem =>
          have later : item.rest.length < chars.length :=
            Nat.lt_of_lt_of_le item.shorter notLonger
          have here := takesOnly_value? depth next item isItem
          refine (takesOnly_items? depth false item.rest).map (fun more each => ?_) _
          exact List.forall_mem_cons.mpr ⟨here, each⟩
termination_by (chars.length, 1)
decreasing_by
  · rcases Nat.lt_or_eq_of_le notLonger with less | same
    · exact Prod.Lex.left _ _ less
    · exact same ▸ Prod.Lex.right _ Nat.zero_lt_one
  · exact Prod.Lex.left _ _ later

theorem takesOnly_members? (depth : Nat) (isFirst : Bool) (chars : List Char) :
    TakesOnly (fun members => ∀ member ∈ members, member.2.Distinct)
      (members? depth isFirst chars) := by
  unfold members?
  split
  · exact .none
  · next c rest shorter first =>
    split
    · exact .some fun _ member => absurd member List.not_mem_nil
    · split
      · exact .none
      · next next found =>
        have notLonger : next.length ≤ chars.length :=
          Nat.le_trans (length_afterSeparator?_le found) shorter
        dsimp only
        split
        · exact .none
        · next name isName =>
          have nameShorter : name.rest.length < chars.length :=
            Nat.lt_of_lt_of_le name.shorter notLonger
          split
          · exact .none
          · next value isValue =>
            have later : value.rest.length < chars.length :=
              Nat.lt_trans value.shorter nameShorter
            have here := takesOnly_value? depth name.rest value isValue
            refine (takesOnly_members? depth false value.rest).map (fun more each => ?_) _
            exact List.forall_mem_cons.mpr ⟨here, each⟩
termination_by (chars.length, 1)
decreasing_by
  · exact Prod.Lex.left _ _ nameShorter
  · exact Prod.Lex.left _ _ later

end

theorem distinct_of_parse? {chars : List Char} {tree : Json} (parsed : parse? chars = some tree) :
    tree.Distinct := by
  unfold parse? at parsed
  split at parsed
  · contradiction
  · next taken isTaken =>
    split at parsed
    · exact Option.some.inj parsed ▸ takesOnly_value? depthLimit chars taken isTaken
    · contradiction

end Json

/-! ## Values of trees -/

namespace Value

theorem distinct_ofInt (value : Int) : (ofInt value).Distinct := by
  unfold ofInt
  split
  · exact .integer _
  · exact .float _

mutual

/-- A map has as many fields as the object has members, of the same names. -/
theorem distinct_of_ofJson? : ∀ {tree : Json} {value : Value}, tree.Distinct →
    ofJson? tree = some value → value.Distinct
  | .null, _, _, given => by contradiction
  | .boolean value, _, _, given => Option.some.inj given ▸ .boolean value
  | .integer value, _, _, given => Option.some.inj given ▸ distinct_ofInt value
  | .float value, _, _, given => Option.some.inj given ▸ .float value
  | .string text, _, _, given => Option.some.inj given ▸ .string text
  | .array items, _, distinct, given => by
      obtain ⟨values, isValues, rfl⟩ := Option.map_eq_some_iff.mp given
      cases distinct with
      | array each => exact .list (distinct_of_itemsOfJson? each isValues)
  | .object members, _, distinct, given => by
      obtain ⟨fields, isFields, rfl⟩ := Option.map_eq_some_iff.mp given
      cases distinct with
      | object names each =>
          obtain ⟨same, values⟩ := distinct_of_fieldsOfJson? each isFields
          exact .map (same.symm ▸ names) values

theorem distinct_of_itemsOfJson? : ∀ {items : List Json} {values : List Value},
    (∀ item ∈ items, item.Distinct) → itemsOfJson? items = some values →
    ∀ value ∈ values, value.Distinct
  | [], _, _, given => by
      obtain rfl := Option.some.inj given
      exact fun _ member => absurd member List.not_mem_nil
  | item :: items, _, each, given => by
      obtain ⟨first, others⟩ := List.forall_mem_cons.mp each
      rw [itemsOfJson?] at given
      split at given
      · next value values isValue isValues =>
        obtain rfl := Option.some.inj given
        exact List.forall_mem_cons.mpr
          ⟨distinct_of_ofJson? first isValue, distinct_of_itemsOfJson? others isValues⟩
      · contradiction

theorem distinct_of_fieldsOfJson? : ∀ {members : List (String × Json)} {fields : Fields},
    (∀ member ∈ members, member.2.Distinct) → fieldsOfJson? members = some fields →
    fields.names = members.map Prod.fst ∧ ∀ field ∈ fields, field.2.Distinct
  | [], _, _, given => by
      obtain rfl := Option.some.inj given
      exact ⟨rfl, fun _ member => absurd member List.not_mem_nil⟩
  | (name, item) :: members, _, each, given => by
      obtain ⟨first, others⟩ := List.forall_mem_cons.mp each
      rw [fieldsOfJson?] at given
      split at given
      · next value fields isValue isFields =>
        obtain rfl := Option.some.inj given
        obtain ⟨same, values⟩ := distinct_of_fieldsOfJson? others isFields
        refine ⟨congrArg (name :: ·) same, List.forall_mem_cons.mpr ⟨?_, values⟩⟩
        exact distinct_of_ofJson? first isValue
      · contradiction

end

theorem distinct_of_decodeJson {content : ByteArray} {value : Value}
    (decoded : decodeJson content = .ok value) : value.Distinct := by
  unfold decodeJson at decoded
  split at decoded
  · contradiction
  · next text _ =>
    split at decoded
    · contradiction
    · next members parsed =>
      split at decoded
      · contradiction
      · next fields isFields =>
        obtain rfl := Except.ok.inj decoded
        exact distinct_of_ofJson? (Json.distinct_of_parse? parsed)
          (Option.map_eq_some_iff.mpr ⟨fields, isFields, rfl⟩)
    · contradiction

mutual

/-- What a YAML tree stands for keeps the last field of each name. -/
theorem distinct_of_ofYaml? : ∀ {tree : Yaml} {value : Value},
    ofYaml? tree = some value → value.Distinct
  | .null, _, given => Option.some.inj given ▸ .string ""
  | .boolean value, _, given => Option.some.inj given ▸ .boolean value
  | .integer value, _, given => Option.some.inj given ▸ distinct_ofInt value
  | .float value, _, given => Option.some.inj given ▸ .float value
  | .string text, _, given => Option.some.inj given ▸ .string text
  | .sequence items, _, given => by
      obtain ⟨values, isValues, rfl⟩ := Option.map_eq_some_iff.mp given
      exact .list (distinct_of_itemsOfYaml? isValues)
  | .mapping entries, _, given => by
      obtain ⟨fields, isFields, rfl⟩ := Option.map_eq_some_iff.mp given
      exact distinct_map_iff.mpr (Fields.distinct_ofEntries (distinct_of_entriesOfYaml? isFields))
  | .tagged _ tree, _, given => by
      rw [ofYaml?] at given
      exact distinct_of_ofYaml? given

theorem distinct_of_itemsOfYaml? : ∀ {items : List Yaml} {values : List Value},
    itemsOfYaml? items = some values → ∀ value ∈ values, value.Distinct
  | [], _, given => by
      obtain rfl := Option.some.inj given
      exact fun _ member => absurd member List.not_mem_nil
  | item :: items, _, given => by
      rw [itemsOfYaml?] at given
      split at given
      · next value values isValue isValues =>
        obtain rfl := Option.some.inj given
        exact List.forall_mem_cons.mpr
          ⟨distinct_of_ofYaml? isValue, distinct_of_itemsOfYaml? isValues⟩
      · contradiction

theorem distinct_of_entriesOfYaml? : ∀ {entries : List (Yaml × Yaml)} {fields : Fields},
    entriesOfYaml? entries = some fields → ∀ field ∈ fields, field.2.Distinct
  | [], _, given => by
      obtain rfl := Option.some.inj given
      exact fun _ member => absurd member List.not_mem_nil
  | (key, item) :: entries, _, given => by
      rw [entriesOfYaml?] at given
      split at given
      · next name value fields _ isValue isFields =>
        obtain rfl := Option.some.inj given
        exact List.forall_mem_cons.mpr
          ⟨distinct_of_ofYaml? isValue, distinct_of_entriesOfYaml? isFields⟩
      · contradiction

end

theorem distinct_of_decodeYaml {content : ByteArray} {value : Value}
    (decoded : decodeYaml content = .ok value) : value.Distinct := by
  unfold decodeYaml at decoded
  split at decoded
  · contradiction
  · next text _ =>
    split at decoded
    · contradiction
    · exact Except.ok.inj decoded ▸ .map List.nodup_nil (by simp)
    · split at decoded
      · contradiction
      · next value isValue => exact Except.ok.inj decoded ▸ distinct_of_ofYaml? isValue
    · contradiction

end Value
end StaticSite
