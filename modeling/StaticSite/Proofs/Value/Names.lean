import Mathlib
import StaticSite.Proofs.Expression.Filtering

/-!
# Names of fields

What answers for names like a map tells the names that it has fields for.  Each of them is told
once, and asking for a field finds something for just these names, as long as no map or frame binds
a name twice.
-/

namespace StaticSite

/-! ## Items once each -/

section

variable {α : Type} [BEq α] [LawfulBEq α]

theorem nodup_eraseDups : ∀ items : List α, items.eraseDups.Nodup
  | [] => List.nodup_nil
  | item :: items => by
      rw [List.eraseDups_cons, List.nodup_cons]
      exact ⟨by simp, nodup_eraseDups (items.filter fun other => !other == item)⟩
termination_by items => items.length
decreasing_by exact Nat.lt_succ_of_le (List.length_filter_le ..)

/-- The first of each item are the same whether some items are left out before or after. -/
theorem eraseDups_filter (test : α → Bool) :
    ∀ items : List α, (items.filter test).eraseDups = items.eraseDups.filter test
  | [] => rfl
  | item :: items => by
      have others := eraseDups_filter test (items.filter fun other => !other == item)
      rw [List.eraseDups_cons, List.filter_cons, List.filter_cons, ← others]
      split
      · rw [List.eraseDups_cons, List.filter_filter, List.filter_filter]
        simp only [Bool.and_comm]
      · next fails =>
        congr 1
        rw [List.filter_filter]
        refine List.filter_congr fun other _ => ?_
        by_cases same : other = item
        · simp [same, fails]
        · simp [same]
termination_by items => items.length
decreasing_by exact Nat.lt_succ_of_le (List.length_filter_le ..)

theorem eraseDups_of_nodup {items : List α} (nodup : items.Nodup) : items.eraseDups = items := by
  induction items with
  | nil => rfl
  | cons item items induction =>
      obtain ⟨isNew, others⟩ := List.nodup_cons.mp nodup
      have noneLeft : items.filter (fun other => !other == item) = items := by
        rw [List.filter_eq_self]
        intro other member
        simpa using fun same : other = item => isNew (same ▸ member)
      rw [List.eraseDups_cons, noneLeft, induction others]

end

/-! ## Entries by name -/

section

variable {β : Type} {entries : List (String × β)} {name : String} {value : β}

/-- Set the entry of a name.  A name that is already there keeps its place. -/
def setEntry (name : String) (value : β) : List (String × β) → List (String × β)
  | [] => [(name, value)]
  | (other, old) :: rest =>
      if other == name then (name, value) :: rest else (other, old) :: setEntry name value rest

/-- A new name comes last. -/
theorem names_setEntry (name : String) (value : β) (entries : List (String × β)) :
    (setEntry name value entries).map Prod.fst =
      if name ∈ entries.map Prod.fst then entries.map Prod.fst
      else entries.map Prod.fst ++ [name] := by
  induction entries with
  | nil => rfl
  | cons entry entries induction =>
      obtain ⟨other, old⟩ := entry
      by_cases same : other = name
      · subst same
        simp [setEntry]
      · rw [setEntry, if_neg (by simpa using same), List.map_cons, List.map_cons, induction]
        by_cases known : name ∈ entries.map Prod.fst
        · simp [known]
        · simp [known, Ne.symm same]

theorem eq_or_mem_of_mem_setEntry {entry : String × β}
    (member : entry ∈ setEntry name value entries) : entry = (name, value) ∨ entry ∈ entries := by
  induction entries with
  | nil => exact .inl (List.mem_singleton.mp member)
  | cons first entries induction =>
      obtain ⟨other, old⟩ := first
      rw [setEntry] at member
      split at member
      · rcases List.mem_cons.mp member with here | there
        · exact .inl here
        · exact .inr (List.mem_cons_of_mem _ there)
      · rcases List.mem_cons.mp member with rfl | there
        · exact .inr List.mem_cons_self
        · exact (induction there).imp_right (List.mem_cons_of_mem _)

theorem nodup_setEntry (nodup : (entries.map Prod.fst).Nodup) (name : String) (value : β) :
    ((setEntry name value entries).map Prod.fst).Nodup := by
  rw [names_setEntry]
  split
  · exact nodup
  · next isNew =>
    rw [← List.concat_eq_append]
    exact nodup.concat isNew

/-- The entries of a list that are set one after the other. -/
def setEntries (entries : List (String × β)) : List (String × β) :=
  entries.foldl (fun all entry => setEntry entry.1 entry.2 all) []

/-- They have different names and values that were given. -/
theorem setEntries_spec {property : β → Prop} (each : ∀ entry ∈ entries, property entry.2) :
    ((setEntries entries).map Prod.fst).Nodup ∧
      ∀ entry ∈ setEntries entries, property entry.2 := by
  have kept (all : List (String × β)) (nodup : (all.map Prod.fst).Nodup)
      (before : ∀ entry ∈ all, property entry.2) :
      let whole := entries.foldl (fun all entry => setEntry entry.1 entry.2 all) all
      (whole.map Prod.fst).Nodup ∧ ∀ entry ∈ whole, property entry.2 := by
    induction entries generalizing all with
    | nil => exact ⟨nodup, before⟩
    | cons entry entries induction =>
        obtain ⟨first, others⟩ := List.forall_mem_cons.mp each
        refine induction others _ (nodup_setEntry nodup entry.1 entry.2) fun other member => ?_
        rcases eq_or_mem_of_mem_setEntry member with rfl | old
        · exact first
        · exact before other old
  exact kept [] List.nodup_nil fun _ member => absurd member List.not_mem_nil

end

/-! ## Values that bind no name twice -/

/-- Whether no map and no frame of a scope binds a name twice, in the value or in what it is made
of. -/
inductive Value.Distinct : Value → Prop
  | integer (value : Int64) : Distinct (.integer value)
  | float (value : Float) : Distinct (.float value)
  | boolean (value : Bool) : Distinct (.boolean value)
  | string (text : String) : Distinct (.string text)
  | list {items : List Value} (each : ∀ item ∈ items, Distinct item) : Distinct (.list items)
  | map {fields : Fields} (names : fields.names.Nodup)
      (each : ∀ field ∈ fields, Distinct field.2) : Distinct (.map fields)
  | scope {address : Address} {frames : List Fields} {text : String}
      (names : ∀ frame ∈ frames, frame.names.Nodup)
      (each : ∀ frame ∈ frames, ∀ field ∈ frame, Distinct field.2) :
      Distinct (.scope address frames text)

/-- Whether fields have different names and such values. -/
structure Fields.Distinct (fields : Fields) : Prop where
  names : fields.names.Nodup
  each : ∀ field ∈ fields, field.2.Distinct

/-- Whether all frames of a scope are so. -/
def Scope.Distinct (scope : Scope) : Prop :=
  ∀ frame ∈ scope.frames, Fields.Distinct frame

namespace Value

@[simp]
theorem distinct_map_iff {fields : Fields} : (map fields).Distinct ↔ fields.Distinct := by
  constructor
  · rintro (_ | _ | _ | _ | _ | ⟨names, each⟩ | _)
    exact ⟨names, each⟩
  · rintro ⟨names, each⟩
    exact .map names each

@[simp]
theorem distinct_scope_iff {address : Address} {frames : List Fields} {text : String} :
    (scope address frames text).Distinct ↔ (⟨frames⟩ : Scope).Distinct := by
  constructor
  · rintro (_ | _ | _ | _ | _ | _ | ⟨names, each⟩) frame member
    exact ⟨names frame member, each frame member⟩
  · intro distinct
    exact .scope (fun frame member => (distinct frame member).names)
      fun frame member => (distinct frame member).each

end Value

/-! ## Fields -/

namespace Fields

variable {fields : Fields} {name : String} {value : Value}

theorem mem_names_iff : name ∈ fields.names ↔ ∃ value, (name, value) ∈ fields := by
  simp [names]

theorem lookup_eq_none_iff : fields.lookup name = none ↔ name ∉ fields.names := by
  rw [List.lookup_eq_none_iff, mem_names_iff]
  simp only [bne_iff_ne, ne_eq, Prod.forall, not_exists]
  constructor
  · exact fun others value member => others name value member rfl
  · rintro noField other value member rfl
    exact noField value member

theorem isSome_lookup_iff : (fields.lookup name).isSome = true ↔ name ∈ fields.names := by
  rw [← not_iff_not, ← lookup_eq_none_iff, Bool.not_eq_true, Option.isSome_eq_false_iff,
    Option.isNone_iff_eq_none]

/-- What is found for a name is what the name stands for. -/
theorem lookup_eq_some_iff (distinct : fields.names.Nodup) :
    fields.lookup name = some value ↔ (name, value) ∈ fields := by
  induction fields with
  | nil => simp
  | cons field fields induction =>
      obtain ⟨other, first⟩ := field
      obtain ⟨isNew, others⟩ := List.nodup_cons.mp distinct
      by_cases same : name = other
      · subst same
        have noOther : (name, value) ∉ fields := fun member =>
          isNew (mem_names_iff.mpr ⟨value, member⟩)
        simp [noOther, eq_comm]
      · simp [List.lookup_cons, beq_false_of_ne same, same, induction others]

theorem insert_eq_setEntry (name : String) (value : Value) :
    insert name value = setEntry name value := by
  funext fields
  induction fields with
  | nil => rfl
  | cons field fields induction => simp only [insert, setEntry, induction]

theorem Distinct.insert (distinct : fields.Distinct) (isDistinct : value.Distinct)
    (name : String) : (Fields.insert name value fields).Distinct := by
  rw [insert_eq_setEntry]
  refine ⟨nodup_setEntry distinct.names name value, fun field member => ?_⟩
  rcases eq_or_mem_of_mem_setEntry member with rfl | before
  · exact isDistinct
  · exact distinct.each field before

/-- Entries whose values bind no name twice give fields that do not either. -/
theorem distinct_ofEntries {entries : List (String × Value)}
    (each : ∀ entry ∈ entries, entry.2.Distinct) : (ofEntries entries).Distinct := by
  have same : ofEntries entries = setEntries entries := by
    simp only [ofEntries, insert_eq_setEntry, setEntries]
  obtain ⟨names, values⟩ := setEntries_spec each
  exact same ▸ ⟨names, values⟩

end Fields

/-! ## Frames -/

namespace Scope

/-- The names that are visible through frames, those of the innermost first: a frame shows all
names that it binds, and of the frames around it those that it does not bind. -/
def visibleNames : List Fields → List String
  | [] => []
  | frame :: outer =>
      frame.names ++ (visibleNames outer).filter fun name => !frame.names.contains name

/-- Whether a value is what the innermost frame that binds a name binds it to. -/
def Shows (frames : List Fields) (name : String) (found : Value) : Prop :=
  ∃ inner frame outer, frames = inner ++ frame :: outer ∧
    (∀ closer ∈ inner, name ∉ closer.names) ∧ (name, found) ∈ frame

variable {frames : List Fields} {name : String} {found : Value}

/-- A frame shows its names before those around it that it does not bind itself. -/
theorem names_cons {frame : Fields} (distinct : frame.names.Nodup) (outer : List Fields) :
    names ⟨frame :: outer⟩ =
      frame.names ++ (names ⟨outer⟩).filter fun name => !frame.names.contains name := by
  rw [names, List.flatMap_cons, List.eraseDups_append, eraseDups_of_nodup distinct,
    List.removeAll, eraseDups_filter]
  rfl

theorem names_eq_visibleNames (distinct : ∀ frame ∈ frames, frame.names.Nodup) :
    names ⟨frames⟩ = visibleNames frames := by
  induction frames with
  | nil => rfl
  | cons frame outer induction =>
      obtain ⟨first, others⟩ := List.forall_mem_cons.mp distinct
      rw [names_cons first, induction others]
      rfl

theorem lookup?_eq_some_iff (distinct : ∀ frame ∈ frames, frame.names.Nodup) :
    lookup? ⟨frames⟩ name = some found ↔ Shows frames name found := by
  rw [lookup?, List.findSome?_eq_some_iff]
  constructor
  · rintro ⟨inner, frame, outer, rfl, isFound, before⟩
    refine ⟨inner, frame, outer, rfl, fun closer member =>
      Fields.lookup_eq_none_iff.mp (before closer member), ?_⟩
    exact (Fields.lookup_eq_some_iff (distinct frame (by simp))).mp isFound
  · rintro ⟨inner, frame, outer, rfl, before, member⟩
    refine ⟨inner, frame, outer, rfl, ?_, fun closer member =>
      Fields.lookup_eq_none_iff.mpr (before closer member)⟩
    exact (Fields.lookup_eq_some_iff (distinct frame (by simp))).mpr member

theorem distinct_root : root.Distinct :=
  fun _ member => absurd member List.not_mem_nil

theorem Distinct.extend {scope : Scope} {bindings : Fields} (distinct : scope.Distinct)
    (isDistinct : bindings.Distinct) : (scope.extend bindings).Distinct := by
  unfold Scope.extend
  split
  · exact distinct
  · exact List.forall_mem_cons.mpr ⟨isDistinct, distinct⟩

theorem Distinct.bind {scope : Scope} {value : Value} (distinct : scope.Distinct) (name : String)
    (isDistinct : value.Distinct) : (scope.bind name value).Distinct :=
  distinct.extend ⟨List.nodup_singleton name, List.forall_mem_singleton.mpr isDistinct⟩

/-- Just the visible names have a value. -/
theorem isSome_lookup?_iff {scope : Scope} :
    (scope.lookup? name).isSome = true ↔ name ∈ scope.names := by
  rw [lookup?, List.findSome?_isSome_iff, names, List.mem_eraseDups, List.mem_flatMap]
  exact exists_congr fun frame => and_congr_right fun _ => Fields.isSome_lookup_iff

end Scope

/-! ## Values like maps -/

namespace Value

/-- Whether a value has something in a field of a name.  A list or a string has its length. -/
def HasField : Value → String → Value → Prop
  | map fields, name, found => (name, found) ∈ fields
  | scope _ frames _, name, found => Scope.Shows frames name found
  | value, name, found =>
      name = lengthField ∧ ∃ length, value.length? = some length ∧ found = integer (.ofNat length)

variable {value : Value}

@[simp]
theorem field?_any_map (fields : Fields) (name : String) :
    (map fields).field? .any name = .ok (fields.lookup name) := by
  refine Except.bind_eq_ok_iff.mpr ⟨fields.lookup name, rfl, ?_⟩
  cases fields.lookup name with
  | none => rfl
  | some value => simp [Functor.map, Except.map]

@[simp]
theorem field?_any_scope (address : Address) (frames : List Fields) (text name : String) :
    (scope address frames text).field? .any name = .ok (Scope.lookup? ⟨frames⟩ name) := by
  refine Except.bind_eq_ok_iff.mpr ⟨Scope.lookup? ⟨frames⟩ name, rfl, ?_⟩
  cases Scope.lookup? ⟨frames⟩ name with
  | none => rfl
  | some value => simp [Functor.map, Except.map]

theorem field?_any_of_length? {length : Nat} (measured : value.length? = some length)
    (name : String) :
    value.field? .any name =
      .ok (if name == lengthField then some (integer (.ofNat length)) else none) := by
  cases value with
  | string | list =>
      obtain rfl := Option.some.inj measured
      refine Except.bind_eq_ok_iff.mpr
        ⟨if name == lengthField then some (integer (.ofNat _)) else none, rfl, ?_⟩
      split
      · simp [Functor.map, Except.map]
      · rfl
  | _ => contradiction

/-- Asking for a field of a value that is like a map does not fail, and finds something for just
the names that the value tells. -/
theorem field?_any_eq_ok (mapLike : value.kind.conformsTo .map = true) (name : String) :
    ∃ found, value.field? .any name = .ok found ∧
      (found.isSome = true ↔ name ∈ value.fieldNames) := by
  cases value with
  | map fields =>
      exact ⟨_, field?_any_map fields name, Fields.isSome_lookup_iff⟩
  | scope address frames text => exact ⟨_, field?_any_scope .., Scope.isSome_lookup?_iff⟩
  | string text =>
      refine ⟨_, field?_any_of_length? rfl name, ?_⟩
      simp [fieldNames]
  | list items =>
      refine ⟨_, field?_any_of_length? rfl name, ?_⟩
      simp [fieldNames]
  | _ => contradiction

theorem field?_any_eq_ok_some_iff (distinct : value.Distinct)
    (mapLike : value.kind.conformsTo .map = true) {name : String} {found : Value} :
    value.field? .any name = .ok (some found) ↔ value.HasField name found := by
  cases distinct with
  | map names each =>
      rw [field?_any_map, Except.ok.injEq]
      exact Fields.lookup_eq_some_iff names
  | scope names each =>
      rw [field?_any_scope, Except.ok.injEq]
      exact Scope.lookup?_eq_some_iff names
  | string text =>
      rw [field?_any_of_length? rfl, Except.ok.injEq]
      by_cases same : name = lengthField
      · simpa [HasField, length?, same] using eq_comm
      · simp [HasField, same]
  | list each =>
      rw [field?_any_of_length? rfl, Except.ok.injEq]
      by_cases same : name = lengthField
      · simpa [HasField, length?, same] using eq_comm
      · simp [HasField, same]
  | _ => contradiction

theorem nodup_fieldNames (distinct : value.Distinct) : value.fieldNames.Nodup := by
  cases distinct with
  | map names each => exact names
  | scope names each => exact nodup_eraseDups _
  | string | list => exact List.nodup_singleton _
  | _ => exact List.nodup_nil

end Value

end StaticSite
