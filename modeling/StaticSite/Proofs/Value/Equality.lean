import Mathlib
import StaticSite.Proofs.Value.Names

/-!
# Equality of values

Lists are compared item by item, and maps field by field, from the fields of the first map only.
As no map binds a name twice it does not matter which of two values comes first.  Values in which
there are no floats and no baked scopes are equal just if they are the same once the fields of all
maps are sorted by name.
-/

namespace StaticSite

/-! ## Numbers -/

namespace Number

open Float.Model

section

variable {spec : Float.Model.Format}

/-- Rounding does not look at the sign. -/
theorem abs_round (sign : UnpackedFloat.Sign) (mantissa : Nat) (exponent : Int) :
    (UnpackedFloat.round spec sign mantissa exponent).abs =
      (UnpackedFloat.round spec .positive mantissa exponent).abs := by
  simp only [UnpackedFloat.round, UnpackedFloat.roundWithAccuracy]
  split <;> rfl

theorem abs_normalize_neg (mantissa exponent : Int) (sign : UnpackedFloat.Sign) :
    (UnpackedFloat.normalize spec (-mantissa) exponent sign).abs =
      (UnpackedFloat.normalize spec mantissa exponent sign).abs := by
  rcases lt_trichotomy mantissa 0 with negative | rfl | positive
  · have opposite : compare (-mantissa) 0 = .gt := compare_gt_iff_gt.mpr (by omega)
    simp only [UnpackedFloat.normalize, compare_lt_iff_lt.mpr negative, opposite]
    exact (abs_round .negative _ exponent).symm
  · rfl
  · have opposite : compare (-mantissa) 0 = .lt := compare_lt_iff_lt.mpr (by omega)
    simp only [UnpackedFloat.normalize, compare_gt_iff_gt.mpr positive, opposite, neg_neg]
    exact abs_round .negative _ exponent

/-- Two differences of the same numbers are the same up to the sign. -/
theorem abs_sub_swap (a b : UnpackedFloat) :
    (UnpackedFloat.sub spec a b).abs = (UnpackedFloat.sub spec b a).abs := by
  cases a with
  | notANumber => cases b <;> rfl
  | infinity first =>
      cases b with
      | infinity second => cases first <;> cases second <;> rfl
      | _ => rfl
  | zero first =>
      cases b with
      | zero second => cases first <;> cases second <;> rfl
      | _ => rfl
  | finite first mantissa exponent positive =>
      cases b with
      | finite second other power _ =>
          simp only [UnpackedFloat.sub, UnpackedFloat.decreaseExponent]
          rw [← abs_normalize_neg, neg_sub, min_comm exponent power]
      | _ => rfl

theorem abs_unpack_packComponents (sign : UnpackedFloat.Sign) (exponent : BitVec spec.exponentBits)
    (mantissa : BitVec spec.mantissaBitsWithoutImplicit) :
    (UnpackedFloat.unpack spec (UnpackedFloat.packComponents spec sign exponent mantissa)).abs =
      (UnpackedFloat.unpack spec
        (UnpackedFloat.packComponents spec .positive exponent mantissa)).abs := by
  simp only [UnpackedFloat.unpack, UnpackedFloat.unpackExponent_packComponents,
    UnpackedFloat.unpackMantissa_packComponents]
  split
  · split <;> rfl
  · split
    · split <;> rfl
    · rfl

/-- Packing keeps what is left without the sign. -/
theorem abs_unpack_pack (a : UnpackedFloat) :
    (UnpackedFloat.unpack spec (UnpackedFloat.pack spec a)).abs =
      (UnpackedFloat.unpack spec (UnpackedFloat.pack spec a.abs)).abs := by
  cases a with
  | notANumber => rfl
  | infinity sign => exact abs_unpack_packComponents sign _ _
  | zero sign => exact abs_unpack_packComponents sign _ _
  | finite sign mantissa exponent positive =>
      rw [show (UnpackedFloat.finite sign mantissa exponent positive).abs =
        .finite .positive mantissa exponent positive from rfl]
      simp only [UnpackedFloat.pack]
      split_ifs
      · exact abs_unpack_packComponents sign _ _
      · exact abs_unpack_packComponents sign _ _
      · exact abs_unpack_packComponents sign _ _

end

/-- So two floats are as far apart whichever of them comes first. -/
theorem float_abs_sub_comm (a b : Float) : (a - b).abs = (b - a).abs := by
  have same : (a.toModel - b.toModel).abs = (b.toModel - a.toModel).abs := by
    have unpacked : (a.toModel - b.toModel).unpack.abs = (b.toModel - a.toModel).unpack.abs := by
      refine (abs_unpack_pack _).trans (.trans ?_ (abs_unpack_pack _).symm)
      rw [abs_sub_swap]
    exact congrArg Float.Model.pack unpacked
  exact congrArg Float.ofModel same

theorem near_comm (a b : Float) : near a b = near b a := by
  rw [near, near, float_abs_sub_comm]

theorem isEqual_comm (a b : Number) : a.isEqual b = b.isEqual a := by
  cases a with
  | integer a =>
      cases b with
      | integer b => exact Bool.beq_comm
      | float b => exact near_comm _ _
  | float a => cases b <;> exact near_comm _ _

end Number

/-! ## Fields -/

namespace Fields

variable {fields others : Fields} {name : String} {value other : Value}
  {related : Value → Value → Prop}

/-- Whether there are as many fields as others, and each has a related one of the same name among
the others. -/
structure Pairs (related : Value → Value → Prop) (fields others : Fields) : Prop where
  length : fields.length = others.length
  each : ∀ field ∈ fields, ∃ other, (field.1, other) ∈ others ∧ related field.2 other

theorem eq_of_mem_of_mem (names : fields.names.Nodup) (first : (name, value) ∈ fields)
    (second : (name, other) ∈ fields) : value = other := by
  have found := (lookup_eq_some_iff names).mpr first
  rw [(lookup_eq_some_iff names).mpr second] at found
  exact (Option.some.inj found).symm

/-- As many different names as there are others are all of them, so each of the others has its
field as well. -/
theorem Pairs.flip (pairs : Pairs related fields others) (names : fields.names.Nodup)
    (otherNames : others.names.Nodup) :
    Pairs (fun other value => related value other) others fields where
  length := pairs.length.symm
  each := by
    rintro ⟨name, other⟩ member
    have subset : fields.names ⊆ others.names := by
      intro name member
      obtain ⟨value, member⟩ := mem_names_iff.mp member
      obtain ⟨other, isOther, -⟩ := pairs.each _ member
      exact mem_names_iff.mpr ⟨other, isOther⟩
    have fits : others.names.length ≤ fields.names.length := by
      simp only [Fields.names, List.length_map, pairs.length, Nat.le_refl]
    have all : fields.names.Perm others.names := (names.subperm subset).perm_of_length_le fits
    have isName : name ∈ fields.names := all.mem_iff.mpr (mem_names_iff.mpr ⟨other, member⟩)
    obtain ⟨value, isField⟩ := mem_names_iff.mp isName
    obtain ⟨found, isFound, isRelated⟩ := pairs.each _ isField
    exact ⟨value, isField, eq_of_mem_of_mem otherNames isFound member ▸ isRelated⟩

theorem pairs_comm (names : fields.names.Nodup) (otherNames : others.names.Nodup) :
    Pairs related fields others ↔ Pairs (fun other value => related value other) others fields :=
  ⟨fun pairs => pairs.flip names otherNames, fun pairs => pairs.flip otherNames names⟩

theorem pairs_congr {relatedToo : Value → Value → Prop}
    (same : ∀ field ∈ fields, ∀ other ∈ others,
      (related field.2 other.2 ↔ relatedToo field.2 other.2)) :
    Pairs related fields others ↔ Pairs relatedToo fields others := by
  have each (field : String × Value) (member : field ∈ fields) :
      (∃ other, (field.1, other) ∈ others ∧ related field.2 other) ↔
        ∃ other, (field.1, other) ∈ others ∧ relatedToo field.2 other :=
    exists_congr fun other => and_congr_right fun isOther => same field member _ isOther
  exact ⟨fun pairs => ⟨pairs.length, fun field member => (each field member).mp
      (pairs.each field member)⟩,
    fun pairs => ⟨pairs.length, fun field member => (each field member).mpr
      (pairs.each field member)⟩⟩

/-- The fields with each value changed. -/
def mapValues (change : Value → Value) (fields : Fields) : Fields :=
  fields.map fun field => (field.1, change field.2)

variable {change : Value → Value}

@[simp]
theorem names_mapValues (change : Value → Value) (fields : Fields) :
    (mapValues change fields).names = fields.names := by
  simp [mapValues, Fields.names]

theorem mem_mapValues_iff :
    (name, other) ∈ mapValues change fields ↔
      ∃ value, (name, value) ∈ fields ∧ change value = other := by
  simp [mapValues]

/-- Fields whose values a change makes the same are a permutation of each other once they are
changed. -/
theorem pairs_iff_perm (names : fields.names.Nodup) (otherNames : others.names.Nodup) :
    Pairs (fun value other => change value = change other) fields others ↔
      (mapValues change fields).Perm (mapValues change others) := by
  constructor
  · intro pairs
    have nodup : (mapValues change fields).Nodup := by
      rw [← names_mapValues change] at names
      exact .of_map Prod.fst names
    have otherNodup : (mapValues change others).Nodup := by
      rw [← names_mapValues change] at otherNames
      exact .of_map Prod.fst otherNames
    refine (List.perm_ext_iff_of_nodup nodup otherNodup).mpr fun ⟨name, changed⟩ => ?_
    simp only [mem_mapValues_iff]
    constructor
    · rintro ⟨value, member, rfl⟩
      obtain ⟨other, isOther, same⟩ := pairs.each _ member
      exact ⟨other, isOther, same.symm⟩
    · rintro ⟨other, member, rfl⟩
      exact (pairs.flip names otherNames).each _ member
  · intro perm
    refine ⟨by simpa [mapValues] using perm.length_eq, fun field member => ?_⟩
    have changed : (field.1, change field.2) ∈ mapValues change fields :=
      mem_mapValues_iff.mpr ⟨field.2, member, rfl⟩
    obtain ⟨other, isOther, same⟩ := mem_mapValues_iff.mp (perm.mem_iff.mp changed)
    exact ⟨other, isOther, same.symm⟩

/-- The fields by name. -/
def sort (fields : Fields) : Fields :=
  fields.mergeSort fun field other => decide (field.1 ≤ other.1)

theorem pairwise_sort (fields : Fields) :
    fields.sort.Pairwise fun field other => field.1 ≤ other.1 := by
  have sorted : fields.sort.Pairwise fun field other => decide (field.1 ≤ other.1) = true :=
    List.pairwise_mergeSort
      (fun first second third => by simpa using String.le_trans)
      (fun first second => by simpa using String.le_total first.1 second.1) fields
  simpa only [decide_eq_true_eq] using sorted

theorem perm_sort (fields : Fields) : fields.sort.Perm fields :=
  List.mergeSort_perm ..

theorem sort_eq_sort_iff (names : fields.names.Nodup) :
    fields.sort = others.sort ↔ fields.Perm others := by
  constructor
  · intro same
    exact (perm_sort fields).symm.trans (same ▸ perm_sort others)
  · intro perm
    refine List.Perm.eq_of_pairwise (fun field other member isOther before after => ?_)
      (pairwise_sort fields) (pairwise_sort others)
      ((perm_sort fields).trans (perm.trans (perm_sort others).symm))
    have first : field ∈ fields := (perm_sort fields).mem_iff.mp member
    have second : other ∈ fields := perm.mem_iff.mpr ((perm_sort others).mem_iff.mp isOther)
    have sameName : field.1 = other.1 := String.le_antisymm before after
    exact Prod.ext sameName (eq_of_mem_of_mem names first (sameName ▸ second))

end Fields

/-! ## Values -/

namespace Value

variable {items others : List Value} {fields : Fields} {a b : Value}

theorem forall₂_congr_mem {related relatedToo : Value → Value → Prop}
    (same : ∀ item ∈ items, ∀ other ∈ others, (related item other ↔ relatedToo item other)) :
    List.Forall₂ related items others ↔ List.Forall₂ relatedToo items others := by
  induction items generalizing others with
  | nil => cases others <;> simp
  | cons item items induction =>
      cases others with
      | nil => simp
      | cons other others =>
          rw [List.forall₂_cons, List.forall₂_cons,
            same item List.mem_cons_self other List.mem_cons_self,
            induction fun item member other isOther => same item (List.mem_cons_of_mem _ member)
              other (List.mem_cons_of_mem _ isOther)]

theorem itemsEqual_iff :
    itemsEqual items others = true ↔
      List.Forall₂ (fun item other => item.isEqual other = true) items others := by
  induction items generalizing others with
  | nil => cases others <;> simp [itemsEqual]
  | cons item items induction => cases others <;> simp [itemsEqual, induction]

theorem isEqual_list_iff :
    (list items).isEqual (list others) = true ↔
      List.Forall₂ (fun item other => item.isEqual other = true) items others := by
  rw [isEqual, itemsEqual_iff]

theorem fieldsAmong_eq_all (others fields : Fields) :
    fieldsAmong others fields =
      fields.all fun field => (others.lookup field.1).any field.2.isEqual := by
  induction fields with
  | nil => rfl
  | cons field fields induction =>
      obtain ⟨name, value⟩ := field
      rw [fieldsAmong, induction, List.all_cons]
      congr 1
      cases others.lookup name <;> rfl

theorem isEqual_map_iff {others : Fields} (otherNames : others.names.Nodup) :
    (map fields).isEqual (map others) = true ↔
      Fields.Pairs (fun value other => value.isEqual other = true) fields others := by
  simp only [isEqual, fieldsAmong_eq_all, Bool.and_eq_true, beq_iff_eq, List.all_eq_true,
    Option.any_eq_true, Fields.lookup_eq_some_iff otherNames]
  exact ⟨fun ⟨length, each⟩ => ⟨length, each⟩, fun pairs => ⟨pairs.length, pairs.each⟩⟩

/-- It does not matter which of two values comes first. -/
theorem Distinct.isEqual_comm (first : a.Distinct) (second : b.Distinct) :
    a.isEqual b = b.isEqual a := by
  induction first generalizing b with
  | integer value =>
      cases b with
      | integer other => exact Number.isEqual_comm (.integer value) (.integer other)
      | float other => exact Number.isEqual_comm (.integer value) (.float other)
      | _ => rfl
  | float value =>
      cases b with
      | integer other => exact Number.isEqual_comm (.float value) (.integer other)
      | float other => exact Number.isEqual_comm (.float value) (.float other)
      | _ => rfl
  | boolean value =>
      cases b with
      | boolean => exact Bool.beq_comm
      | _ => rfl
  | string text =>
      cases b with
      | string => exact Bool.beq_comm
      | _ => rfl
  | scope =>
      cases b with
      | scope => exact Bool.beq_comm
      | _ => rfl
  | @list items each induction =>
      cases second with
      | @list others eachOther =>
          have same : List.Forall₂ (fun item other => item.isEqual other = true) items others ↔
              List.Forall₂ (fun item other => other.isEqual item = true) items others :=
            forall₂_congr_mem fun item member other isOther => by
              rw [induction item member (eachOther other isOther)]
          rw [Bool.eq_iff_iff, isEqual_list_iff, isEqual_list_iff, same]
          exact ⟨List.Forall₂.flip, List.Forall₂.flip⟩
      | _ => rfl
  | @map fields names each induction =>
      cases second with
      | @map others otherNames eachOther =>
          rw [Bool.eq_iff_iff, isEqual_map_iff otherNames, isEqual_map_iff names,
            Fields.pairs_comm names otherNames]
          refine Fields.pairs_congr fun other isOther field member => ?_
          rw [induction field member (eachOther other isOther)]
      | _ => rfl

/-! ## Values sorted by name -/

/-- Whether there are no floats and no baked scopes in a value. -/
inductive Plain : Value → Prop
  | integer (value : Int64) : Plain (.integer value)
  | boolean (value : Bool) : Plain (.boolean value)
  | string (text : String) : Plain (.string text)
  | list {items : List Value} (each : ∀ item ∈ items, Plain item) : Plain (.list items)
  | map {fields : Fields} (each : ∀ field ∈ fields, Plain field.2) : Plain (.map fields)

mutual

/-- The value with the fields of all maps in it sorted by name. -/
def sorted : Value → Value
  | list items => list (sortedItems items)
  | map fields => map (Fields.sort (sortedFields fields))
  | value => value

def sortedItems : List Value → List Value
  | [] => []
  | item :: rest => item.sorted :: sortedItems rest

def sortedFields : Fields → Fields
  | [] => []
  | (name, value) :: rest => (name, value.sorted) :: sortedFields rest

end

theorem sortedItems_eq_map (items : List Value) : sortedItems items = items.map sorted := by
  induction items with
  | nil => rfl
  | cons item items induction => rw [sortedItems, induction, List.map_cons]

theorem sortedFields_eq_mapValues (fields : Fields) :
    sortedFields fields = Fields.mapValues sorted fields := by
  induction fields with
  | nil => rfl
  | cons field fields induction =>
      rw [sortedFields, induction]
      rfl

/-- Values without floats and baked scopes are equal just if they are the same once sorted. -/
theorem Plain.isEqual_iff (plain : a.Plain) (first : a.Distinct) (second : b.Distinct)
    (plainToo : b.Plain) : a.isEqual b = true ↔ a.sorted = b.sorted := by
  induction plain generalizing b with
  | integer value =>
      cases plainToo with
      | integer other => simp [isEqual, number?, Number.isEqual, sorted]
      | _ => simp [isEqual, number?, sorted]
  | boolean value => cases plainToo <;> simp [isEqual, sorted]
  | string text => cases plainToo <;> simp [isEqual, sorted]
  | @list items each induction =>
      cases plainToo with
      | @list others eachToo =>
          cases first with | list distinct =>
          cases second with | list distinctToo =>
          have same : List.Forall₂ (fun item other => item.isEqual other = true) items others ↔
              List.Forall₂ (fun item other => item.sorted = other.sorted) items others :=
            forall₂_congr_mem fun item member other isOther =>
              induction item member (distinct item member) (distinctToo other isOther)
                (eachToo other isOther)
          rw [isEqual_list_iff, same, sorted, sorted, sortedItems_eq_map, sortedItems_eq_map,
            list.injEq, ← List.forall₂_eq_eq_eq, List.forall₂_map_left_iff,
            List.forall₂_map_right_iff]
      | _ => simp [isEqual, sorted]
  | @map fields each induction =>
      cases plainToo with
      | @map others eachToo =>
          cases first with | map names distinct =>
          cases second with | map namesToo distinctToo =>
          have same : Fields.Pairs (fun value other => value.isEqual other = true) fields others ↔
              Fields.Pairs (fun value other => value.sorted = other.sorted) fields others :=
            Fields.pairs_congr fun field member other isOther =>
              induction field member (distinct field member) (distinctToo other isOther)
                (eachToo other isOther)
          have changed : (Fields.mapValues sorted fields).names.Nodup := by
            rwa [Fields.names_mapValues]
          rw [isEqual_map_iff namesToo, same, Fields.pairs_iff_perm names namesToo, sorted, sorted,
            sortedFields_eq_mapValues, sortedFields_eq_mapValues, map.injEq,
            Fields.sort_eq_sort_iff changed]
      | _ => simp [isEqual, sorted]

/-- So equality is an equivalence relation on such values. -/
theorem equivalence_isEqual :
    Equivalence fun a b : {value : Value // value.Distinct ∧ value.Plain} =>
      a.1.isEqual b.1 = true := by
  have iff (a b : {value : Value // value.Distinct ∧ value.Plain}) :
      a.1.isEqual b.1 = true ↔ a.1.sorted = b.1.sorted :=
    a.2.2.isEqual_iff a.2.1 b.2.1 b.2.2
  simp only [iff]
  exact ⟨fun _ => rfl, Eq.symm, Eq.trans⟩

/-- The order of the fields of a map does not matter. -/
theorem isEqual_map_of_perm {others : Fields} (perm : fields.Perm others) (b : Value) :
    (map fields).isEqual b = (map others).isEqual b := by
  cases b with
  | map more =>
      simp only [isEqual, fieldsAmong_eq_all, perm.length_eq, perm.all_eq]
  | _ => rfl

/-- Equality of values does not depend on which of them comes first.  For values without floats and
baked scopes it is an equivalence relation, and it holds just if they are the same once the fields
of all maps in them are sorted by name.  The order of the fields of a map never matters, and lists
are equal just if they are so item by item. -/
theorem isEqual_comm_and_iff_sorted :
    (∀ a b : Value, a.Distinct → b.Distinct → a.isEqual b = b.isEqual a) ∧
    (Equivalence fun a b : {value : Value // value.Distinct ∧ value.Plain} =>
      a.1.isEqual b.1 = true) ∧
    (∀ a b : Value, a.Distinct → b.Distinct → a.Plain → b.Plain →
      (a.isEqual b = true ↔ a.sorted = b.sorted)) ∧
    (∀ (fields others : Fields) (b : Value), fields.Perm others →
      (map fields).isEqual b = (map others).isEqual b) ∧
    (∀ items others : List Value, (list items).isEqual (list others) = true ↔
      List.Forall₂ (fun item other => item.isEqual other = true) items others) :=
  ⟨fun _ _ first second => first.isEqual_comm second, equivalence_isEqual,
    fun _ _ first second plain plainToo => plain.isEqual_iff first second plainToo,
    fun _ _ b perm => isEqual_map_of_perm perm b, fun _ _ => isEqual_list_iff⟩

/-- A page with its tags, and a list of such pages. -/
def taggedPages : Value :=
  list [map [("title", string "Home"), ("tags", map [("new", boolean true), ("views", integer 3)])]]

/-- The same with the fields of both maps in another order. -/
def reorderedPages : Value :=
  list [map [("tags", map [("views", integer 3), ("new", boolean true)]), ("title", string "Home")]]

/-- They are equal, whichever comes first, but not the same. -/
theorem isEqual_reorderedPages :
    taggedPages.Distinct ∧ reorderedPages.Distinct ∧ taggedPages.Plain ∧ reorderedPages.Plain ∧
      taggedPages ≠ reorderedPages ∧ taggedPages.sorted = reorderedPages.sorted ∧
      taggedPages.isEqual reorderedPages = true ∧
      reorderedPages.isEqual taggedPages = true := by
  have distinct : taggedPages.Distinct := by
    refine .list (List.forall_mem_singleton.mpr (.map (by decide) ?_))
    refine List.forall_mem_cons.mpr ⟨.string "Home", List.forall_mem_singleton.mpr ?_⟩
    exact .map (by decide)
      (List.forall_mem_cons.mpr ⟨.boolean true, List.forall_mem_singleton.mpr (.integer 3)⟩)
  have distinctToo : reorderedPages.Distinct := by
    refine .list (List.forall_mem_singleton.mpr (.map (by decide) ?_))
    refine List.forall_mem_cons.mpr ⟨?_, List.forall_mem_singleton.mpr (.string "Home")⟩
    exact .map (by decide)
      (List.forall_mem_cons.mpr ⟨.integer 3, List.forall_mem_singleton.mpr (.boolean true)⟩)
  have plain : taggedPages.Plain := by
    refine .list (List.forall_mem_singleton.mpr (.map ?_))
    refine List.forall_mem_cons.mpr ⟨.string "Home", List.forall_mem_singleton.mpr ?_⟩
    exact .map
      (List.forall_mem_cons.mpr ⟨.boolean true, List.forall_mem_singleton.mpr (.integer 3)⟩)
  have plainToo : reorderedPages.Plain := by
    refine .list (List.forall_mem_singleton.mpr (.map ?_))
    refine List.forall_mem_cons.mpr ⟨?_, List.forall_mem_singleton.mpr (.string "Home")⟩
    exact .map
      (List.forall_mem_cons.mpr ⟨.integer 3, List.forall_mem_singleton.mpr (.boolean true)⟩)
  have differ : taggedPages ≠ reorderedPages := by simp [taggedPages, reorderedPages]
  have same : taggedPages.sorted = reorderedPages.sorted := by cbv
  obtain ⟨comm, -, iff, -⟩ := isEqual_comm_and_iff_sorted
  have equal := (iff _ _ distinct distinctToo plain plainToo).mpr same
  exact ⟨distinct, distinctToo, plain, plainToo, differ, same, equal,
    (comm _ _ distinctToo distinct).trans equal⟩

end Value
end StaticSite
