import Mathlib
import StaticSite.Proofs.Value.Names

/-!
# Finding before coercing

A name in a scope, a field of a value and an item at a position are found first, and only then
coerced to the kind asked for.  Nothing is found for a name that no frame binds, for a field that a
value does not have, and at a position outside of a list or a text.
-/

namespace StaticSite
namespace Kind

/-- Coerce what is found, if anything is. -/
def coerceFound (kind : Kind) : Option Value → Except RenderError (Option Value)
  | none => .ok none
  | some value => some <$> kind.coerce value

variable {kind : Kind}

@[simp]
theorem coerceFound_any (found : Option Value) : any.coerceFound found = .ok found := by
  cases found with
  | none => rfl
  | some value => simp [coerceFound, Functor.map, Except.map]

@[simp]
theorem coerceFound_eq_ok_none_iff {found : Option Value} :
    kind.coerceFound found = .ok none ↔ found = none := by
  cases found with
  | none => simp [coerceFound]
  | some value => simp [coerceFound, Except.map_eq_ok_iff]

/-- Coercing to anything first changes nothing. -/
theorem coerceFound_eq_bind (found : Option Value) :
    kind.coerceFound found = any.coerceFound found >>= kind.coerceFound := by
  rw [coerceFound_any]
  rfl

end Kind

namespace Scope

variable {scope : Scope} {name : String}

theorem resolve?_eq_coerceFound (scope : Scope) (kind : Kind) (name : String) :
    scope.resolve? kind name = kind.coerceFound (scope.lookup? name) := by
  unfold resolve?
  cases scope.lookup? name <;> rfl

theorem lookup?_eq_none_iff :
    scope.lookup? name = none ↔ ∀ frame ∈ scope.frames, name ∉ frame.names := by
  simp only [lookup?, List.findSome?_eq_none_iff, Fields.lookup_eq_none_iff]

end Scope

namespace Value

variable {kind : Kind} {value : Value}

theorem field?_eq_bind (kind : Kind) (name : String) (value : Value) :
    value.field? kind name = value.field? .any name >>= kind.coerceFound := by
  cases value with
  | map | scope | string | list => exact Kind.coerceFound_eq_bind _
  | integer | float | boolean => rfl

theorem index?_eq_bind (kind : Kind) (position : Int64) (value : Value) :
    value.index? kind position = value.index? .any position >>= kind.coerceFound := by
  unfold index?
  split
  · rfl
  · cases value with
    | string | list => exact Kind.coerceFound_eq_bind _
    | integer | float | boolean | map | scope => rfl

theorem not_mem_fieldNames_of_field? (mapLike : value.kind.conformsTo .map = true) {name : String}
    (missing : value.field? kind name = .ok none) : name ∉ value.fieldNames := by
  obtain ⟨found, isFound, tells⟩ := field?_any_eq_ok mapLike name
  rw [field?_eq_bind, isFound] at missing
  obtain rfl := Kind.coerceFound_eq_ok_none_iff.mp missing
  simpa using tells

theorem exists_length?_of_conformsTo (listLike : value.kind.conformsTo .list = true) :
    ∃ length, value.length? = some length := by
  cases value with
  | string text => exact ⟨_, rfl⟩
  | list items => exact ⟨_, rfl⟩
  | integer | float | boolean | map | scope => contradiction

/-- Nothing is found at a position outside of a list or a text. -/
theorem index?_any_eq_ok {length : Nat} (measured : value.length? = some length)
    (position : Int64) :
    ∃ found, value.index? .any position = .ok found ∧
      (found = none ↔ position.toInt < 0 ∨ (length : Int) ≤ position.toInt) := by
  unfold index?
  split
  · next negative =>
    have before : position.toInt < 0 := Int64.lt_iff_toInt_lt.mp negative
    exact ⟨none, rfl, iff_of_true rfl (.inl before)⟩
  · next notNegative =>
    have counted : 0 ≤ position.toInt := by
      rwa [Int64.lt_iff_toInt_lt, Int64.toInt_zero, not_lt] at notNegative
    cases value with
    | string text =>
        obtain rfl := Option.some.inj measured
        refine ⟨_, Kind.coerceFound_any _, ?_⟩
        simp only [Option.map_eq_none_iff, List.getElem?_eq_none_iff, String.length_toList]
        omega
    | list items =>
        obtain rfl := Option.some.inj measured
        refine ⟨_, Kind.coerceFound_any _, ?_⟩
        rw [List.getElem?_eq_none_iff]
        omega
    | integer | float | boolean | map | scope => contradiction

theorem outside_of_index? {position : Int64} {length : Nat}
    (measured : value.length? = some length) (missing : value.index? kind position = .ok none) :
    position.toInt < 0 ∨ (length : Int) ≤ position.toInt := by
  obtain ⟨found, isFound, tells⟩ := index?_any_eq_ok measured position
  rw [index?_eq_bind, isFound] at missing
  exact tells.mp (Kind.coerceFound_eq_ok_none_iff.mp missing)

end Value
end StaticSite
