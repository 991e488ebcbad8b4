import Mathlib.Data.List.Forall2

/-!
# Results in sequence

A computation that may fail ends well if each of its steps does, and fails as one of them does.
What every step keeps is kept by all of them together.
-/

namespace StaticSite

theorem Except.bind_eq_ok_iff {ε α β : Type} {first : Except ε α} {next : α → Except ε β}
    {last : β} :
    first >>= next = .ok last ↔ ∃ value, first = .ok value ∧ next value = .ok last := by
  cases first with
  | error error => simp [bind, Except.bind]
  | ok value => simp [bind, Except.bind]

/-- What follows a result can be replaced by what ends well with it too. -/
theorem Except.bind_eq_ok_imp {ε α β γ : Type} {first : Except ε α} {next : α → Except ε β}
    {other : α → Except ε γ} {last : β} {result : γ} (ran : first >>= next = .ok last)
    (follows : ∀ value, next value = .ok last → other value = .ok result) :
    first >>= other = .ok result := by
  obtain ⟨value, first, ends⟩ := Except.bind_eq_ok_iff.mp ran
  exact Except.bind_eq_ok_iff.mpr ⟨value, first, follows value ends⟩

theorem Except.bind_eq_error_iff {ε α β : Type} {first : Except ε α} {next : α → Except ε β}
    {error : ε} :
    first >>= next = .error error ↔
      first = .error error ∨ ∃ value, first = .ok value ∧ next value = .error error := by
  cases first with
  | error error => simp [bind, Except.bind]
  | ok value => simp [bind, Except.bind]

theorem Except.map_eq_ok_iff {ε α β : Type} {result : Except ε α} {change : α → β} {last : β} :
    change <$> result = .ok last ↔ ∃ value, result = .ok value ∧ change value = last := by
  cases result with
  | error error => simp [Functor.map, Except.map]
  | ok value => simp [Functor.map, Except.map]

theorem Except.map_eq_error_iff {ε α β : Type} {result : Except ε α} {change : α → β} {error : ε} :
    change <$> result = .error error ↔ result = .error error := by
  cases result with
  | error error => simp [Functor.map, Except.map]
  | ok value => simp [Functor.map, Except.map]

theorem Except.mapError_eq_ok_iff {ε ε' α : Type} {result : Except ε α} {change : ε → ε'}
    {value : α} : result.mapError change = .ok value ↔ result = .ok value := by
  cases result with
  | error error => simp [Except.mapError]
  | ok value => simp [Except.mapError]

theorem Except.exists_of_isOk {ε α : Type} {result : Except ε α} (isOk : result.isOk = true) :
    ∃ value, result = .ok value := by
  cases result with
  | error error => contradiction
  | ok value => exact ⟨value, rfl⟩

/-- What each step of a run keeps, the run keeps. -/
theorem Except.keeps_of_foldlM {ε α β : Type} {step : β → α → Except ε β} {kept : β → Prop}
    {items : List α}
    (keeps : ∀ item ∈ items, ∀ before after, kept before → step before item = .ok after →
      kept after)
    {before after : β} (start : kept before) (ran : items.foldlM step before = .ok after) :
    kept after := by
  induction items generalizing before with
  | nil => exact Except.ok.inj ran ▸ start
  | cons item items induction =>
      obtain ⟨first, others⟩ := List.forall_mem_cons.mp keeps
      obtain ⟨next, stepped, ran⟩ := Except.bind_eq_ok_iff.mp ran
      exact induction others (first before next start stepped) ran

/-- A walk over items ends well if it does at each of them. -/
theorem Except.mapM_eq_ok_iff {ε α β : Type} {step : α → Except ε β} {items : List α}
    {results : List β} :
    items.mapM step = .ok results ↔
      List.Forall₂ (fun item result => step item = .ok result) items results := by
  induction items generalizing results with
  | nil => simp [pure, Except.pure, eq_comm]
  | cons item items induction =>
      simp only [List.mapM_cons, Except.bind_eq_ok_iff, pure, Except.pure, Except.ok.injEq,
        List.forall₂_cons_left_iff, induction]
      constructor
      · rintro ⟨first, here, others, there, rfl⟩
        exact ⟨first, others, here, there, rfl⟩
      · rintro ⟨first, others, here, there, rfl⟩
        exact ⟨first, here, others, there, rfl⟩

/-- A walk over items fails as it does at the first of them where it fails. -/
theorem Except.mapM_eq_error_iff {ε α β : Type} {step : α → Except ε β} {items : List α}
    {error : ε} :
    items.mapM step = .error error ↔
      ∃ front item back, items = front ++ item :: back ∧ step item = .error error ∧
        ∀ earlier ∈ front, ∃ result, step earlier = .ok result := by
  induction items with
  | nil => simp [pure, Except.pure]
  | cons item items induction =>
      simp only [List.mapM_cons, Except.bind_eq_error_iff, induction, pure, Except.pure,
        reduceCtorEq, and_false, exists_false, or_false]
      constructor
      · rintro (here | ⟨result, passes, front, last, back, rfl, fails, before⟩)
        · exact ⟨[], item, items, rfl, here, by simp⟩
        · refine ⟨item :: front, last, back, rfl, fails, ?_⟩
          exact List.forall_mem_cons.mpr ⟨⟨result, passes⟩, before⟩
      · rintro ⟨_ | ⟨first, front⟩, last, back, same, fails, before⟩
        · obtain ⟨rfl, rfl⟩ := List.cons.inj same
          exact .inl fails
        · obtain ⟨rfl, rfl⟩ := List.cons.inj same
          obtain ⟨⟨result, passes⟩, others⟩ := List.forall_mem_cons.mp before
          exact .inr ⟨result, passes, front, last, back, rfl, fails, others⟩

section

variable {ε α β : Type} {step : α → Except ε β} {items : List α} {stepAt : Nat → Except ε β}
  (same : ∀ position item, items[position]? = some item → stepAt position = step item)

include same

/-- A walk over items ends well if each position does that has the result of its item. -/
theorem Except.mapM_eq_ok_iff_positions {results : List β} :
    items.mapM step = .ok results ↔
      results.length = items.length ∧
        ∀ position result, results[position]? = some result → stepAt position = .ok result := by
  rw [Except.mapM_eq_ok_iff, List.forall₂_iff_get]
  constructor
  · rintro ⟨sameLength, each⟩
    refine ⟨sameLength.symm, fun position result found => ?_⟩
    obtain ⟨inside, rfl⟩ := List.getElem?_eq_some_iff.mp found
    have within : position < items.length := by omega
    rw [same position items[position] (List.getElem?_eq_getElem within)]
    exact each position within inside
  · rintro ⟨sameLength, each⟩
    refine ⟨sameLength.symm, fun position within inside => ?_⟩
    have found := each position results[position] (List.getElem?_eq_getElem inside)
    rw [same position items[position] (List.getElem?_eq_getElem within)] at found
    exact found

/-- A walk over items fails as the first position does. -/
theorem Except.mapM_eq_error_iff_positions {error : ε} :
    items.mapM step = .error error ↔
      ∃ position < items.length, stepAt position = .error error ∧
        ∀ earlier < position, ∃ result, stepAt earlier = .ok result := by
  rw [Except.mapM_eq_error_iff]
  constructor
  · rintro ⟨front, item, back, rfl, fails, before⟩
    refine ⟨front.length, by simp, ?_, fun earlier isEarlier => ?_⟩
    · rw [same front.length item (by simp)]
      exact fails
    · have found : (front ++ item :: back)[earlier]? = some front[earlier] := by
        rw [List.getElem?_append_left isEarlier, List.getElem?_eq_getElem isEarlier]
      rw [same earlier front[earlier] found]
      exact before _ (List.getElem_mem isEarlier)
  · rintro ⟨position, within, fails, before⟩
    refine ⟨items.take position, items[position], items.drop (position + 1), ?_, ?_, ?_⟩
    · rw [List.getElem_cons_drop, List.take_append_drop]
    · rw [← same position items[position] (List.getElem?_eq_getElem within)]
      exact fails
    · intro item member
      obtain ⟨earlier, isEarlier, rfl⟩ := List.mem_take_iff_getElem.mp member
      have below : earlier < position := by omega
      have inside : earlier < items.length := by omega
      obtain ⟨result, passes⟩ := before earlier below
      exact ⟨result, (same earlier _ (List.getElem?_eq_getElem inside)).symm.trans passes⟩

end

/-! ## Allowed errors -/

/-- Whether a result, if it is an error, is one of certain errors. -/
def FailsOnly {ε α : Type} (allowed : ε → Prop) (result : Except ε α) : Prop :=
  ∀ error, result = .error error → allowed error

namespace FailsOnly

variable {ε α β : Type} {allowed : ε → Prop}

theorem ok (value : α) : FailsOnly allowed (.ok value) := by
  intro error isError
  contradiction

theorem error {error : ε} (isAllowed : allowed error) :
    FailsOnly allowed (.error error : Except ε α) := by
  intro other same
  exact Except.error.inj same ▸ isAllowed

/-- What comes first fails only so, and what follows does too where the first ends well. -/
theorem andThen {first : Except ε α} {next : α → Except ε β} (before : FailsOnly allowed first)
    (rest : ∀ value, first = .ok value → FailsOnly allowed (next value)) :
    FailsOnly allowed (first >>= next) := by
  cases first with
  | error error => exact .error (before error rfl)
  | ok value => exact rest value rfl

theorem bind {first : Except ε α} {next : α → Except ε β} (before : FailsOnly allowed first)
    (rest : ∀ value, FailsOnly allowed (next value)) : FailsOnly allowed (first >>= next) :=
  before.andThen fun value _ => rest value

theorem map {result : Except ε α} (change : α → β) (before : FailsOnly allowed result) :
    FailsOnly allowed (change <$> result) := by
  cases result with
  | error error => exact .error (before error rfl)
  | ok value => exact .ok (change value)

theorem mono {other : ε → Prop} {result : Except ε α} (fails : FailsOnly allowed result)
    (implies : ∀ error, allowed error → other error) : FailsOnly other result :=
  fun error failed => implies error (fails error failed)

end FailsOnly

end StaticSite
