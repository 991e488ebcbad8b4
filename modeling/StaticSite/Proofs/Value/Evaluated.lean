import StaticSite.Proofs.Value.Names

/-!
# Evaluated values bind no name twice

Where the values that are in scope bind no name twice, what an expression yields does not either:
an operation yields a number, a truth value or a text, and everything else is found in the scope or
within what was found there.
-/

namespace StaticSite

/-- Whether a result is an error or a value that binds no name twice. -/
def GivesDistinct (result : Except RenderError Value) : Prop :=
  ∀ value, result = .ok value → value.Distinct

namespace GivesDistinct

variable {value : Value}

theorem error (error : RenderError) : GivesDistinct (.error error) := by
  intro value isValue
  contradiction

theorem ok (distinct : value.Distinct) : GivesDistinct (.ok value) := by
  intro other same
  exact Except.ok.inj same ▸ distinct

theorem bind {α : Type} {first : Except RenderError α} {next : α → Except RenderError Value}
    (rest : ∀ a, first = .ok a → GivesDistinct (next a)) : GivesDistinct (first >>= next) := by
  intro value ends
  obtain ⟨a, begins, ends⟩ := Except.bind_eq_ok_iff.mp ends
  exact rest a begins value ends

/-- What is coerced is the same value, or a float. -/
theorem coerce (distinct : value.Distinct) (kind : Kind) : GivesDistinct (kind.coerce value) := by
  unfold Kind.coerce
  split
  · exact ok (.float _)
  · unfold Kind.ensure
    split
    · exact ok distinct
    · exact error _

theorem coerce_ofNumber (number : Number) (kind : Kind) :
    GivesDistinct (kind.coerce (.ofNumber number)) := by
  cases number with
  | integer value => exact coerce (.integer value) kind
  | float value => exact coerce (.float value) kind

end GivesDistinct

/-! ## What is found -/

/-- Whether what a search finds binds no name twice. -/
def FindsDistinct (search : Except RenderError (Option Value)) : Prop :=
  ∀ value, search = .ok (some value) → value.Distinct

theorem FindsDistinct.error (error : RenderError) : FindsDistinct (.error error) := by
  intro value isValue
  contradiction

theorem FindsDistinct.ok {found : Option Value} (each : ∀ value ∈ found, value.Distinct) :
    FindsDistinct (.ok found) :=
  fun value isFound => each value (Except.ok.inj isFound)

/-- What is coerced once it is found. -/
theorem FindsDistinct.coerced {kind : Kind} {search : Except RenderError (Option Value)}
    {next : Option Value → Except RenderError (Option Value)} (finds : FindsDistinct search)
    (missing : next none = .ok none)
    (present : ∀ value, next (some value) = some <$> kind.coerce value) :
    FindsDistinct (search >>= next) := by
  intro value ends
  obtain ⟨_ | found, isFound, ends⟩ := Except.bind_eq_ok_iff.mp ends
  · simp [missing] at ends
  · rw [present, Except.map_eq_ok_iff] at ends
    obtain ⟨other, coerced, same⟩ := ends
    obtain rfl := Option.some.inj same
    exact GivesDistinct.coerce (finds found isFound) kind other coerced

/-- What must be found binds no name twice if what may be found does not. -/
theorem FindsDistinct.gives {search : Except RenderError (Option Value)}
    {next : Option Value → Except RenderError Value} (finds : FindsDistinct search)
    (missing : GivesDistinct (next none)) (present : ∀ value, next (some value) = .ok value) :
    GivesDistinct (search >>= next) := by
  refine .bind fun found isFound => ?_
  cases found with
  | none => exact missing
  | some value =>
      rw [present value]
      exact .ok (finds value isFound)

theorem Scope.Distinct.lookup? {scope : Scope} (distinct : scope.Distinct) {name : String}
    {value : Value} (found : scope.lookup? name = some value) : value.Distinct := by
  obtain ⟨inner, frame, outer, same, isFound, -⟩ := List.findSome?_eq_some_iff.mp found
  have frameDistinct := distinct frame (same ▸ by simp)
  exact frameDistinct.each (name, value)
    ((Fields.lookup_eq_some_iff frameDistinct.names).mp isFound)

theorem Scope.Distinct.resolve? {scope : Scope} (distinct : scope.Distinct) (kind : Kind)
    (name : String) : FindsDistinct (scope.resolve? kind name) := by
  intro value isFound
  unfold Scope.resolve? at isFound
  split at isFound
  · simp at isFound
  · next bound found =>
    obtain ⟨other, coerced, same⟩ := Except.map_eq_ok_iff.mp isFound
    obtain rfl := Option.some.inj same
    exact GivesDistinct.coerce (distinct.lookup? found) kind other coerced

theorem Value.Distinct.field? {value : Value} (distinct : value.Distinct) (kind : Kind)
    (name : String) : FindsDistinct (value.field? kind name) := by
  cases distinct with
  | integer | float | boolean => exact .error _
  | map names each =>
      refine .coerced (.ok fun value found => ?_) rfl fun _ => rfl
      exact each (name, value) ((Fields.lookup_eq_some_iff names).mp found)
  | scope names each =>
      refine .coerced (.ok fun value found => ?_) rfl fun _ => rfl
      exact Scope.Distinct.lookup? (fun frame member => ⟨names frame member, each frame member⟩)
        found
  | string | list =>
      refine .coerced (.ok fun value found => ?_) rfl fun _ => rfl
      split at found
      · obtain rfl := Option.some.inj found
        exact .integer _
      · contradiction

theorem Value.Distinct.index? {value : Value} (distinct : value.Distinct) (kind : Kind)
    (position : Int64) : FindsDistinct (value.index? kind position) := by
  unfold Value.index?
  split
  · exact .ok (by simp)
  · cases distinct with
    | integer | float | boolean | map | scope => exact .error _
    | string text =>
        refine .coerced (.ok fun value found => ?_) rfl fun _ => rfl
        obtain ⟨c, -, rfl⟩ := Option.map_eq_some_iff.mp found
        exact .string _
    | list each =>
        refine .coerced (.ok fun value found => ?_) rfl fun _ => rfl
        exact each value (List.mem_of_getElem? found)

/-! ## What is computed -/

namespace Expression

theorem distinct_addOrJoin (kind : Kind) (a b : Value) : (addOrJoin kind a b).Distinct := by
  unfold addOrJoin
  split
  · next x y _ _ =>
    split
    · cases x.plus y with
      | integer value => exact .integer value
      | float value => exact .float value
    · exact .string _
  · exact .string _

/-- What an expression yields binds no name twice, as the values in scope do not. -/
theorem givesDistinct_eval {scope : Scope} (distinct : scope.Distinct) (tree : Tree)
    (kind : Kind) : GivesDistinct (eval scope tree kind) := by
  induction tree generalizing kind with
  | integer value =>
      rw [eval_integer_eq_coerce]
      exact .coerce (.integer value) kind
  | float value => exact .bind fun _ _ => .ok (.float value)
  | boolean value => exact .bind fun _ _ => .ok (.boolean value)
  | string text => exact .bind fun _ _ => .ok (.string text)
  | identifier name => exact (distinct.resolve? kind name).gives (.error _) fun _ => rfl
  | field target name onTarget =>
      refine .bind fun value isValue => ?_
      exact ((onTarget .map value isValue).field? kind name).gives (.error _) fun _ => rfl
  | index target position onTarget _ =>
      refine .bind fun list isList => .bind fun _ _ => .bind fun place _ => ?_
      exact ((onTarget .list list isList).index? kind place).gives (.error _) fun _ => rfl
  | unary operation operand =>
      cases operation with
      | plus | negate =>
          exact .bind fun _ _ => .bind fun _ _ => .bind fun number _ => .coerce_ofNumber _ kind
      | bitNot => exact .bind fun _ _ => .bind fun _ _ => .bind fun _ _ => .ok (.integer _)
      | not => exact .bind fun _ _ => .bind fun _ _ => .bind fun _ _ => .ok (.boolean _)
  | binary operation left right =>
      cases operation with
      | or =>
          refine .bind fun _ _ => .bind fun _ _ => .bind fun truth _ => ?_
          cases truth with
          | true => exact .ok (.boolean _)
          | false => exact .bind fun _ _ => .bind fun _ _ => .ok (.boolean _)
      | and =>
          refine .bind fun _ _ => .bind fun _ _ => .bind fun truth _ => ?_
          cases truth with
          | true => exact .bind fun _ _ => .bind fun _ _ => .ok (.boolean _)
          | false => exact .ok (.boolean _)
      | equal | notEqual =>
          exact .bind fun _ _ => .bind fun _ _ => .bind fun _ _ => .ok (.boolean _)
      | less | greater | atMost | atLeast =>
          exact .bind fun _ _ => .bind fun _ _ => .bind fun _ _ => .bind fun _ _ =>
            .bind fun _ _ => .ok (.boolean _)
      | bitOr | bitXor | bitAnd | shiftLeft | shiftRight | shiftRightUnsigned =>
          exact .bind fun _ _ => .bind fun _ _ => .bind fun _ _ => .bind fun _ _ =>
            .bind fun _ _ => .ok (.integer _)
      | add =>
          rw [eval]
          split
          · exact .bind fun a _ => .bind fun b _ => .ok (distinct_addOrJoin kind a b)
          · exact .bind fun _ _ => .bind fun _ _ => .bind fun _ _ => .bind fun _ _ =>
              .bind fun _ _ => .coerce_ofNumber _ kind
      | subtract | multiply | divide | remainder | power =>
          exact .bind fun _ _ => .bind fun _ _ => .bind fun _ _ => .bind fun _ _ =>
            .bind fun _ _ => .bind fun _ _ => .coerce_ofNumber _ kind
  | conditional condition whenTrue whenFalse _ onTrue onFalse =>
      refine .bind fun _ _ => .bind fun holds _ => ?_
      cases holds with
      | true => exact onTrue kind
      | false => exact onFalse kind

theorem givesDistinct_evaluate {scope : Scope} (distinct : scope.Distinct) (kind : Kind)
    (text : String) : GivesDistinct (evaluate scope kind text) := by
  unfold evaluate
  split
  · exact .error _
  · exact givesDistinct_eval distinct _ kind

end Expression
end StaticSite
