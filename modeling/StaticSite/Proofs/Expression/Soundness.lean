import StaticSite.Template.Baking

/-!
# Values have the kinds asked for

Whatever kind an expression is evaluated for, its value conforms to that kind.  An operation that
asks for a number, an integer or a truth value therefore never has to refuse the value of an
operand, and a condition that has a value has a truth value.
-/

namespace StaticSite
namespace Kind

/-- Whether a result is an error or a value that conforms to the kind. -/
def Admits (kind : Kind) (result : Except RenderError Value) : Prop :=
  ∀ value, result = .ok value → value.kind.conformsTo kind = true

theorem Admits.error (kind : Kind) (error : RenderError) : kind.Admits (.error error) := by
  intro value isValue
  contradiction

theorem Admits.ok {kind : Kind} {value : Value} (conforms : value.kind.conformsTo kind = true) :
    kind.Admits (.ok value) := by
  intro other same
  exact Except.ok.inj same ▸ conforms

theorem Admits.bind {α : Type} {kind : Kind} {first : Except RenderError α}
    {next : α → Except RenderError Value} (rest : ∀ a, first = .ok a → kind.Admits (next a)) :
    kind.Admits (first >>= next) := by
  cases first with
  | error error => exact .error kind error
  | ok a => exact rest a rfl

theorem conformsTo_of_require {kind natural : Kind} (passed : kind.require natural = .ok ()) :
    natural.conformsTo kind = true := by
  unfold Kind.require at passed
  split at passed
  · assumption
  · contradiction

theorem admits_ensure (kind : Kind) (value : Value) : kind.Admits (kind.ensure value) := by
  unfold ensure
  split
  · next conforms => exact .ok conforms
  · exact .error kind _

theorem admits_coerce (kind : Kind) (value : Value) : kind.Admits (kind.coerce value) := by
  unfold coerce
  split
  · exact .ok rfl
  · exact admits_ensure _ _

/-- Whether a search fails, finds nothing, or finds a value that conforms to the kind. -/
def AdmitsFound (kind : Kind) (search : Except RenderError (Option Value)) : Prop :=
  ∀ value, search = .ok (some value) → value.kind.conformsTo kind = true

theorem AdmitsFound.none (kind : Kind) : kind.AdmitsFound (.ok .none) := by
  intro value isValue
  cases isValue

theorem AdmitsFound.error (kind : Kind) (error : RenderError) :
    kind.AdmitsFound (.error error) := by
  intro value isValue
  contradiction

theorem AdmitsFound.bind {α : Type} {kind : Kind} {first : Except RenderError α}
    {next : α → Except RenderError (Option Value)}
    (rest : ∀ a, kind.AdmitsFound (next a)) : kind.AdmitsFound (first >>= next) := by
  cases first with
  | error error => exact .error kind error
  | ok a => exact rest a

theorem admitsFound_coerce (kind : Kind) (value : Value) :
    kind.AdmitsFound (some <$> kind.coerce value) := by
  intro found isFound
  cases coerced : kind.coerce value with
  | error error =>
      rw [coerced] at isFound
      contradiction
  | ok new =>
      rw [coerced] at isFound
      cases isFound
      exact kind.admits_coerce value found coerced

theorem AdmitsFound.coerced {kind : Kind} {next : Option Value → Except RenderError (Option Value)}
    (missing : next .none = .ok .none)
    (found : ∀ value, next (some value) = some <$> kind.coerce value) (result : Option Value) :
    kind.AdmitsFound (next result) := by
  cases result with
  | none => exact missing ▸ .none kind
  | some value => exact found value ▸ kind.admitsFound_coerce value

/-- What must be found conforms to the kind if what may be found does. -/
theorem AdmitsFound.admits {kind : Kind} {search : Except RenderError (Option Value)}
    {next : Option Value → Except RenderError Value} (admits : kind.AdmitsFound search)
    (missing : kind.Admits (next .none)) (found : ∀ value, next (some value) = .ok value) :
    kind.Admits (search >>= next) := by
  refine .bind fun result isResult => ?_
  cases result with
  | none => exact missing
  | some value =>
      rw [found value]
      exact .ok (admits value isResult)

end Kind

theorem Scope.admitsFound_resolve? (scope : Scope) (kind : Kind) (name : String) :
    kind.AdmitsFound (scope.resolve? kind name) := by
  unfold Scope.resolve?
  split
  · exact .none kind
  · exact kind.admitsFound_coerce _

theorem Value.admitsFound_field? (kind : Kind) (name : String) (value : Value) :
    kind.AdmitsFound (value.field? kind name) := by
  unfold Value.field?
  cases value <;> exact .bind (.coerced rfl fun _ => rfl)

theorem Value.admitsFound_index? (kind : Kind) (position : Int64) (value : Value) :
    kind.AdmitsFound (value.index? kind position) := by
  unfold Value.index?
  split
  · exact .none kind
  · cases value <;> exact .bind (.coerced rfl fun _ => rfl)

namespace Expression

/-- Where a text may stand, a sum of numbers or a joined text may stand. -/
theorem conformsTo_kind_addOrJoin {kind : Kind} (text : Kind.string.conformsTo kind = true)
    (a b : Value) : (addOrJoin kind a b).kind.conformsTo kind = true := by
  unfold addOrJoin
  split
  · next x y _ _ =>
    split
    · next number =>
      -- a kind above both texts and numbers is above everything
      have top : kind = .any := by
        revert text number
        cases kind <;> decide
      subst top
      cases x.plus y <;> rfl
    · exact text
  · exact text

/-- Whatever is evaluated conforms to the kind asked for. -/
theorem admits_eval (scope : Scope) (tree : Tree) (kind : Kind) :
    kind.Admits (eval scope tree kind) := by
  induction tree generalizing kind with
  | integer value =>
      rw [eval_integer_eq_coerce]
      exact kind.admits_coerce _
  | float value => exact .bind fun _ passed => .ok (Kind.conformsTo_of_require passed)
  | boolean value => exact .bind fun _ passed => .ok (Kind.conformsTo_of_require passed)
  | string text => exact .bind fun _ passed => .ok (Kind.conformsTo_of_require passed)
  | identifier name =>
      exact (scope.admitsFound_resolve? kind name).admits (.error kind _) fun _ => rfl
  | field target name =>
      refine .bind fun value _ => ?_
      exact (value.admitsFound_field? kind name).admits (.error kind _) fun _ => rfl
  | index target position =>
      refine .bind fun list _ => .bind fun _ _ => .bind fun place _ => ?_
      exact (list.admitsFound_index? kind place).admits (.error kind _) fun _ => rfl
  | unary operation operand =>
      cases operation with
      | plus | negate =>
          exact .bind fun _ _ => .bind fun _ _ => .bind fun _ _ => kind.admits_coerce _
      | bitNot | not =>
          refine .bind fun _ passed => .bind fun _ _ => .bind fun _ _ => ?_
          exact .ok (Kind.conformsTo_of_require passed)
  | binary operation left right =>
      cases operation with
      | or =>
          refine .bind fun _ passed => .bind fun _ _ => .bind fun truth _ => ?_
          have conforms := Kind.conformsTo_of_require passed
          cases truth with
          | true => exact .ok conforms
          | false => exact .bind fun _ _ => .bind fun _ _ => .ok conforms
      | and =>
          refine .bind fun _ passed => .bind fun _ _ => .bind fun truth _ => ?_
          have conforms := Kind.conformsTo_of_require passed
          cases truth with
          | true => exact .bind fun _ _ => .bind fun _ _ => .ok conforms
          | false => exact .ok conforms
      | equal | notEqual =>
          refine .bind fun _ passed => .bind fun _ _ => .bind fun _ _ => ?_
          exact .ok (Kind.conformsTo_of_require passed)
      | less | greater | atMost | atLeast | bitOr | bitXor | bitAnd | shiftLeft | shiftRight
      | shiftRightUnsigned =>
          refine .bind fun _ passed => .bind fun _ _ => .bind fun _ _ => .bind fun _ _ =>
            .bind fun _ _ => ?_
          exact .ok (Kind.conformsTo_of_require passed)
      | add =>
          rw [eval]
          split
          · next text =>
            exact .bind fun a _ => .bind fun b _ => .ok (conformsTo_kind_addOrJoin text a b)
          · exact .bind fun _ _ => .bind fun _ _ => .bind fun _ _ => .bind fun _ _ =>
              .bind fun _ _ => kind.admits_coerce _
      | subtract | multiply | divide | remainder | power =>
          exact .bind fun _ _ => .bind fun _ _ => .bind fun _ _ => .bind fun _ _ =>
            .bind fun _ _ => .bind fun _ _ => kind.admits_coerce _
  | conditional condition whenTrue whenFalse _ onTrue onFalse =>
      refine .bind fun _ _ => .bind fun holds _ => ?_
      cases holds with
      | true => exact onTrue kind
      | false => exact onFalse kind

theorem admits_evaluate (scope : Scope) (kind : Kind) (text : String) :
    kind.Admits (evaluate scope kind text) := by
  unfold evaluate
  split
  · exact .error kind _
  · exact admits_eval scope _ kind

/-! ## What is asked of values -/

theorem exists_expectNumber_of_conformsTo {value : Value} {kind : Kind}
    (conforms : value.kind.conformsTo kind.ofOperands = true) :
    ∃ number, value.expectNumber = .ok number := by
  have number := Kind.conformsTo_trans conforms kind.ofOperands_conformsTo_number
  cases value with
  | integer value => exact ⟨.integer value, rfl⟩
  | float value => exact ⟨.float value, rfl⟩
  | boolean | string | list | map | scope => contradiction

theorem exists_expectInteger_of_conformsTo {value : Value}
    (conforms : value.kind.conformsTo .integer = true) :
    ∃ number, value.expectInteger = .ok number := by
  cases value with
  | integer value => exact ⟨value, rfl⟩
  | float | boolean | string | list | map | scope => contradiction

theorem exists_eq_boolean_of_conformsTo {value : Value}
    (conforms : value.kind.conformsTo .boolean = true) : ∃ truth, value = .boolean truth := by
  cases value with
  | boolean truth => exact ⟨truth, rfl⟩
  | integer | float | string | list | map | scope => contradiction

/-- Where no value of a result is refused, an error is that of the result itself. -/
theorem bind_eq_error_iff {α : Type} {result : Except RenderError Value}
    {expect : Value → Except RenderError α}
    (accepted : ∀ value, result = .ok value → ∃ a, expect value = .ok a) (error : RenderError) :
    (result >>= expect) = .error error ↔ result = .error error := by
  cases result with
  | error other =>
      constructor
      · rintro ⟨⟩
        rfl
      · rintro ⟨⟩
        rfl
  | ok value =>
      obtain ⟨a, accepts⟩ := accepted value rfl
      have binds : (Except.ok value >>= expect) = .ok a := accepts
      simp [binds]

/-- The condition of a first branch holds just if it evaluates to true, and fails just if it
evaluates to false. -/
theorem conditionHolds_eq_ok_iff (scope : Scope) (text : String) (truth : Bool) :
    Template.conditionHolds .alone scope (some text) = .ok truth ↔
      evaluate scope .boolean text = .ok (.boolean truth) := by
  have admits := admits_evaluate scope .boolean text
  simp only [Template.conditionHolds]
  cases result : evaluate scope .boolean text with
  | error error => constructor <;> intro equal <;> cases equal
  | ok value =>
      obtain ⟨found, rfl⟩ := exists_eq_boolean_of_conformsTo (admits value result)
      constructor
      · rintro ⟨⟩
        rfl
      · rintro ⟨⟩
        rfl

/-- A value conforms to the kind that its expression is evaluated for.  What asks for a number, an
integer or a truth value fails only if the operand itself has no value, and a condition counts as
false only if it evaluates to false. -/
theorem eval_sound (scope : Scope) (tree : Tree) (kind : Kind) :
    (∀ value, eval scope tree kind = .ok value → value.kind.conformsTo kind = true) ∧
    (∀ error, (eval scope tree kind.ofOperands >>= Value.expectNumber) = .error error ↔
      eval scope tree kind.ofOperands = .error error) ∧
    (∀ error, (eval scope tree .number >>= Value.expectNumber) = .error error ↔
      eval scope tree .number = .error error) ∧
    (∀ error, (eval scope tree .integer >>= Value.expectInteger) = .error error ↔
      eval scope tree .integer = .error error) ∧
    (∀ error, (eval scope tree .boolean >>= Value.expectBoolean) = .error error ↔
      eval scope tree .boolean = .error error) ∧
    ∀ text truth, Template.conditionHolds .alone scope (some text) = .ok truth ↔
      evaluate scope .boolean text = .ok (.boolean truth) := by
  have number (asked : Kind) := bind_eq_error_iff fun value evaluates =>
    exists_expectNumber_of_conformsTo (admits_eval scope tree asked.ofOperands value evaluates)
  refine ⟨admits_eval scope tree kind, number kind, number .any, ?_, ?_,
    conditionHolds_eq_ok_iff scope⟩
  · exact bind_eq_error_iff fun value evaluates =>
      exists_expectInteger_of_conformsTo (admits_eval scope tree .integer value evaluates)
  · refine bind_eq_error_iff fun value evaluates => ?_
    obtain ⟨truth, rfl⟩ :=
      exists_eq_boolean_of_conformsTo (admits_eval scope tree .boolean value evaluates)
    exact ⟨truth, rfl⟩

/-- A sum of integers that is asked for as a number is a number. -/
theorem eval_sound_sum :
    ∃ value, eval .root (.binary .add (.integer 1) (.integer 2)) .number = .ok value ∧
      value.kind.conformsTo .number = true :=
  ⟨_, rfl, (eval_sound .root (.binary .add (.integer 1) (.integer 2)) .number).1 _ rfl⟩

end Expression
end StaticSite
