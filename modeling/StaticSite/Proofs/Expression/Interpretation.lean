import StaticSite.Proofs.Expression.Filtering

/-!
# Trees of arithmetic

A tree of numbers, names of numbers and operations can be interpreted in any type that has such
operations.  Where evaluation does at each operation what an interpretation does, it does so on
whole trees.  A tree that is asked for as a float is interpreted in floats: each number in it
becomes a float first, so that no operation ever meets two integers.
-/

namespace StaticSite

theorem Kind.coerce_float_ofNumber (number : Number) :
    Kind.float.coerce (.ofNumber number) = .ok (.float number.toFloat) := by
  cases number <;> rfl

theorem Value.number?_ofNumber (number : Number) : (ofNumber number).number? = some number := by
  cases number <;> rfl

theorem Value.expectNumber_ofNumber (number : Number) :
    (ofNumber number).expectNumber = .ok number :=
  expectNumber_eq_ok_iff.mpr rfl

namespace Expression

/-! ## Interpretations -/

/-- What trees of arithmetic are built from. -/
structure Vocabulary where
  /-- Whether a number may stand in a tree, or be what a name in it is bound to. -/
  hasNumber : Number → Bool
  signs : List Unary
  operations : List Binary

/-- Trees of numbers, names bound to numbers, signs and operations, all of a vocabulary. -/
inductive Vocabulary.Builds (vocabulary : Vocabulary) (scope : Scope) : Tree → Prop
  | integer {value : Int64} (known : vocabulary.hasNumber (.integer value) = true) :
      Builds vocabulary scope (.integer value)
  | float {value : Float} (known : vocabulary.hasNumber (.float value) = true) :
      Builds vocabulary scope (.float value)
  | identifier {name : String} (number : Number)
      (bound : scope.lookup? name = some (.ofNumber number))
      (known : vocabulary.hasNumber number = true) : Builds vocabulary scope (.identifier name)
  | unary {sign : Unary} {operand : Tree} (known : sign ∈ vocabulary.signs)
      (onOperand : Builds vocabulary scope operand) :
      Builds vocabulary scope (.unary sign operand)
  | binary {operation : Binary} {left right : Tree} (known : operation ∈ vocabulary.operations)
      (onLeft : Builds vocabulary scope left) (onRight : Builds vocabulary scope right) :
      Builds vocabulary scope (.binary operation left right)

/-- What numbers, signs and operations stand for in a type, as far as they stand for something. -/
structure Interpretation (α : Type) where
  number? : Number → Option α
  unary? : Unary → Option (α → α)
  binary? : Binary → Option (α → α → α)

namespace Interpretation

variable {α : Type}

/-- What a tree stands for, if everything in it stands for something. -/
def value? (meaning : Interpretation α) (scope : Scope) : Tree → Option α
  | .integer value => meaning.number? (.integer value)
  | .float value => meaning.number? (.float value)
  | .identifier name => do
      let number ← (← scope.lookup? name).number?
      meaning.number? number
  | .unary sign operand => do
      let change ← meaning.unary? sign
      return change (← value? meaning scope operand)
  | .binary operation left right => do
      let combine ← meaning.binary? operation
      return combine (← value? meaning scope left) (← value? meaning scope right)
  | _ => none

/-- Whether evaluation for a kind does what an interpretation does with everything in a vocabulary,
where what trees stand for is seen as values. -/
structure Governs (meaning : Interpretation α) (vocabulary : Vocabulary) (kind : Kind)
    (seen : α → Value) : Prop where
  number (number : Number) (known : vocabulary.hasNumber number = true) :
    ∃ a, meaning.number? number = some a ∧ kind.coerce (.ofNumber number) = .ok (seen a)
  unary (sign : Unary) (known : sign ∈ vocabulary.signs) :
    ∃ change, meaning.unary? sign = some change ∧
      ∀ {scope operand a}, eval scope operand kind = .ok (seen a) →
        eval scope (.unary sign operand) kind = .ok (seen (change a))
  binary (operation : Binary) (known : operation ∈ vocabulary.operations) :
    ∃ combine, meaning.binary? operation = some combine ∧
      ∀ {scope left right a b}, eval scope left kind = .ok (seen a) →
        eval scope right kind = .ok (seen b) →
          eval scope (.binary operation left right) kind = .ok (seen (combine a b))

end Interpretation

variable {scope : Scope} {tree left right operand : Tree} {kind : Kind}

/-- What evaluation does at each operation as an interpretation does it, it does so on whole
trees. -/
theorem Interpretation.Governs.exists_value {α : Type} {meaning : Interpretation α}
    {vocabulary : Vocabulary} {seen : α → Value} (governs : meaning.Governs vocabulary kind seen)
    (built : vocabulary.Builds scope tree) :
    ∃ a, meaning.value? scope tree = some a ∧ eval scope tree kind = .ok (seen a) := by
  induction built with
  | integer known =>
      obtain ⟨a, means, coerces⟩ := governs.number _ known
      exact ⟨a, means, (eval_integer_eq_coerce _).trans coerces⟩
  | float known =>
      obtain ⟨a, means, coerces⟩ := governs.number _ known
      exact ⟨a, means, (eval_float_eq_coerce _).trans coerces⟩
  | identifier number bound known =>
      obtain ⟨a, means, coerces⟩ := governs.number number known
      refine ⟨a, ?_, (eval_identifier_eq_coerce bound).trans coerces⟩
      simp [Interpretation.value?, bound, Value.number?_ofNumber, means]
  | unary known _ onOperand =>
      obtain ⟨change, means, follows⟩ := governs.unary _ known
      obtain ⟨a, isOperand, evaluates⟩ := onOperand
      exact ⟨change a, by simp [Interpretation.value?, means, isOperand], follows evaluates⟩
  | binary known _ _ onLeft onRight =>
      obtain ⟨combine, means, follows⟩ := governs.binary _ known
      obtain ⟨a, isLeft, leftEvaluates⟩ := onLeft
      obtain ⟨b, isRight, rightEvaluates⟩ := onRight
      exact ⟨combine a b, by simp [Interpretation.value?, means, isLeft, isRight],
        follows leftEvaluates rightEvaluates⟩

/-! ## Operations on numbers -/

section

variable {a b : Number} (accepts : kind.acceptsNumber = true)

include accepts

/-- A sign changes the number of its operand. -/
theorem eval_signed {sign : Unary} (isSign : sign ∈ [Unary.plus, .negate])
    (onOperand : eval scope operand kind.ofOperands = .ok (.ofNumber a)) :
    eval scope (.unary sign operand) kind = kind.coerce (.ofNumber (signed sign a)) := by
  cases sign with
  | plus | negate =>
      simp only [eval, Kind.requireNumber_eq_ok_iff.mpr accepts, onOperand, bind, Except.bind,
        Value.expectNumber_ofNumber]
  | bitNot | not => simp at isSign

/-- An operation of arithmetic is done on the numbers of its operands, where no text may stand in
place of a sum. -/
theorem eval_arithmetic {operation : Binary}
    (isArithmetic : operation ∈ [Binary.add, .subtract, .multiply, .divide, .power])
    (noText : operation = .add → Kind.string.conformsTo kind = false)
    (onLeft : eval scope left kind.ofOperands = .ok (.ofNumber a))
    (onRight : eval scope right kind.ofOperands = .ok (.ofNumber b)) :
    eval scope (.binary operation left right) kind =
      (do kind.coerce (.ofNumber (← arithmetic operation a b))) := by
  cases operation with
  | add =>
      rw [eval_add_of_noText (noText rfl), Kind.requireNumber_eq_ok_iff.mpr accepts]
      simp only [operate, onLeft, onRight, bind, Except.bind, Value.expectNumber_ofNumber]
  | subtract | multiply | divide | power =>
      simp only [eval, Kind.requireNumber_eq_ok_iff.mpr accepts, onLeft, onRight, bind, Except.bind,
        Value.expectNumber_ofNumber]
  | or | and | bitOr | bitXor | bitAnd | equal | notEqual | less | greater | atMost | atLeast
  | shiftLeft | shiftRight | shiftRightUnsigned | remainder => simp at isArithmetic

end

/-! ## Floats -/

/-- Each number read as a float, and the operations on floats. -/
def Interpretation.floats : Interpretation Float where
  number? number := some number.toFloat
  unary?
    | .plus => some fun x => x
    | .negate => some fun x => -x
    | _ => none
  binary?
    | .add => some fun x y => x + y
    | .subtract => some fun x y => x - y
    | .multiply => some fun x y => x * y
    | .divide => some fun x y => x / y
    | .power => some Float.pow
    | _ => none

/-- All numbers, and the operations that there are on floats as well. -/
def Vocabulary.floats : Vocabulary where
  hasNumber _ := true
  signs := [.plus, .negate]
  operations := [.add, .subtract, .multiply, .divide, .power]

theorem Interpretation.governs_floats :
    Interpretation.floats.Governs Vocabulary.floats .float .float where
  number number _ := ⟨number.toFloat, rfl, Kind.coerce_float_ofNumber number⟩
  unary sign known := by
    have follows {scope operand} {a : Float}
        (onOperand : eval scope operand .float = .ok (.float a)) :
        eval scope (.unary sign operand) .float =
          Kind.float.coerce (.ofNumber (signed sign (.float a))) :=
      eval_signed rfl known onOperand
    cases sign with
    | plus | negate => exact ⟨_, rfl, follows⟩
    | bitNot | not => simp [Vocabulary.floats] at known
  binary operation known := by
    have follows {scope left right} {a b : Float}
        (onLeft : eval scope left .float = .ok (.float a))
        (onRight : eval scope right .float = .ok (.float b)) :
        eval scope (.binary operation left right) .float =
          (do Kind.float.coerce (.ofNumber (← arithmetic operation (.float a) (.float b)))) :=
      eval_arithmetic rfl known (fun _ => rfl) onLeft onRight
    cases operation with
    | add | subtract | multiply | divide | power => exact ⟨_, rfl, follows⟩
    | or | and | bitOr | bitXor | bitAnd | equal | notEqual | less | greater | atMost | atLeast
    | shiftLeft | shiftRight | shiftRightUnsigned | remainder =>
        simp [Vocabulary.floats] at known

/-- A tree of arithmetic that is asked for as a float always has a value, which is the one of its
interpretation in floats. -/
theorem eval_float_eq_interpretation (built : Vocabulary.floats.Builds scope tree) :
    ∃ x, Interpretation.floats.value? scope tree = some x ∧
      eval scope tree .float = .ok (.float x) :=
  Interpretation.governs_floats.exists_value built

/-- The tree of `0.5 + -(n / 0) * 2 ** -n`. -/
def mixedTree : Tree :=
  .binary .add (.float 0.5)
    (.binary .multiply (.unary .negate (.binary .divide (.identifier "n") (.integer 0)))
      (.binary .power (.integer 2) (.unary .negate (.identifier "n"))))

/-- Neither the quotient nor the power would have a value in integers. -/
theorem eval_float_eq_interpretation_mixed :
    let scope := Scope.root.bind "n" (.integer 7)
    let n := (7 : Int64).toFloat
    Vocabulary.floats.Builds scope mixedTree ∧
      eval scope mixedTree .float = .ok (.float
        (0.5 + -(n / (0 : Int64).toFloat) * (2 : Int64).toFloat.pow (-n))) := by
  intro scope n
  have built : Vocabulary.floats.Builds scope mixedTree := by
    have name : Vocabulary.floats.Builds scope (.identifier "n") :=
      .identifier (.integer 7) rfl rfl
    refine .binary (by decide) (.float rfl) (.binary (by decide) ?_ ?_)
    · exact .unary (by decide) (.binary (by decide) name (.integer rfl))
    · exact .binary (by decide) (.integer rfl) (.unary (by decide) name)
  obtain ⟨x, means, evaluates⟩ := eval_float_eq_interpretation built
  obtain rfl := Option.some.inj means
  exact ⟨built, evaluates⟩

/-- Asked for as a number, the tree has no value. -/
example : eval (Scope.root.bind "n" (.integer 7)) mixedTree .number =
    .error (.arithmetic .divisionByZero) := rfl

end Expression
end StaticSite
