import StaticSite.Proofs.Expression.Interpretation
import StaticSite.Proofs.Value.Wrapping

/-!
# Trees of integers

A tree of integers has the same value wherever an integer may stand: its exact value among all
integers, wrapped around once.  Quotients and remainders have a value unless the divisor is zero,
and then give the dividend back.
-/

namespace StaticSite
namespace Kind

/-! ## Kinds that admit integers -/

variable {kind : Kind} (accepts : integer.conformsTo kind = true)

include accepts

theorem ne_float_of_integer : kind ≠ .float := by
  rintro rfl
  contradiction

theorem integer_conformsTo_ofOperands : integer.conformsTo kind.ofOperands = true := by
  revert accepts
  cases kind <;> decide

theorem acceptsNumber_of_integer : kind.acceptsNumber = true := by
  rw [acceptsNumber, accepts, Bool.true_or]

theorem coerce_integer (value : Int64) : kind.coerce (.integer value) = .ok (.integer value) :=
  (coerce_eq_ok_iff (ne_float_of_integer accepts)).mpr ⟨rfl, accepts⟩

/-- What has no result for a divisor of zero is an integer for all others. -/
theorem coerce_unless_zero (divisor result : Int64) (fault : ArithmeticFault) :
    ((if divisor == 0 then .error (.arithmetic fault) else .ok (.integer result) :
      Except RenderError Number) >>= fun number => kind.coerce (.ofNumber number)) =
        if divisor = 0 then .error (.arithmetic fault) else .ok (.integer result) := by
  by_cases zero : divisor = 0
  · rw [if_pos zero, if_pos (beq_iff_eq.mpr zero)]
    rfl
  · rw [if_neg zero, beq_false_of_ne zero]
    exact coerce_integer accepts result

omit accepts in
theorem integer_conformsTo_of_mem (member : kind ∈ [any, number, integer]) :
    integer.conformsTo kind = true := by
  revert member
  cases kind <;> decide

end Kind

namespace Expression

variable {scope : Scope} {tree left right operand : Tree} {kind : Kind} {a b : Int64}

/-! ## Operations on integers -/

/-- Where an integer may stand, a tree has the integer that it has where anything may stand. -/
theorem eval_of_any (accepts : Kind.integer.conformsTo kind = true)
    (evaluates : eval scope tree .any = .ok (.integer a)) :
    eval scope tree kind = .ok (.integer a) := by
  refine (filters_eval scope tree (Kind.ne_float_of_integer accepts) ?_ _).mpr ⟨evaluates, accepts⟩
  intro isMap
  exact absurd accepts (by revert isMap; cases kind <;> decide)

theorem eval_integer_of_any (evaluates : eval scope tree .any = .ok (.integer a)) :
    eval scope tree .integer = .ok (.integer a) :=
  eval_of_any rfl evaluates

section

variable (accepts : Kind.integer.conformsTo kind = true)

include accepts

theorem eval_signed_integer {sign : Unary} (isSign : sign ∈ [Unary.plus, .negate])
    (onOperand : eval scope operand .any = .ok (.integer a)) :
    eval scope (.unary sign operand) kind = kind.coerce (.ofNumber (signed sign (.integer a))) :=
  eval_signed (Kind.acceptsNumber_of_integer accepts) isSign
    (eval_of_any (Kind.integer_conformsTo_ofOperands accepts) onOperand)

theorem eval_bitNot_integer (onOperand : eval scope operand .any = .ok (.integer a)) :
    eval scope (.unary .bitNot operand) kind = .ok (.integer (~~~a)) := by
  have operandIs := eval_integer_of_any onOperand
  simp only [eval, Kind.require_eq_ok_iff.mpr accepts, operandIs, bind, Except.bind,
    Value.expectInteger, Value.integer?, pure, Except.pure]

variable (onLeft : eval scope left .any = .ok (.integer a))
  (onRight : eval scope right .any = .ok (.integer b))

include onLeft onRight

theorem eval_bitwise {operation : Binary}
    (isBitwise : operation ∈
      [Binary.bitOr, .bitXor, .bitAnd, .shiftLeft, .shiftRight, .shiftRightUnsigned]) :
    eval scope (.binary operation left right) kind = .ok (.integer (bitwise operation a b)) := by
  have leftIs := eval_integer_of_any onLeft
  have rightIs := eval_integer_of_any onRight
  cases operation with
  | bitOr | bitXor | bitAnd | shiftLeft | shiftRight | shiftRightUnsigned =>
      simp only [eval, Kind.require_eq_ok_iff.mpr accepts, leftIs, rightIs, bind, Except.bind,
        Value.expectInteger, Value.integer?, pure, Except.pure]
  | or | and | equal | notEqual | less | greater | atMost | atLeast | add | subtract | multiply
  | divide | remainder | power => simp at isBitwise

theorem eval_add_integers :
    eval scope (.binary .add left right) kind = .ok (.integer (a + b)) := by
  refine eval_of_any accepts ?_
  simp only [eval, Kind.conformsTo_any, onLeft, onRight, bind, Except.bind, pure, Except.pure,
    ↓reduceIte]
  rfl

theorem eval_arithmetic_integers {operation : Binary}
    (isArithmetic : operation ∈ [Binary.subtract, .multiply, .divide, .power]) :
    eval scope (.binary operation left right) kind =
      (do kind.coerce (.ofNumber (← arithmetic operation (.integer a) (.integer b)))) := by
  have operands := Kind.integer_conformsTo_ofOperands accepts
  refine eval_arithmetic (Kind.acceptsNumber_of_integer accepts)
    (List.mem_cons_of_mem _ isArithmetic) ?_ (eval_of_any operands onLeft)
    (eval_of_any operands onRight)
  rintro rfl
  simp at isArithmetic

theorem eval_remainder_integers :
    eval scope (.binary .remainder left right) kind =
      (do kind.coerce (.ofNumber (← (Number.integer a).modulo b))) := by
  have leftIs := eval_of_any (Kind.integer_conformsTo_ofOperands accepts) onLeft
  have rightIs := eval_integer_of_any onRight
  have number := Kind.requireNumber_eq_ok_iff.mpr (Kind.acceptsNumber_of_integer accepts)
  simp only [eval, number, leftIs, rightIs, bind, Except.bind, Value.expectNumber, Value.number?,
    Value.expectInteger, Value.integer?]

end

/-! ## Exact values -/

/-- Integers without bounds.  Negative ones have infinitely many leading ones, and only the last
six bits of a shift count. -/
def Interpretation.integers : Interpretation Int where
  number?
    | .integer value => some value.toInt
    | .float _ => none
  unary?
    | .plus => some fun x => x
    | .negate => some fun x => -x
    | .bitNot => some Int.lnot
    | .not => none
  binary?
    | .add => some fun x y => x + y
    | .subtract => some fun x y => x - y
    | .multiply => some fun x y => x * y
    | .bitAnd => some Int.land
    | .bitOr => some Int.lor
    | .bitXor => some Int.xor
    | .shiftLeft => some fun x y => x * 2 ^ (y % 64).toNat
    | _ => none

/-- Integers, and the operations that can be done before or after wrapping around. -/
def Vocabulary.integers : Vocabulary where
  hasNumber := Number.isInteger
  signs := [.plus, .negate, .bitNot]
  operations := [.add, .subtract, .multiply, .bitAnd, .bitOr, .bitXor, .shiftLeft]

theorem Interpretation.governs_integers :
    Interpretation.integers.Governs Vocabulary.integers .any fun x => .integer (.ofInt x) where
  number number known := by
    cases number with
    | integer value => exact ⟨value.toInt, rfl, by rw [Int64.ofInt_toInt]; rfl⟩
    | float => contradiction
  unary sign known := by
    cases sign with
    | plus => exact ⟨_, rfl, fun onOperand => eval_signed_integer rfl (by simp) onOperand⟩
    | negate =>
        refine ⟨_, rfl, fun onOperand => (eval_signed_integer rfl (by simp) onOperand).trans ?_⟩
        rw [Int64.ofInt_neg]
        rfl
    | bitNot =>
        refine ⟨_, rfl, fun onOperand => (eval_bitNot_integer rfl onOperand).trans ?_⟩
        rw [Int64.ofInt_lnot]
    | not => simp [Vocabulary.integers] at known
  binary operation known := by
    cases operation with
    | add =>
        refine ⟨_, rfl, fun onLeft onRight => (eval_add_integers rfl onLeft onRight).trans ?_⟩
        rw [Int64.ofInt_add]
    | subtract =>
        refine ⟨_, rfl, fun onLeft onRight =>
          (eval_arithmetic_integers rfl onLeft onRight (by simp)).trans ?_⟩
        rw [Int64.ofInt_sub]
        rfl
    | multiply =>
        refine ⟨_, rfl, fun onLeft onRight =>
          (eval_arithmetic_integers rfl onLeft onRight (by simp)).trans ?_⟩
        rw [Int64.ofInt_mul]
        rfl
    | bitAnd =>
        refine ⟨_, rfl, fun onLeft onRight => (eval_bitwise rfl onLeft onRight (by simp)).trans ?_⟩
        rw [Int64.ofInt_land, bitwise]
    | bitOr =>
        refine ⟨_, rfl, fun onLeft onRight => (eval_bitwise rfl onLeft onRight (by simp)).trans ?_⟩
        rw [Int64.ofInt_lor, bitwise]
    | bitXor =>
        refine ⟨_, rfl, fun onLeft onRight => (eval_bitwise rfl onLeft onRight (by simp)).trans ?_⟩
        rw [Int64.ofInt_xor, bitwise]
    | shiftLeft =>
        refine ⟨_, rfl, fun onLeft onRight => (eval_bitwise rfl onLeft onRight (by simp)).trans ?_⟩
        rw [Int64.ofInt_shiftLeft, bitwise]
    | or | and | equal | notEqual | less | greater | atMost | atLeast | shiftRight
    | shiftRightUnsigned | divide | remainder | power => simp [Vocabulary.integers] at known

/-- A tree of integers has a value wherever an integer may stand.  It is the exact value of the
tree, wrapped around once. -/
theorem eval_eq_wrapped_interpretation (built : Vocabulary.integers.Builds scope tree) :
    ∃ (x : Int) (wrapped : Int64), Interpretation.integers.value? scope tree = some x ∧
      wrapped.toInt = x.bmod (2 ^ 64) ∧
      ∀ kind ∈ [Kind.any, .number, .integer], eval scope tree kind = .ok (.integer wrapped) := by
  obtain ⟨x, means, evaluates⟩ := Interpretation.governs_integers.exists_value built
  exact ⟨x, .ofInt x, means, Int64.toInt_ofInt, fun kind member =>
    eval_of_any (Kind.integer_conformsTo_of_mem member) evaluates⟩

/-- The tree of `(n * n ^ ~n) << (n * 3 + 70) | ~-n & 5`. -/
def wrappingTree : Tree :=
  .binary .bitOr
    (.binary .shiftLeft
      (.binary .bitXor (.binary .multiply (.identifier "n") (.identifier "n"))
        (.unary .bitNot (.identifier "n")))
      (.binary .add (.binary .multiply (.identifier "n") (.integer 3)) (.integer 70)))
    (.binary .bitAnd (.unary .bitNot (.unary .negate (.identifier "n"))) (.integer 5))

/-- The least integer overflows at each operation. -/
theorem eval_eq_wrapped_interpretation_least :
    let scope := Scope.root.bind "n" (.integer Int64.minValue)
    Vocabulary.integers.Builds scope wrappingTree ∧ Kind.number ∈ [Kind.any, .number, .integer] ∧
      ∃ wrapped : Int64, wrapped.toInt = -59 ∧
        eval scope wrappingTree .number = .ok (.integer wrapped) := by
  intro scope
  have built : Vocabulary.integers.Builds scope wrappingTree := by
    have name : Vocabulary.integers.Builds scope (.identifier "n") :=
      .identifier (.integer Int64.minValue) rfl rfl
    exact .binary (by decide)
      (.binary (by decide)
        (.binary (by decide) (.binary (by decide) name name) (.unary (by decide) name))
        (.binary (by decide) (.binary (by decide) name (.integer rfl)) (.integer rfl)))
      (.binary (by decide) (.unary (by decide) (.unary (by decide) name)) (.integer rfl))
  obtain ⟨x, wrapped, means, wraps, evaluates⟩ := eval_eq_wrapped_interpretation built
  obtain rfl := Option.some.inj means
  exact ⟨built, by decide, wrapped, wraps.trans (by decide +kernel), evaluates .number (by decide)⟩

/-! ## Division -/

section

variable (onLeft : eval scope left .any = .ok (.integer a))
  (onRight : eval scope right .any = .ok (.integer b))

include onLeft onRight

theorem eval_divide (accepts : Kind.integer.conformsTo kind = true) :
    eval scope (.binary .divide left right) kind =
      if b = 0 then .error (.arithmetic .divisionByZero) else .ok (.integer (a / b)) :=
  (eval_arithmetic_integers accepts onLeft onRight (by simp)).trans
    (Kind.coerce_unless_zero accepts b (a / b) .divisionByZero)

theorem eval_remainder (accepts : Kind.integer.conformsTo kind = true) :
    eval scope (.binary .remainder left right) kind =
      if b = 0 then .error (.arithmetic .moduloByZero) else .ok (.integer (a % b)) :=
  (eval_remainder_integers accepts onLeft onRight).trans
    (Kind.coerce_unless_zero accepts b (a % b) .moduloByZero)

/-- The product of quotient and divisor and the remainder add up to the dividend. -/
theorem eval_quotient_times_divisor (nonzero : b ≠ 0) :
    eval scope
      (.binary .add (.binary .multiply (.binary .divide left right) right)
        (.binary .remainder left right)) .any = .ok (.integer a) := by
  have anything : Kind.integer.conformsTo .any = true := rfl
  have quotient := eval_divide onLeft onRight anything
  have rest := eval_remainder onLeft onRight anything
  rw [if_neg nonzero] at quotient rest
  have product : eval scope (.binary .multiply (.binary .divide left right) right) .any =
      .ok (.integer (a / b * b)) :=
    eval_arithmetic_integers anything quotient onRight (by simp)
  rw [eval_add_integers anything product rest, Int64.div_mul_add_mod]

end

theorem eval_equal_integer {otherTree : Tree} (accepts : Kind.boolean.conformsTo kind = true)
    (onLeft : eval scope left .any = .ok (.integer a))
    (onOther : eval scope otherTree .any = .ok (.integer a)) :
    eval scope (.binary .equal left otherTree) kind = .ok (.boolean true) := by
  simp only [eval, Kind.require_eq_ok_iff.mpr accepts, onLeft, onOther, bind, Except.bind, pure,
    Except.pure]
  simp [agrees, Value.isEqual, Value.number?, Number.isEqual]

/-- Where an integer may stand, a quotient and a remainder fail just if the divisor is zero.
Otherwise the quotient is cut toward zero and wrapped around, the remainder is smaller than the
divisor and has the sign of the dividend, and both give the dividend back.  Shifts to the right
have a value for all counts: a shift that keeps the sign rounds down, and one that does not counts
the integer from zero. -/
theorem eval_division (onLeft : eval scope left .any = .ok (.integer a))
    (onRight : eval scope right .any = .ok (.integer b)) :
    let quotientTree := Tree.binary .divide left right
    let restTree := Tree.binary .remainder left right
    (∀ kind ∈ [Kind.any, .number, .integer],
      ((∃ fault, eval scope quotientTree kind = .error (.arithmetic fault)) ↔ b = 0) ∧
      ((∃ fault, eval scope restTree kind = .error (.arithmetic fault)) ↔ b = 0) ∧
      (b ≠ 0 → ∃ quotient rest : Int64,
        eval scope quotientTree kind = .ok (.integer quotient) ∧
        eval scope restTree kind = .ok (.integer rest) ∧
        quotient.toInt = (a.toInt.tdiv b.toInt).bmod (2 ^ 64) ∧
        |rest.toInt| < |b.toInt| ∧ (rest ≠ 0 → rest.toInt.sign = a.toInt.sign)) ∧
      (∃ shifted : Int64,
        eval scope (.binary .shiftRight left right) kind = .ok (.integer shifted) ∧
        shifted.toInt = a.toInt / 2 ^ (b.toInt % 64).toNat) ∧
      ∃ shifted : Int64,
        eval scope (.binary .shiftRightUnsigned left right) kind = .ok (.integer shifted) ∧
        shifted.toInt = (a.toInt % 2 ^ 64 / 2 ^ (b.toInt % 64).toNat).bmod (2 ^ 64)) ∧
    (b ≠ 0 → ∀ kind ∈ [Kind.any, .boolean],
      eval scope
        (.binary .equal (.binary .add (.binary .multiply quotientTree right) restTree) left) kind =
          .ok (.boolean true)) := by
  intro quotientTree restTree
  constructor
  · intro kind member
    have accepts := Kind.integer_conformsTo_of_mem member
    have divides := eval_divide onLeft onRight accepts
    have remains := eval_remainder onLeft onRight accepts
    refine ⟨?_, ?_, fun nonzero => ?_, ?_, ?_⟩
    · rw [divides]
      by_cases zero : b = 0 <;> simp [zero]
    · rw [remains]
      by_cases zero : b = 0 <;> simp [zero]
    · rw [if_neg nonzero] at divides remains
      exact ⟨_, _, divides, remains, Int64.toInt_div a b, Int64.abs_toInt_mod_lt a nonzero,
        Int64.sign_toInt_mod⟩
    · exact ⟨_, eval_bitwise accepts onLeft onRight (by simp), Int64.toInt_shiftRight a b⟩
    · exact ⟨_, eval_bitwise accepts onLeft onRight (by simp), Int64.toInt_shiftRightUnsigned a b⟩
  · intro nonzero kind member
    have accepts : Kind.boolean.conformsTo kind = true := by
      revert member
      cases kind <;> decide
    exact eval_equal_integer accepts (eval_quotient_times_divisor onLeft onRight nonzero) onLeft

/-- The least integer is divided by minus one, which as a shift count stands for 63. -/
theorem eval_division_least :
    let left := Tree.integer Int64.minValue
    let right := Tree.integer (-1)
    eval .root left .any = .ok (.integer Int64.minValue) ∧
      eval .root right .any = .ok (.integer (-1)) ∧ (-1 : Int64) ≠ 0 ∧
      Kind.integer ∈ [Kind.any, .number, .integer] ∧
      (∃ quotient : Int64,
        eval .root (.binary .divide left right) .integer = .ok (.integer quotient) ∧
        quotient.toInt = -2 ^ 63) ∧
      (∃ shifted : Int64,
        eval .root (.binary .shiftRightUnsigned left right) .integer = .ok (.integer shifted) ∧
        shifted.toInt = 1) ∧
      Kind.boolean ∈ [Kind.any, .boolean] ∧
      eval .root
        (.binary .equal
          (.binary .add (.binary .multiply (.binary .divide left right) right)
            (.binary .remainder left right)) left) .boolean = .ok (.boolean true) := by
  intro left right
  have leftIs : eval .root left .any = .ok (.integer Int64.minValue) := rfl
  have rightIs : eval .root right .any = .ok (.integer (-1)) := rfl
  obtain ⟨each, identity⟩ := eval_division leftIs rightIs
  obtain ⟨-, -, divides, -, shifted, shifts, unsigned⟩ := each .integer (by decide)
  obtain ⟨quotient, -, isQuotient, -, wraps, -⟩ := divides (by decide)
  exact ⟨leftIs, rightIs, by decide, by decide, ⟨quotient, isQuotient, wraps.trans (by decide)⟩,
    ⟨shifted, shifts, unsigned.trans (by decide)⟩, by decide,
    identity (by decide) .boolean (by decide)⟩

end Expression
end StaticSite
