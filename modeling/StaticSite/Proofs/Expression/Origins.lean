import Mathlib
import StaticSite.Proofs.Value.Lookups

/-!
# Where errors of expressions arise

Evaluating a tree asks for the values of some of its parts, each for some kind: of both operands of
a sum, but only of one branch of a conditional.  An evaluation fails just if it comes to a part in
which an error arises, and then it fails with that error.
-/

namespace StaticSite

/-! ## Refused kinds -/

/-- Whether an error tells of a kind that does not conform to the kind asked for. -/
def RenderError.IsMismatch (error : RenderError) : Prop :=
  ∃ expected actual, error = typeMismatch expected actual ∧ actual.conformsTo expected = false

namespace Expression

/-- Whether a result can fail only because of kinds that do not conform. -/
abbrev OnlyMismatches {α : Type} (result : Except RenderError α) : Prop :=
  FailsOnly RenderError.IsMismatch result

theorem onlyMismatches_error {α : Type} {expected actual : Kind}
    (refused : actual.conformsTo expected = false) :
    OnlyMismatches (.error (.typeMismatch expected actual) : Except RenderError α) :=
  .error ⟨expected, actual, rfl, refused⟩

theorem onlyMismatches_require (kind natural : Kind) : OnlyMismatches (kind.require natural) := by
  unfold Kind.require
  split
  · exact .ok ()
  · next refused => exact onlyMismatches_error (Bool.not_eq_true _ ▸ refused)

theorem onlyMismatches_requireNumber (kind : Kind) : OnlyMismatches kind.requireNumber := by
  unfold Kind.requireNumber
  split
  · exact .ok ()
  · next refused =>
    refine onlyMismatches_error ?_
    revert refused
    cases kind <;> decide

theorem onlyMismatches_coerce (kind : Kind) (value : Value) :
    OnlyMismatches (kind.coerce value) := by
  unfold Kind.coerce Kind.ensure
  split
  · exact .ok _
  · split
    · exact .ok _
    · next refused => exact onlyMismatches_error (Bool.not_eq_true _ ▸ refused)

theorem onlyMismatches_coerceFound (kind : Kind) (found : Option Value) :
    OnlyMismatches (kind.coerceFound found) := by
  cases found with
  | none => exact .ok none
  | some value => exact (onlyMismatches_coerce kind value).map some

theorem onlyMismatches_expectNumber (value : Value) : OnlyMismatches value.expectNumber := by
  cases value with
  | integer | float => exact .ok _
  | boolean | string | list | map | scope => exact onlyMismatches_error rfl

theorem onlyMismatches_expectInteger (value : Value) : OnlyMismatches value.expectInteger := by
  cases value with
  | integer => exact .ok _
  | float | boolean | string | list | map | scope => exact onlyMismatches_error rfl

theorem onlyMismatches_expectBoolean (value : Value) : OnlyMismatches value.expectBoolean := by
  cases value with
  | boolean => exact .ok _
  | integer | float | string | list | map | scope => exact onlyMismatches_error rfl

theorem onlyMismatches_field? (kind : Kind) (name : String) (value : Value) :
    OnlyMismatches (value.field? kind name) := by
  cases value with
  | map | scope | string | list => exact onlyMismatches_coerceFound kind _
  | integer | float | boolean => exact onlyMismatches_error rfl

theorem onlyMismatches_index? (kind : Kind) (position : Int64) (value : Value) :
    OnlyMismatches (value.index? kind position) := by
  unfold Value.index?
  split
  · exact .ok none
  · cases value with
    | string | list => exact onlyMismatches_coerceFound kind _
    | integer | float | boolean | map | scope => exact onlyMismatches_error rfl

/-! ## What an evaluation asks for -/

/-- A tree and all trees in it. -/
def Tree.parts (tree : Tree) : List Tree :=
  tree ::
    match tree with
    | .field target _ => target.parts
    | .index target position => target.parts ++ position.parts
    | .unary _ operand => operand.parts
    | .binary _ left right => left.parts ++ right.parts
    | .conditional condition whenTrue whenFalse =>
        condition.parts ++ whenTrue.parts ++ whenFalse.parts
    | _ => []

/-- Whether a result of the operation can have the kind asked for. -/
def Unary.fits (operation : Unary) (kind : Kind) : Bool :=
  match operation with
  | .plus | .negate => kind.acceptsNumber
  | .bitNot => Kind.integer.conformsTo kind
  | .not => Kind.boolean.conformsTo kind

/-- The kind that the operand is asked for. -/
def Unary.operandKind (operation : Unary) (kind : Kind) : Kind :=
  match operation with
  | .plus | .negate => kind.ofOperands
  | .bitNot => .integer
  | .not => .boolean

/-- Whether a result of the operation can have the kind asked for. -/
def Binary.fits (operation : Binary) (kind : Kind) : Bool :=
  match operation with
  | .or | .and | .equal | .notEqual | .less | .greater | .atMost | .atLeast =>
      Kind.boolean.conformsTo kind
  | .bitOr | .bitXor | .bitAnd | .shiftLeft | .shiftRight | .shiftRightUnsigned =>
      Kind.integer.conformsTo kind
  | .add => Kind.string.conformsTo kind || kind.acceptsNumber
  | .subtract | .multiply | .divide | .remainder | .power => kind.acceptsNumber

/-- The kind that the left operand is asked for. -/
def Binary.leftKind (operation : Binary) (kind : Kind) : Kind :=
  match operation with
  | .or | .and => .boolean
  | .equal | .notEqual => .any
  | .less | .greater | .atMost | .atLeast => .number
  | .bitOr | .bitXor | .bitAnd | .shiftLeft | .shiftRight | .shiftRightUnsigned => .integer
  | .add => if Kind.string.conformsTo kind then .any else kind.ofOperands
  | .subtract | .multiply | .divide | .remainder | .power => kind.ofOperands

/-- The kind that the right operand is asked for: that of the left one, except that a divisor of a
remainder is always an integer. -/
def Binary.rightKind (operation : Binary) (kind : Kind) : Kind :=
  match operation with
  | .remainder => .integer
  | operation => operation.leftKind kind

/-- Whether the left operand alone decides the result. -/
def Binary.isDecidedBy (operation : Binary) (value : Value) : Bool :=
  match operation, value with
  | .or, .boolean truth => truth
  | .and, .boolean truth => !truth
  | _, _ => false

/-- Whether evaluating a tree for a kind asks for the value of a part of it for some kind. -/
inductive Demands (scope : Scope) : Tree × Kind → Tree × Kind → Prop
  | target {target : Tree} {name : String} {kind : Kind} :
      Demands scope (.field target name, kind) (target, .map)
  | list {target position : Tree} {kind : Kind} :
      Demands scope (.index target position, kind) (target, .list)
  | position {target position : Tree} {kind : Kind} {list : Value}
      (evaluates : eval scope target .list = .ok list) :
      Demands scope (.index target position, kind) (position, .integer)
  | operand {operation : Unary} {operand : Tree} {kind : Kind}
      (fits : operation.fits kind = true) :
      Demands scope (.unary operation operand, kind) (operand, operation.operandKind kind)
  | left {operation : Binary} {left right : Tree} {kind : Kind}
      (fits : operation.fits kind = true) :
      Demands scope (.binary operation left right, kind) (left, operation.leftKind kind)
  | right {operation : Binary} {left right : Tree} {kind : Kind} {value : Value}
      (fits : operation.fits kind = true)
      (evaluates : eval scope left (operation.leftKind kind) = .ok value)
      (undecided : operation.isDecidedBy value = false) :
      Demands scope (.binary operation left right, kind) (right, operation.rightKind kind)
  | condition {condition whenTrue whenFalse : Tree} {kind : Kind} :
      Demands scope (.conditional condition whenTrue whenFalse, kind) (condition, .boolean)
  | whenTrue {condition whenTrue whenFalse : Tree} {kind : Kind}
      (holds : eval scope condition .boolean = .ok (.boolean true)) :
      Demands scope (.conditional condition whenTrue whenFalse, kind) (whenTrue, kind)
  | whenFalse {condition whenTrue whenFalse : Tree} {kind : Kind}
      (fails : eval scope condition .boolean = .ok (.boolean false)) :
      Demands scope (.conditional condition whenTrue whenFalse, kind) (whenFalse, kind)

/-- Whether evaluating a tree comes to a part of it. -/
abbrev Visits (scope : Scope) : Tree × Kind → Tree × Kind → Prop :=
  Relation.ReflTransGen (Demands scope)

/-- Whether an error can arise in a tree that is evaluated for a kind, and not in a part of it. -/
inductive Arises (scope : Scope) : Tree × Kind → RenderError → Prop
  | mismatch {tree : Tree} {kind expected actual : Kind}
      (refused : actual.conformsTo expected = false) :
      Arises scope (tree, kind) (.typeMismatch expected actual)
  | unbound {name : String} {kind : Kind} (unbound : ∀ frame ∈ scope.frames, name ∉ frame.names) :
      Arises scope (.identifier name, kind) (.unresolvedReference name)
  | noField {target : Tree} {name : String} {kind : Kind} {value : Value}
      (evaluates : eval scope target .map = .ok value) (missing : name ∉ value.fieldNames) :
      Arises scope (.field target name, kind) (.unresolvedReference name)
  | outside {target position : Tree} {kind : Kind} {list : Value} {place : Int64} {length : Nat}
      (evaluates : eval scope target .list = .ok list) (measured : list.length? = some length)
      (counted : eval scope position .integer = .ok (.integer place))
      (outside : place.toInt < 0 ∨ (length : Int) ≤ place.toInt) :
      Arises scope (.index target position, kind)
        (.unresolvedReference ("[" ++ toString place.toInt ++ "]"))
  | divisionByZero {left right : Tree} {kind : Kind} {dividend : Int64}
      (onLeft : eval scope left kind.ofOperands = .ok (.integer dividend))
      (onRight : eval scope right kind.ofOperands = .ok (.integer 0)) :
      Arises scope (.binary .divide left right, kind) (.arithmetic .divisionByZero)
  | moduloByZero {left right : Tree} {kind : Kind} {dividend : Int64}
      (onLeft : eval scope left kind.ofOperands = .ok (.integer dividend))
      (onRight : eval scope right .integer = .ok (.integer 0)) :
      Arises scope (.binary .remainder left right, kind) (.arithmetic .moduloByZero)
  | negativePower {left right : Tree} {kind : Kind} {base exponent : Int64}
      (onLeft : eval scope left kind.ofOperands = .ok (.integer base))
      (onRight : eval scope right kind.ofOperands = .ok (.integer exponent))
      (negative : exponent < 0) :
      Arises scope (.binary .power left right, kind) (.arithmetic .negativePower)

/-- Whether an error arises in a tree, or is that of a part which is asked for. -/
def Stems (scope : Scope) (asked : Tree × Kind) (error : RenderError) : Prop :=
  Arises scope asked error ∨
    ∃ part, Demands scope asked part ∧ eval scope part.1 part.2 = .error error

section

variable {scope : Scope} {asked : Tree × Kind} {α β : Type}

theorem stems_of_mismatches {result : Except RenderError α} (mismatches : OnlyMismatches result) :
    FailsOnly (Stems scope asked) result := by
  refine mismatches.mono fun error => ?_
  rintro ⟨expected, actual, rfl, refused⟩
  exact .inl (.mismatch refused)

/-- A check refuses kinds, and what follows it is known to have passed. -/
theorem stems_check {first : Except RenderError α} {next : α → Except RenderError β}
    (mismatches : OnlyMismatches first)
    (rest : ∀ value, first = .ok value → FailsOnly (Stems scope asked) (next value)) :
    FailsOnly (Stems scope asked) (first >>= next) :=
  (stems_of_mismatches mismatches).andThen rest

/-- A part that is asked for has an error of its own, and what follows it has its value. -/
theorem stems_ask {tree : Tree} {kind : Kind} {next : Value → Except RenderError β}
    (demands : Demands scope asked (tree, kind))
    (rest : ∀ value, eval scope tree kind = .ok value →
      FailsOnly (Stems scope asked) (next value)) :
    FailsOnly (Stems scope asked) (eval scope tree kind >>= next) := by
  refine FailsOnly.andThen (fun error failed => ?_) rest
  exact .inr ⟨(tree, kind), demands, failed⟩

end

/-! ## One tree -/

theorem expectInteger_eq_ok_iff {value : Value} {number : Int64} :
    value.expectInteger = .ok number ↔ value = .integer number := by
  cases value <;> simp [Value.expectInteger, Value.integer?]

theorem expectBoolean_eq_ok_iff {value : Value} {truth : Bool} :
    value.expectBoolean = .ok truth ↔ value = .boolean truth := by
  cases value <;> simp [Value.expectBoolean, Value.boolean?]

section

variable {scope : Scope} {kind : Kind}

theorem stems_identifier (name : String) :
    FailsOnly (Stems scope (.identifier name, kind)) (eval scope (.identifier name) kind) := by
  rw [eval, Scope.resolve, Scope.resolve?_eq_coerceFound]
  refine stems_check (onlyMismatches_coerceFound kind _) fun found isFound => ?_
  cases found with
  | none =>
      have unbound := Kind.coerceFound_eq_ok_none_iff.mp isFound
      exact .error (.inl (.unbound (Scope.lookup?_eq_none_iff.mp unbound)))
  | some value => exact .ok value

theorem stems_field (target : Tree) (name : String) :
    FailsOnly (Stems scope (.field target name, kind)) (eval scope (.field target name) kind) := by
  refine stems_ask .target fun value evaluates => ?_
  refine stems_check (onlyMismatches_field? kind name value) fun found isFound => ?_
  cases found with
  | none =>
      have mapLike := admits_eval scope target .map value evaluates
      exact .error (.inl (.noField evaluates (Value.not_mem_fieldNames_of_field? mapLike isFound)))
  | some found => exact .ok found

theorem stems_index (target position : Tree) :
    FailsOnly (Stems scope (.index target position, kind))
      (eval scope (.index target position) kind) := by
  refine stems_ask .list fun list evaluates =>
    stems_ask (.position evaluates) fun value counted => ?_
  refine stems_check (onlyMismatches_expectInteger value) fun place isPlace => ?_
  refine stems_check (onlyMismatches_index? kind place list) fun found isFound => ?_
  cases found with
  | none =>
      obtain ⟨length, measured⟩ :=
        Value.exists_length?_of_conformsTo (admits_eval scope target .list list evaluates)
      obtain rfl := expectInteger_eq_ok_iff.mp isPlace
      exact .error (.inl (.outside evaluates measured counted
        (Value.outside_of_index? measured isFound)))
  | some found => exact .ok found

theorem stems_unary (operation : Unary) (operand : Tree) :
    FailsOnly (Stems scope (.unary operation operand, kind))
      (eval scope (.unary operation operand) kind) := by
  cases operation with
  | plus | negate =>
      refine stems_check (onlyMismatches_requireNumber kind) fun _ passed => ?_
      refine stems_ask (.operand (Kind.requireNumber_eq_ok_iff.mp passed)) fun value _ => ?_
      refine stems_check (onlyMismatches_expectNumber value) fun a _ => ?_
      exact stems_of_mismatches (onlyMismatches_coerce kind _)
  | bitNot =>
      refine stems_check (onlyMismatches_require kind _) fun _ passed => ?_
      refine stems_ask (.operand (Kind.require_eq_ok_iff.mp passed)) fun value _ => ?_
      exact stems_check (onlyMismatches_expectInteger value) fun _ _ => .ok _
  | not =>
      refine stems_check (onlyMismatches_require kind _) fun _ passed => ?_
      refine stems_ask (.operand (Kind.require_eq_ok_iff.mp passed)) fun value _ => ?_
      exact stems_check (onlyMismatches_expectBoolean value) fun _ _ => .ok _

/-- A number that an operand has is the operand's value. -/
theorem eval_eq_ofNumber {tree : Tree} {value : Value} {number : Number}
    (evaluates : eval scope tree kind = .ok value) (isNumber : value.expectNumber = .ok number) :
    eval scope tree kind = .ok (.ofNumber number) :=
  Value.expectNumber_eq_ok_iff.mp isNumber ▸ evaluates

/-- Two numbers have no difference, product, quotient or power for one reason only. -/
theorem stems_arithmetic {operation : Binary} {left right : Tree} {a b : Number}
    (known : operation ∈ [Binary.subtract, .multiply, .divide, .power])
    (onLeft : eval scope left kind.ofOperands = .ok (.ofNumber a))
    (onRight : eval scope right kind.ofOperands = .ok (.ofNumber b)) :
    FailsOnly (Stems scope (.binary operation left right, kind)) (arithmetic operation a b) := by
  cases operation with
  | subtract | multiply => exact .ok _
  | divide =>
      change FailsOnly _ (a.dividedBy b)
      unfold Number.dividedBy
      split
      · split
        · next isZero => exact .error (.inl (.divisionByZero onLeft (eq_of_beq isZero ▸ onRight)))
        · exact .ok _
      · exact .ok _
  | power =>
      change FailsOnly _ (a.power b)
      unfold Number.power Number.integerPower
      split
      · refine FailsOnly.map _ ?_
        split
        · next negative => exact .error (.inl (.negativePower onLeft onRight negative))
        · exact .ok _
      · exact .ok _
  | _ => simp at known

theorem stems_modulo {left right : Tree} {a : Number} {divisor : Int64}
    (onLeft : eval scope left kind.ofOperands = .ok (.ofNumber a))
    (onRight : eval scope right .integer = .ok (.integer divisor)) :
    FailsOnly (Stems scope (.binary .remainder left right, kind)) (a.modulo divisor) := by
  unfold Number.modulo
  split
  · split
    · next isZero => exact .error (.inl (.moduloByZero onLeft (eq_of_beq isZero ▸ onRight)))
    · exact .ok _
  · exact .ok _

theorem stems_binary (operation : Binary) (left right : Tree) :
    FailsOnly (Stems scope (.binary operation left right, kind))
      (eval scope (.binary operation left right) kind) := by
  cases operation with
  | or =>
      refine stems_check (onlyMismatches_require kind _) fun _ passed => ?_
      have fits := Kind.require_eq_ok_iff.mp passed
      refine stems_ask (.left fits) fun value evaluates => ?_
      refine stems_check (onlyMismatches_expectBoolean value) fun truth isTruth => ?_
      obtain rfl := expectBoolean_eq_ok_iff.mp isTruth
      cases truth with
      | true => exact .ok _
      | false =>
          refine stems_ask (.right fits evaluates rfl) fun value _ => ?_
          exact stems_check (onlyMismatches_expectBoolean value) fun _ _ => .ok _
  | and =>
      refine stems_check (onlyMismatches_require kind _) fun _ passed => ?_
      have fits := Kind.require_eq_ok_iff.mp passed
      refine stems_ask (.left fits) fun value evaluates => ?_
      refine stems_check (onlyMismatches_expectBoolean value) fun truth isTruth => ?_
      obtain rfl := expectBoolean_eq_ok_iff.mp isTruth
      cases truth with
      | true =>
          refine stems_ask (.right fits evaluates rfl) fun value _ => ?_
          exact stems_check (onlyMismatches_expectBoolean value) fun _ _ => .ok _
      | false => exact .ok _
  | equal | notEqual =>
      refine stems_check (onlyMismatches_require kind _) fun _ passed => ?_
      have fits := Kind.require_eq_ok_iff.mp passed
      refine stems_ask (.left fits) fun _ evaluates => ?_
      exact stems_ask (.right fits evaluates rfl) fun _ _ => .ok _
  | less | greater | atMost | atLeast =>
      refine stems_check (onlyMismatches_require kind _) fun _ passed => ?_
      have fits := Kind.require_eq_ok_iff.mp passed
      refine stems_ask (.left fits) fun value evaluates => ?_
      refine stems_check (onlyMismatches_expectNumber value) fun _ _ => ?_
      refine stems_ask (.right fits evaluates rfl) fun value _ => ?_
      exact stems_check (onlyMismatches_expectNumber value) fun _ _ => .ok _
  | bitOr | bitXor | bitAnd | shiftLeft | shiftRight | shiftRightUnsigned =>
      refine stems_check (onlyMismatches_require kind _) fun _ passed => ?_
      have fits := Kind.require_eq_ok_iff.mp passed
      refine stems_ask (.left fits) fun value evaluates => ?_
      refine stems_check (onlyMismatches_expectInteger value) fun _ _ => ?_
      refine stems_ask (.right fits evaluates rfl) fun value _ => ?_
      exact stems_check (onlyMismatches_expectInteger value) fun _ _ => .ok _
  | add =>
      rw [eval]
      split
      · next text =>
        have fits : Binary.add.fits kind = true := by rw [Binary.fits, text, Bool.true_or]
        have asked : Binary.add.leftKind kind = .any := if_pos text
        refine stems_ask (asked ▸ .left fits) fun value evaluates => ?_
        exact stems_ask (asked ▸ .right fits (asked.symm ▸ evaluates) rfl) fun _ _ => .ok _
      · next noText =>
        refine stems_check (onlyMismatches_requireNumber kind) fun _ passed => ?_
        have fits : Binary.add.fits kind = true := by
          rw [Binary.fits, Kind.requireNumber_eq_ok_iff.mp passed, Bool.or_true]
        have asked : Binary.add.leftKind kind = kind.ofOperands := if_neg noText
        refine stems_ask (asked ▸ .left fits) fun value evaluates => ?_
        refine stems_check (onlyMismatches_expectNumber value) fun _ _ => ?_
        refine stems_ask (asked ▸ .right fits (asked.symm ▸ evaluates) rfl) fun value _ => ?_
        refine stems_check (onlyMismatches_expectNumber value) fun _ _ => ?_
        exact stems_of_mismatches (onlyMismatches_coerce kind _)
  | subtract | multiply | divide | power =>
      refine stems_check (onlyMismatches_requireNumber kind) fun _ passed => ?_
      have fits := Kind.requireNumber_eq_ok_iff.mp passed
      refine stems_ask (.left fits) fun value onLeft => ?_
      refine stems_check (onlyMismatches_expectNumber value) fun a isLeft => ?_
      refine stems_ask (.right fits onLeft rfl) fun value onRight => ?_
      refine stems_check (onlyMismatches_expectNumber value) fun b isRight => ?_
      refine (stems_arithmetic (by simp) (eval_eq_ofNumber onLeft isLeft)
        (eval_eq_ofNumber onRight isRight)).bind fun _ => ?_
      exact stems_of_mismatches (onlyMismatches_coerce kind _)
  | remainder =>
      refine stems_check (onlyMismatches_requireNumber kind) fun _ passed => ?_
      have fits := Kind.requireNumber_eq_ok_iff.mp passed
      refine stems_ask (.left fits) fun value onLeft => ?_
      refine stems_check (onlyMismatches_expectNumber value) fun a isLeft => ?_
      refine stems_ask (.right fits onLeft rfl) fun value onRight => ?_
      refine stems_check (onlyMismatches_expectInteger value) fun divisor isRight => ?_
      obtain rfl := expectInteger_eq_ok_iff.mp isRight
      refine (stems_modulo (eval_eq_ofNumber onLeft isLeft) onRight).bind fun _ => ?_
      exact stems_of_mismatches (onlyMismatches_coerce kind _)

theorem stems_conditional (condition whenTrue whenFalse : Tree) :
    FailsOnly (Stems scope (.conditional condition whenTrue whenFalse, kind))
      (eval scope (.conditional condition whenTrue whenFalse) kind) := by
  refine stems_ask .condition fun value evaluates => ?_
  refine stems_check (onlyMismatches_expectBoolean value) fun truth isTruth => ?_
  obtain rfl := expectBoolean_eq_ok_iff.mp isTruth
  cases truth with
  | true => exact fun _ failed => .inr ⟨_, .whenTrue evaluates, failed⟩
  | false => exact fun _ failed => .inr ⟨_, .whenFalse evaluates, failed⟩

/-- Each error arises in the tree that is evaluated or is that of a part which is asked for. -/
theorem stems_eval (tree : Tree) : FailsOnly (Stems scope (tree, kind)) (eval scope tree kind) := by
  cases tree with
  | integer value =>
      rw [eval_integer_eq_coerce]
      exact stems_of_mismatches (onlyMismatches_coerce kind _)
  | float | boolean | string => exact stems_check (onlyMismatches_require kind _) fun _ _ => .ok _
  | identifier name => exact stems_identifier name
  | field target name => exact stems_field target name
  | index target position => exact stems_index target position
  | unary operation operand => exact stems_unary operation operand
  | binary operation left right => exact stems_binary operation left right
  | conditional condition whenTrue whenFalse => exact stems_conditional condition whenTrue whenFalse

/-! ## Errors of parts -/

section

variable {ε α β : Type} {first : Except ε α} {next : α → Except ε β} {failure : ε}

theorem fails_at (failed : first = .error failure) : first >>= next = .error failure :=
  Except.bind_eq_error_iff.mpr (.inl failed)

theorem fails_after {value : α} (passed : first = .ok value)
    (failed : next value = .error failure) : first >>= next = .error failure :=
  Except.bind_eq_error_iff.mpr (.inr ⟨value, passed, failed⟩)

end

variable {error : RenderError}

theorem error_of_operand {operation : Unary} {operand : Tree} (fits : operation.fits kind = true)
    (failed : eval scope operand (operation.operandKind kind) = .error error) :
    eval scope (.unary operation operand) kind = .error error := by
  cases operation with
  | plus | negate => exact fails_after (Kind.requireNumber_eq_ok_iff.mpr fits) (fails_at failed)
  | bitNot | not => exact fails_after (Kind.require_eq_ok_iff.mpr fits) (fails_at failed)

theorem error_of_left {operation : Binary} {left right : Tree} (fits : operation.fits kind = true)
    (failed : eval scope left (operation.leftKind kind) = .error error) :
    eval scope (.binary operation left right) kind = .error error := by
  cases operation with
  | add =>
      rw [eval]
      split
      · next text =>
        rw [Binary.leftKind, if_pos text] at failed
        exact fails_at failed
      · next noText =>
        rw [Binary.leftKind, if_neg noText] at failed
        rw [Binary.fits, Bool.eq_false_iff.mpr noText, Bool.false_or] at fits
        exact fails_after (Kind.requireNumber_eq_ok_iff.mpr fits) (fails_at failed)
  | subtract | multiply | divide | remainder | power =>
      exact fails_after (Kind.requireNumber_eq_ok_iff.mpr fits) (fails_at failed)
  | _ => exact fails_after (Kind.require_eq_ok_iff.mpr fits) (fails_at failed)

theorem error_of_right {operation : Binary} {left right : Tree} {value : Value}
    (fits : operation.fits kind = true)
    (evaluates : eval scope left (operation.leftKind kind) = .ok value)
    (undecided : operation.isDecidedBy value = false)
    (failed : eval scope right (operation.rightKind kind) = .error error) :
    eval scope (.binary operation left right) kind = .error error := by
  have conforms := admits_eval scope left _ value evaluates
  cases operation with
  | or =>
      obtain ⟨truth, rfl⟩ := exists_eq_boolean_of_conformsTo conforms
      obtain rfl : truth = false := undecided
      exact fails_after (Kind.require_eq_ok_iff.mpr fits)
        (fails_after evaluates (fails_after rfl (fails_at failed)))
  | and =>
      obtain ⟨truth, rfl⟩ := exists_eq_boolean_of_conformsTo conforms
      obtain rfl : truth = true := by simpa [Binary.isDecidedBy] using undecided
      exact fails_after (Kind.require_eq_ok_iff.mpr fits)
        (fails_after evaluates (fails_after rfl (fails_at failed)))
  | equal | notEqual =>
      exact fails_after (Kind.require_eq_ok_iff.mpr fits) (fails_after evaluates (fails_at failed))
  | less | greater | atMost | atLeast =>
      obtain ⟨a, isNumber⟩ := @exists_expectNumber_of_conformsTo _ .any conforms
      exact fails_after (Kind.require_eq_ok_iff.mpr fits)
        (fails_after evaluates (fails_after isNumber (fails_at failed)))
  | bitOr | bitXor | bitAnd | shiftLeft | shiftRight | shiftRightUnsigned =>
      obtain ⟨a, isInteger⟩ := exists_expectInteger_of_conformsTo conforms
      exact fails_after (Kind.require_eq_ok_iff.mpr fits)
        (fails_after evaluates (fails_after isInteger (fails_at failed)))
  | add =>
      have same : Binary.add.rightKind kind = Binary.add.leftKind kind := rfl
      rw [eval]
      split
      · next text =>
        rw [Binary.leftKind, if_pos text] at evaluates
        rw [same, Binary.leftKind, if_pos text] at failed
        exact fails_after evaluates (fails_at failed)
      · next noText =>
        rw [Binary.leftKind, if_neg noText] at evaluates conforms
        rw [same, Binary.leftKind, if_neg noText] at failed
        rw [Binary.fits, Bool.eq_false_iff.mpr noText, Bool.false_or] at fits
        obtain ⟨a, isNumber⟩ := exists_expectNumber_of_conformsTo conforms
        exact fails_after (Kind.requireNumber_eq_ok_iff.mpr fits)
          (fails_after evaluates (fails_after isNumber (fails_at failed)))
  | subtract | multiply | divide | remainder | power =>
      obtain ⟨a, isNumber⟩ := exists_expectNumber_of_conformsTo conforms
      exact fails_after (Kind.requireNumber_eq_ok_iff.mpr fits)
        (fails_after evaluates (fails_after isNumber (fails_at failed)))

/-- What fails where it is asked for fails the whole tree. -/
theorem error_of_demands {whole part : Tree × Kind} (demands : Demands scope whole part)
    (failed : eval scope part.1 part.2 = .error error) :
    eval scope whole.1 whole.2 = .error error := by
  cases demands with
  | target => exact fails_at failed
  | list => exact fails_at failed
  | position evaluates => exact fails_after evaluates (fails_at failed)
  | operand fits => exact error_of_operand fits failed
  | left fits => exact error_of_left fits failed
  | right fits evaluates undecided => exact error_of_right fits evaluates undecided failed
  | condition => exact fails_at failed
  | whenTrue holds => exact fails_after holds failed
  | whenFalse fails => exact fails_after fails failed

theorem error_of_visits {whole part : Tree × Kind} (visits : Visits scope whole part)
    (failed : eval scope part.1 part.2 = .error error) :
    eval scope whole.1 whole.2 = .error error := by
  induction visits with
  | refl => exact failed
  | tail _ demands induction => exact induction (error_of_demands demands failed)

/-! ## Whole trees -/

theorem Demands.sizeOf_lt {whole part : Tree × Kind} (demands : Demands scope whole part) :
    sizeOf part.1 < sizeOf whole.1 := by
  cases demands <;> simp only [Tree.field.sizeOf_spec, Tree.index.sizeOf_spec,
    Tree.unary.sizeOf_spec, Tree.binary.sizeOf_spec, Tree.conditional.sizeOf_spec] <;> omega

theorem Demands.parts_subset {whole part : Tree × Kind} (demands : Demands scope whole part) :
    part.1.parts ⊆ whole.1.parts := by
  intro tree isPart
  cases demands <;> rw [Tree.parts] <;> simp [isPart]

theorem Tree.mem_parts_self (tree : Tree) : tree ∈ tree.parts := by
  cases tree <;> simp [Tree.parts]

theorem Visits.mem_parts {whole part : Tree × Kind} (visits : Visits scope whole part) :
    part.1 ∈ whole.1.parts := by
  induction visits using Relation.ReflTransGen.head_induction_on with
  | refl => exact part.1.mem_parts_self
  | head demands _ induction => exact demands.parts_subset induction

/-- An evaluation that fails comes to a part in which the error arises. -/
theorem exists_arises (whole : Tree × Kind) (failed : eval scope whole.1 whole.2 = .error error) :
    ∃ part, Visits scope whole part ∧ eval scope part.1 part.2 = .error error ∧
      Arises scope part error := by
  induction bound : sizeOf whole.1 using Nat.strongRecOn generalizing whole with
  | ind size induction =>
      rcases stems_eval whole.1 error failed with arises | ⟨next, demands, fails⟩
      · exact ⟨whole, .refl, failed, arises⟩
      · obtain ⟨part, visits, rest⟩ :=
          induction _ (bound ▸ demands.sizeOf_lt) next fails rfl
        exact ⟨part, .head demands visits, rest⟩

/-- An evaluation fails with an error just if it comes to a part of the tree where the error arises:
a value of a kind that does not conform to the kind asked for, a name that no frame binds, a field
that the value before the point does not have, a position outside of the indexed value, or an
integer that is divided by zero or raised to a negative power.  There are no other errors. -/
theorem eval_eq_error_iff (scope : Scope) (tree : Tree) (kind : Kind) (error : RenderError) :
    eval scope tree kind = .error error ↔
      ∃ part ∈ tree.parts, ∃ asked, Visits scope (tree, kind) (part, asked) ∧
        eval scope part asked = .error error ∧ Arises scope (part, asked) error := by
  constructor
  · intro failed
    obtain ⟨⟨part, asked⟩, visits, fails, arises⟩ := exists_arises (tree, kind) failed
    exact ⟨part, visits.mem_parts, asked, visits, fails, arises⟩
  · rintro ⟨part, -, asked, visits, fails, -⟩
    exact error_of_visits visits fails

end

end Expression
end StaticSite
