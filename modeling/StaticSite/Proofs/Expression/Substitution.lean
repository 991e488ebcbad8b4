import StaticSite.Proofs.Expression.Filtering

/-!
# Names and what they stand for

A name that is bound to the value of a tree can be replaced by the tree, wherever it is read.  The
value passes at each place where it is asked for just as the tree has a value there: no place in a
tree whose value may be anything asks for a float.
-/

namespace StaticSite

/-! ## Results without their errors -/

/-- Whether two computations have the same result, or both fail. -/
def SameResult {α : Type} (result other : Except RenderError α) : Prop :=
  ∀ value, result = .ok value ↔ other = .ok value

namespace SameResult

variable {α β : Type} {result other : Except RenderError α}

theorem refl (result : Except RenderError α) : SameResult result result := fun _ => Iff.rfl

theorem bind (before : SameResult result other) {next following : α → Except RenderError β}
    (rest : ∀ value, SameResult (next value) (following value)) :
    SameResult (result >>= next) (other >>= following) := by
  intro last
  simp only [Except.bind_eq_ok_iff, before _, rest _ last]

/-- What follows the same result is the same. -/
theorem andThen (before : SameResult result other) {next : α → Except RenderError β} :
    SameResult (result >>= next) (other >>= next) :=
  before.bind fun value => .refl (next value)

theorem after {first : Except RenderError α} {next following : α → Except RenderError β}
    (rest : ∀ value, SameResult (next value) (following value)) :
    SameResult (first >>= next) (first >>= following) :=
  (refl first).bind rest

/-- Two operands, of each of which something is asked. -/
theorem operands {γ δ : Type} {left right : Except RenderError α}
    {expectLeft : α → Except RenderError β} {expectRight : α → Except RenderError γ}
    {combine : β → γ → Except RenderError δ} {otherLeft otherRight : Except RenderError α}
    (onLeft : SameResult left otherLeft) (onRight : SameResult right otherRight) :
    SameResult
      (do
        let a ← expectLeft (← left)
        let b ← expectRight (← right)
        combine a b)
      (do
        let a ← expectLeft (← otherLeft)
        let b ← expectRight (← otherRight)
        combine a b) :=
  onLeft.bind fun _ => .after fun _ => onRight.andThen

end SameResult

/-! ## Scopes -/

theorem Scope.lookup?_bind (scope : Scope) (name other : String) (value : Value) :
    (scope.bind name value).lookup? other =
      if other = name then some value else scope.lookup? other := by
  by_cases same : other = name
  · simp [bind, extend, lookup?, same]
  · simp [bind, extend, lookup?, List.lookup_cons, beq_false_of_ne same, same]

namespace Expression

/-- The tree with each identifier of a name replaced by another tree. -/
def Tree.substitute (tree : Tree) (name : String) (replacement : Tree) : Tree :=
  match tree with
  | .identifier other => if other = name then replacement else .identifier other
  | .field target label => .field (target.substitute name replacement) label
  | .index target position =>
      .index (target.substitute name replacement) (position.substitute name replacement)
  | .unary operation operand => .unary operation (operand.substitute name replacement)
  | .binary operation left right =>
      .binary operation (left.substitute name replacement) (right.substitute name replacement)
  | .conditional condition whenTrue whenFalse =>
      .conditional (condition.substitute name replacement) (whenTrue.substitute name replacement)
        (whenFalse.substitute name replacement)
  | leaf => leaf

/-- Where no float is asked for, a name that is bound to the value of a tree has the same value as
the tree. -/
theorem sameResult_identifier {scope : Scope} {replacement : Tree} {value : Value} {kind : Kind}
    (noSum : replacement.endsInSum = false) (evaluates : eval scope replacement .any = .ok value)
    (noFloat : kind ≠ .float) (name : String) :
    SameResult (eval (scope.bind name value) (.identifier name) kind)
      (eval scope replacement kind) := by
  intro found
  have bound : eval (scope.bind name value) (.identifier name) kind = kind.coerce value :=
    eval_identifier_eq_coerce (by rw [Scope.lookup?_bind, if_pos rfl])
  rw [bound, filters_eval scope replacement noFloat (fun _ => noSum) found, evaluates,
    ← Kind.coerce_any value]
  exact Kind.filters_coerce noFloat value found

/-- The operands of an operation are asked for as floats only where its result is. -/
theorem ofOperands_ne_float {kind : Kind} (noFloat : kind ≠ .float) : kind.ofOperands ≠ .float := by
  revert noFloat
  cases kind <;> decide

/-- Where no float is asked for, a tree has the same value as the tree in which a name is replaced
by a tree with the value of the name. -/
theorem sameResult_substitute {scope : Scope} {replacement : Tree} {value : Value}
    (noSum : replacement.endsInSum = false) (evaluates : eval scope replacement .any = .ok value)
    (name : String) (tree : Tree) {kind : Kind} (noFloat : kind ≠ .float) :
    SameResult (eval (scope.bind name value) tree kind)
      (eval scope (tree.substitute name replacement) kind) := by
  induction tree generalizing kind with
  | integer | float | boolean | string => exact .refl _
  | identifier other =>
      by_cases same : other = name
      · subst same
        rw [Tree.substitute, if_pos rfl]
        exact sameResult_identifier noSum evaluates noFloat other
      · rw [Tree.substitute, if_neg same, eval, eval, Scope.resolve, Scope.resolve,
          Scope.resolve?, Scope.resolve?, Scope.lookup?_bind, if_neg same]
        exact .refl _
  | field target label onTarget => exact (onTarget (by decide)).andThen
  | index target position onTarget onPosition =>
      exact (onTarget (by decide)).bind fun _ => (onPosition (by decide)).andThen
  | unary operation operand onOperand =>
      cases operation with
      | plus | negate => exact .after fun _ => (onOperand (ofOperands_ne_float noFloat)).andThen
      | bitNot | not => exact .after fun _ => (onOperand (by decide)).andThen
  | binary operation left right onLeft onRight =>
      have numbers := ofOperands_ne_float noFloat
      cases operation with
      | or =>
          refine .after fun _ => (onLeft (by decide)).bind fun _ => .after fun holds => ?_
          cases holds with
          | true => exact .refl _
          | false => exact (onRight (by decide)).andThen
      | and =>
          refine .after fun _ => (onLeft (by decide)).bind fun _ => .after fun holds => ?_
          cases holds with
          | true => exact (onRight (by decide)).andThen
          | false => exact .refl _
      | equal | notEqual =>
          exact .after fun _ => (onLeft (by decide)).bind fun _ => (onRight (by decide)).andThen
      | less | greater | atMost | atLeast | bitOr | bitXor | bitAnd | shiftLeft | shiftRight
      | shiftRightUnsigned =>
          exact .after fun _ => (onLeft (by decide)).operands (onRight (by decide))
      | add =>
          rw [Tree.substitute, eval, eval]
          split
          · exact (onLeft (by decide)).bind fun _ => (onRight (by decide)).andThen
          · exact .after fun _ => (onLeft numbers).operands (onRight numbers)
      | subtract | multiply | divide | power =>
          exact .after fun _ => (onLeft numbers).operands (onRight numbers)
      | remainder => exact .after fun _ => (onLeft numbers).operands (onRight (by decide))
  | conditional condition whenTrue whenFalse onCondition onTrue onFalse =>
      refine (onCondition (by decide)).bind fun _ => .after fun holds => ?_
      cases holds with
      | true => exact onTrue noFloat
      | false => exact onFalse noFloat

/-- A name that is bound to the value of a tree can be replaced by the tree in every tree whose
value may be anything. -/
theorem eval_bind_eq_ok_iff {scope : Scope} {replacement : Tree} {value : Value}
    (noSum : replacement.endsInSum = false) (evaluates : eval scope replacement .any = .ok value)
    (name : String) (tree : Tree) (result : Value) :
    eval (scope.bind name value) tree .any = .ok result ↔
      eval scope (tree.substitute name replacement) .any = .ok result :=
  sameResult_substitute noSum evaluates name tree Kind.any_ne_float result

/-- The tree of `n * 2 < 8 ? nums[n] : n`. -/
def choosingTree : Tree :=
  .conditional
    (.binary .less (.binary .multiply (.identifier "n") (.integer 2)) (.integer 8))
    (.index (.identifier "nums") (.identifier "n")) (.identifier "n")

/-- The length of a text stands for a name in three places. -/
theorem eval_bind_eq_ok_iff_length :
    let scope := Scope.root.bind "nums" (.list [.integer 10, .integer 20])
    let length := Tree.field (.string "a") "length"
    length.endsInSum = false ∧ eval scope length .any = .ok (.integer 1) ∧
      eval (scope.bind "n" (.integer 1)) choosingTree .any = .ok (.integer 20) ∧
      eval scope (choosingTree.substitute "n" length) .any = .ok (.integer 20) := by
  have evaluates : eval (Scope.root.bind "nums" (.list [.integer 10, .integer 20]))
      (.field (.string "a") "length") .any = .ok (.integer 1) := by cbv
  have bound : eval ((Scope.root.bind "nums" (.list [.integer 10, .integer 20])).bind "n"
      (.integer 1)) choosingTree .any = .ok (.integer 20) := by cbv
  exact ⟨rfl, evaluates, bound, (eval_bind_eq_ok_iff rfl evaluates "n" choosingTree _).mp bound⟩

end Expression
end StaticSite
