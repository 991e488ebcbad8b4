import Mathlib
import StaticSite.Proofs.Expression.Soundness
import StaticSite.Proofs.Sequencing

/-!
# Kinds as filters

Asking for an integer, a number or a truth value gives what asking for anything gives, if that is
of this kind, and so does asking for a map, a list or a text where the value is no sum.  Floats are
no such kind, since integers are turned into floats where these are asked for.  The operands of an
operation are asked for by other kinds as the kind of its result changes, so that the proof goes
through all kinds at once.
-/

namespace StaticSite
namespace Kind

/-- Whether a result, the second, is another one as far as that conforms to the kind. -/
def Filters (kind : Kind) (all asked : Except RenderError Value) : Prop :=
  ∀ value, asked = .ok value ↔ all = .ok value ∧ value.kind.conformsTo kind = true

/-- Whether a search, the second, finds what another one does as far as that conforms to the
kind. -/
def FiltersFound (kind : Kind) (all asked : Except RenderError (Option Value)) : Prop :=
  ∀ value, asked = .ok (some value) ↔
    all = .ok (some value) ∧ value.kind.conformsTo kind = true

@[simp]
theorem conformsTo_any (kind : Kind) : kind.conformsTo .any = true := by
  cases kind <;> rfl

theorem any_ne_float : Kind.any ≠ .float := by decide

variable {kind natural : Kind}

/-- Anything filters nothing. -/
theorem filters_any (result : Except RenderError Value) : Kind.any.Filters result result := by
  simp [Filters]

/-- Above texts there are only kinds of maps and anything. -/
theorem eq_any_of_conformsTo (text : Kind.string.conformsTo kind = true)
    (noMap : ¬kind.conformsTo .map = true) : kind = .any := by
  revert text noMap
  cases kind <;> decide

theorem require_eq_ok_iff : kind.require natural = .ok () ↔ natural.conformsTo kind = true := by
  unfold require
  split <;> simp [*]

theorem requireNumber_eq_ok_iff : kind.requireNumber = .ok () ↔ kind.acceptsNumber = true := by
  unfold requireNumber
  split <;> simp [*]

theorem requireNumber_bind_eq_ok_iff {α : Type} {next : Except RenderError α} {last : α} :
    (do kind.requireNumber; next) = .ok last ↔ kind.acceptsNumber = true ∧ next = .ok last := by
  unfold requireNumber
  split <;> simp [*, bind, Except.bind]

theorem ofOperands_eq_number (noInteger : kind ≠ .integer) (noFloat : kind ≠ .float) :
    kind.ofOperands = .number := by
  cases kind <;> first | rfl | contradiction

theorem ensure_eq_ok_iff {value found : Value} :
    kind.ensure value = .ok found ↔ value = found ∧ value.kind.conformsTo kind = true := by
  unfold ensure
  split <;> simp [*]

/-- Where no float is asked for, a value passes unchanged or not at all. -/
theorem coerce_eq_ok_iff (noFloat : kind ≠ .float) {value found : Value} :
    kind.coerce value = .ok found ↔ value = found ∧ value.kind.conformsTo kind = true := by
  unfold coerce
  split
  · contradiction
  · exact ensure_eq_ok_iff

@[simp]
theorem coerce_any (value : Value) : Kind.any.coerce value = .ok value :=
  (coerce_eq_ok_iff any_ne_float).mpr ⟨rfl, value.kind.conformsTo_any⟩

theorem filters_coerce (noFloat : kind ≠ .float) (value : Value) :
    kind.Filters (Kind.any.coerce value) (kind.coerce value) := by
  intro found
  rw [coerce_eq_ok_iff noFloat, coerce_any, Except.ok.injEq]
  exact and_congr_right fun same => same ▸ Iff.rfl

theorem Filters.bind {α : Type} {first : Except RenderError α}
    {all asked : α → Except RenderError Value} (rest : ∀ a, kind.Filters (all a) (asked a)) :
    kind.Filters (first >>= all) (first >>= asked) := by
  intro value
  cases first with
  | error error => simp [Bind.bind, Except.bind]
  | ok a => exact rest a value

theorem eq_of_conformsTo (lowest : natural = .integer ∨ natural = .boolean)
    (conforms : kind.conformsTo natural = true) : kind = natural := by
  revert lowest conforms
  cases kind <;> cases natural <;> decide

/-- What has one kind only passes just where that kind does. -/
theorem Filters.require {result : Except RenderError Value}
    (isNatural : ∀ value, result = .ok value → value.kind = natural) :
    kind.Filters result (do kind.require natural; result) := by
  intro value
  rw [Except.bind_eq_ok_iff]
  constructor
  · rintro ⟨_, passed, evaluates⟩
    exact ⟨evaluates, isNatural value evaluates ▸ require_eq_ok_iff.mp passed⟩
  · rintro ⟨evaluates, conforms⟩
    exact ⟨(), require_eq_ok_iff.mpr (isNatural value evaluates ▸ conforms), evaluates⟩

theorem FiltersFound.coerce (noFloat : kind ≠ .float) (value : Value) :
    kind.FiltersFound (some <$> Kind.any.coerce value) (some <$> kind.coerce value) := by
  intro found
  simp only [Except.map_eq_ok_iff, coerce_eq_ok_iff noFloat, coerce_eq_ok_iff any_ne_float,
    Option.some.injEq]
  grind [conformsTo_any]

theorem FiltersFound.coerced {all asked : Option Value → Except RenderError (Option Value)}
    (noFloat : kind ≠ .float) (missing : all none = .ok none ∧ asked none = .ok none)
    (found : ∀ value, all (some value) = some <$> Kind.any.coerce value ∧
      asked (some value) = some <$> kind.coerce value)
    (result : Option Value) : kind.FiltersFound (all result) (asked result) := by
  cases result with
  | none => simp [FiltersFound, missing]
  | some value => exact (found value).1 ▸ (found value).2 ▸ .coerce noFloat value

theorem FiltersFound.bind {α : Type} {first : Except RenderError α}
    {all asked : α → Except RenderError (Option Value)}
    (rest : ∀ a, kind.FiltersFound (all a) (asked a)) :
    kind.FiltersFound (first >>= all) (first >>= asked) := by
  intro value
  cases first with
  | error error => simp [Bind.bind, Except.bind]
  | ok a => exact rest a value

/-- What must be found is filtered as what may be found is. -/
theorem FiltersFound.must {all asked : Except RenderError (Option Value)} {error : RenderError}
    {must : Option Value → Except RenderError Value} (filters : kind.FiltersFound all asked)
    (missing : must none = .error error) (found : ∀ value, must (some value) = .ok value) :
    kind.Filters (all >>= must) (asked >>= must) := by
  have ends (search : Except RenderError (Option Value)) (value : Value) :
      search >>= must = .ok value ↔ search = .ok (some value) := by
    rw [Except.bind_eq_ok_iff]
    constructor
    · rintro ⟨_ | other, isFound, ends⟩
      · simp [missing] at ends
      · simpa [found, isFound] using ends
    · exact fun isFound => ⟨some value, isFound, found value⟩
  intro value
  rw [ends, ends]
  exact filters value

end Kind

variable {kind : Kind}

theorem Scope.filtersFound_resolve? (noFloat : kind ≠ .float) (scope : Scope) (name : String) :
    kind.FiltersFound (scope.resolve? .any name) (scope.resolve? kind name) := by
  unfold Scope.resolve?
  cases scope.lookup? name with
  | none => simp [Kind.FiltersFound]
  | some value => exact .coerce noFloat value

theorem Value.filtersFound_field? (noFloat : kind ≠ .float) (name : String) (value : Value) :
    kind.FiltersFound (value.field? .any name) (value.field? kind name) := by
  unfold Value.field?
  cases value <;> exact .bind (.coerced noFloat ⟨rfl, rfl⟩ fun _ => ⟨rfl, rfl⟩)

theorem Value.filtersFound_index? (noFloat : kind ≠ .float) (position : Int64) (value : Value) :
    kind.FiltersFound (value.index? .any position) (value.index? kind position) := by
  unfold Value.index?
  split
  · simp [Kind.FiltersFound, pure, Except.pure]
  · cases value <;> exact .bind (.coerced noFloat ⟨rfl, rfl⟩ fun _ => ⟨rfl, rfl⟩)

/-! ## Numbers -/

def Number.isInteger : Number → Bool
  | integer _ => true
  | float _ => false

namespace Number

theorem isInteger_dividedBy {a b c : Number} (divides : a.dividedBy b = .ok c) :
    c.isInteger = (a.isInteger && b.isInteger) := by
  unfold dividedBy at divides
  split at divides
  · split at divides
    · contradiction
    · exact Except.ok.inj divides ▸ rfl
  · next notBoth =>
    obtain rfl := Except.ok.inj divides
    cases a <;> cases b <;> first | rfl | exact absurd rfl (notBoth _ _ rfl)

theorem isInteger_modulo {a c : Number} {divisor : Int64} (divides : a.modulo divisor = .ok c) :
    c.isInteger = a.isInteger := by
  unfold modulo at divides
  split at divides
  · split at divides
    · contradiction
    · exact Except.ok.inj divides ▸ rfl
  · exact Except.ok.inj divides ▸ rfl

theorem isInteger_power {a b c : Number} (raises : a.power b = .ok c) :
    c.isInteger = (a.isInteger && b.isInteger) := by
  unfold power at raises
  split at raises
  · obtain ⟨_, _, rfl⟩ := Except.map_eq_ok_iff.mp raises
    rfl
  · next notBoth =>
    obtain rfl := Except.ok.inj raises
    cases a <;> cases b <;> first | rfl | exact absurd rfl (notBoth _ _ rfl)

end Number

theorem Value.expectNumber_eq_ok_iff {value : Value} {number : Number} :
    value.expectNumber = .ok number ↔ value = .ofNumber number := by
  cases value <;> cases number <;> simp [expectNumber, number?, ofNumber]

theorem Value.kind_ofNumber (number : Number) :
    (Value.ofNumber number).kind = if number.isInteger then .integer else .float := by
  cases number <;> rfl

theorem Kind.acceptsNumber_of_conformsTo {kind : Kind} {number : Number}
    (conforms : (Value.ofNumber number).kind.conformsTo kind = true) :
    kind.acceptsNumber = true := by
  rw [Kind.acceptsNumber, Bool.or_eq_true]
  cases number with
  | integer => exact .inl conforms
  | float => exact .inr conforms

namespace Expression

theorem isInteger_signed (operation : Unary) (a : Number) :
    (signed operation a).isInteger = a.isInteger := by
  cases operation <;> cases a <;> rfl

/-- An operation gives an integer just if both operands are integers. -/
theorem isInteger_arithmetic {operation : Binary} {a b c : Number}
    (operates : arithmetic operation a b = .ok c) :
    c.isInteger = (a.isInteger && b.isInteger) := by
  unfold arithmetic at operates
  split at operates
  · obtain rfl := Except.ok.inj operates
    cases a <;> cases b <;> rfl
  · obtain rfl := Except.ok.inj operates
    cases a <;> cases b <;> rfl
  · obtain rfl := Except.ok.inj operates
    cases a <;> cases b <;> rfl
  · exact Number.isInteger_dividedBy operates
  · exact Number.isInteger_power operates

/-- Whether a computation, the second, gives the number that another one gives, if that is an
integer. -/
def Narrows (wide narrow : Except RenderError Number) : Prop :=
  ∀ number, narrow = .ok number ↔ wide = .ok number ∧ number.isInteger = true

/-- Whether an operand, evaluated by the kind asked for, is filtered where a number or an integer
is asked for. -/
structure FiltersNumbers (operand : Kind → Except RenderError Value) : Prop where
  number : Kind.number.Filters (operand .any) (operand .number)
  integer : Kind.integer.Filters (operand .any) (operand .integer)

/-- The integer of an operand is its number, if that is an integer. -/
theorem FiltersNumbers.narrows {operand : Kind → Except RenderError Value}
    (filters : FiltersNumbers operand) :
    Narrows (operand .number >>= Value.expectNumber)
      (operand .integer >>= Value.expectNumber) := by
  intro number
  simp only [Except.bind_eq_ok_iff, Value.expectNumber_eq_ok_iff, exists_eq_right,
    filters.number _, filters.integer _, Value.kind_ofNumber]
  cases number.isInteger <;> simp [Kind.conformsTo, Kind.ancestors]

theorem Narrows.map {wide narrow : Except RenderError Number} (narrows : Narrows wide narrow)
    {change : Number → Number} (keeps : ∀ a, (change a).isInteger = a.isInteger) :
    Narrows (do .ok (change (← wide))) (do .ok (change (← narrow))) := by
  intro number
  simp only [Except.bind_eq_ok_iff, narrows _, Except.ok.injEq]
  grind

theorem Narrows.bind {α : Type} {wide narrow : Except RenderError Number}
    (narrows : Narrows wide narrow) {other : Except RenderError α}
    {operate : Number → α → Except RenderError Number}
    (keeps : ∀ a b c, operate a b = .ok c → c.isInteger = a.isInteger) :
    Narrows (do operate (← wide) (← other)) (do operate (← narrow) (← other)) := by
  intro number
  simp only [Except.bind_eq_ok_iff, narrows _]
  grind

theorem Narrows.both {wide narrow wideRight narrowRight : Except RenderError Number}
    (onLeft : Narrows wide narrow) (onRight : Narrows wideRight narrowRight)
    {operate : Number → Number → Except RenderError Number}
    (keeps : ∀ a b c, operate a b = .ok c → c.isInteger = (a.isInteger && b.isInteger)) :
    Narrows (do operate (← wide) (← wideRight)) (do operate (← narrow) (← narrowRight)) := by
  intro number
  simp only [Except.bind_eq_ok_iff, onLeft _, onRight _]
  grind

/-- What an operation makes of two operands that are asked for by the same kind. -/
def operate (operation : Binary) (left right : Kind → Except RenderError Value) (kind : Kind) :
    Except RenderError Number := do
  let a ← left kind >>= Value.expectNumber
  let b ← right kind >>= Value.expectNumber
  arithmetic operation a b

theorem narrows_operate {operation : Binary} {left right : Kind → Except RenderError Value}
    (onLeft : FiltersNumbers left) (onRight : FiltersNumbers right) :
    Narrows (operate operation left right .number) (operate operation left right .integer) :=
  onLeft.narrows.both onRight.narrows fun _ _ _ => isInteger_arithmetic

/-- What is computed from operands of the kind that goes with the kind asked for is filtered, if
integers come from integers only. -/
theorem filters_number {kind : Kind} (compute : Kind → Except RenderError Number)
    (noFloat : kind ≠ .float) (narrows : Narrows (compute .number) (compute .integer)) :
    kind.Filters
      (do Kind.any.requireNumber; Kind.any.coerce (.ofNumber (← compute .number)))
      (do kind.requireNumber; kind.coerce (.ofNumber (← compute kind.ofOperands))) := by
  intro value
  rw [Kind.requireNumber_bind_eq_ok_iff, Kind.requireNumber_bind_eq_ok_iff]
  simp only [Except.bind_eq_ok_iff, Kind.coerce_eq_ok_iff noFloat,
    Kind.coerce_eq_ok_iff Kind.any_ne_float, Kind.conformsTo_any, and_true]
  -- only an integer is computed from other operands than any number is
  have computes (number : Number) (conforms : (Value.ofNumber number).kind.conformsTo kind = true) :
      compute kind.ofOperands = .ok number ↔ compute .number = .ok number := by
    by_cases whole : kind = .integer
    · subst whole
      have isInteger : number.isInteger = true := by
        cases number with
        | integer => rfl
        | float => contradiction
      rw [Kind.ofOperands, narrows number]
      simp [isInteger]
    · rw [Kind.ofOperands_eq_number whole noFloat]
  constructor
  · rintro ⟨accepts, number, computed, rfl, conforms⟩
    exact ⟨⟨rfl, number, (computes number conforms).mp computed, rfl⟩, conforms⟩
  · rintro ⟨⟨_, number, computed, rfl⟩, conforms⟩
    exact ⟨Kind.acceptsNumber_of_conformsTo conforms, number,
      (computes number conforms).mpr computed, rfl, conforms⟩

/-! ## Sums -/

theorem addOrJoin_ofNumber (x y : Number) :
    addOrJoin .any (.ofNumber x) (.ofNumber y) = .ofNumber (x.plus y) := by
  cases x <;> cases y <;> rfl

/-- A sum is that of two numbers, or a text. -/
theorem addOrJoin_cases (a b : Value) :
    (∃ x y, a = .ofNumber x ∧ b = .ofNumber y) ∨
      addOrJoin .any a b = .string (a.text ++ b.text) := by
  have number (value : Value) : value.number? = none ∨ ∃ x, value = .ofNumber x := by
    cases value with
    | integer whole => exact .inr ⟨.integer whole, rfl⟩
    | float value => exact .inr ⟨.float value, rfl⟩
    | boolean | string | list | map | scope => exact .inl rfl
  rcases number a with noNumber | ⟨x, rfl⟩
  · exact .inr (by rw [addOrJoin, noNumber])
  · rcases number b with noNumber | ⟨y, rfl⟩
    · exact .inr (by rw [addOrJoin, noNumber]; cases x <;> rfl)
    · exact .inl ⟨x, y, rfl, rfl⟩

/-- Where no text may stand, a sum is filtered. -/
theorem filters_sum {kind : Kind} {left right : Kind → Except RenderError Value}
    (noFloat : kind ≠ .float) (noText : Kind.string.conformsTo kind = false)
    (onLeft : FiltersNumbers left) (onRight : FiltersNumbers right) :
    kind.Filters (do pure (addOrJoin .any (← left .any) (← right .any)))
      (do
        kind.requireNumber
        kind.coerce (.ofNumber (← operate .add left right kind.ofOperands))) := by
  intro value
  refine (filters_number (operate .add left right) noFloat (narrows_operate onLeft onRight)
    value).trans (and_congr_left fun conforms => ?_)
  have number {operand : Kind → Except RenderError Value} (filters : FiltersNumbers operand)
      (x : Number) : operand .number = .ok (.ofNumber x) ↔ operand .any = .ok (.ofNumber x) := by
    rw [filters.number]
    exact and_iff_left (by cases x <;> rfl)
  have sum : operate .add left right .number >>= (fun sum => Kind.any.coerce (.ofNumber sum)) =
      .ok value ↔ ∃ x y, left .any = .ok (.ofNumber x) ∧ right .any = .ok (.ofNumber y) ∧
        .ofNumber (x.plus y) = value := by
    simp only [operate, Except.bind_eq_ok_iff, Value.expectNumber_eq_ok_iff, exists_eq_right,
      arithmetic, Except.ok.injEq, Kind.coerce_eq_ok_iff Kind.any_ne_float, Kind.conformsTo_any,
      and_true, number onLeft, number onRight]
    grind
  rw [Kind.requireNumber_bind_eq_ok_iff, sum]
  simp only [Except.bind_eq_ok_iff, pure, Except.pure, Except.ok.injEq]
  constructor
  · rintro ⟨_, x, y, onLeft, onRight, rfl⟩
    exact ⟨_, onLeft, _, onRight, addOrJoin_ofNumber x y⟩
  · rintro ⟨a, onLeft, b, onRight, rfl⟩
    rcases addOrJoin_cases a b with ⟨x, y, rfl, rfl⟩ | joined
    · exact ⟨rfl, x, y, onLeft, onRight, (addOrJoin_ofNumber x y).symm⟩
    · rw [joined] at conforms
      exact absurd conforms (noText ▸ Bool.false_ne_true)

/-- Whether the value of a tree may be a sum: the tree is a sum, or a conditional that has such a
branch. -/
def Tree.endsInSum : Tree → Bool
  | .binary .add _ _ => true
  | .conditional _ whenTrue whenFalse => whenTrue.endsInSum || whenFalse.endsInSum
  | _ => false

/-- What has a value of one lowest kind only is filtered. -/
theorem filters_of_required {scope : Scope} {tree : Tree} {kind natural : Kind}
    (lowest : natural = .integer ∨ natural = .boolean)
    (required : ∀ kind, eval scope tree kind =
      kind.require natural >>= fun _ => eval scope tree natural) :
    kind.Filters (eval scope tree .any) (eval scope tree kind) := by
  have anything : eval scope tree .any = eval scope tree natural := by
    rw [required .any, Kind.require_eq_ok_iff.mpr natural.conformsTo_any]
    rfl
  rw [required kind, anything]
  exact .require fun value evaluates => Kind.eq_of_conformsTo lowest
    (admits_eval scope tree natural value evaluates)

theorem eval_add_of_noText {scope : Scope} {left right : Tree} {kind : Kind}
    (noText : Kind.string.conformsTo kind = false) :
    eval scope (.binary .add left right) kind =
      (do
        kind.requireNumber
        kind.coerce (.ofNumber (← operate .add (eval scope left) (eval scope right)
          kind.ofOperands))) := by
  simp only [eval, noText, operate, bind_assoc, Bool.false_eq_true, ↓reduceIte]
  rfl

/-- Where no float is asked for, what is evaluated is filtered, unless it is a sum that may be a
text. -/
theorem filters_eval (scope : Scope) (tree : Tree) {kind : Kind} (noFloat : kind ≠ .float)
    (noSum : kind.conformsTo .map = true → tree.endsInSum = false) :
    kind.Filters (eval scope tree .any) (eval scope tree kind) := by
  -- numeric operands are asked for by kinds that no text conforms to, so sums are no exception
  have numeric {operand : Tree} (filters : ∀ {kind : Kind}, kind ≠ .float →
      (kind.conformsTo .map = true → operand.endsInSum = false) →
      kind.Filters (eval scope operand .any) (eval scope operand kind)) :
      FiltersNumbers (eval scope operand) :=
    ⟨filters (by decide) fun text => absurd text (by decide),
      filters (by decide) fun text => absurd text (by decide)⟩
  induction tree generalizing kind with
  | integer value =>
      rw [eval_integer_eq_coerce, eval_integer_eq_coerce]
      exact Kind.filters_coerce noFloat _
  | float value => exact .require fun _ same => Except.ok.inj same ▸ rfl
  | boolean value => exact .require fun _ same => Except.ok.inj same ▸ rfl
  | string text => exact .require fun _ same => Except.ok.inj same ▸ rfl
  | identifier name =>
      exact (scope.filtersFound_resolve? noFloat name).must rfl fun _ => rfl
  | field target name =>
      exact .bind fun value => (value.filtersFound_field? noFloat name).must rfl fun _ => rfl
  | index target position =>
      exact .bind fun list => .bind fun _ => .bind fun place =>
        (list.filtersFound_index? noFloat place).must rfl fun _ => rfl
  | unary operation operand onOperand =>
      cases operation with
      | plus | negate =>
          have filters (operation : Unary) := filters_number (fun kind => do
            .ok (signed operation (← eval scope operand kind >>= Value.expectNumber))) noFloat
            ((numeric onOperand).narrows.map (isInteger_signed operation))
          simp only [bind_assoc] at filters
          exact filters _
      | bitNot => exact filters_of_required (.inl rfl) fun _ => rfl
      | not => exact filters_of_required (.inr rfl) fun _ => rfl
  | binary operation left right onLeft onRight =>
      cases operation with
      | or | and | equal | notEqual | less | greater | atMost | atLeast =>
          exact filters_of_required (.inr rfl) fun _ => rfl
      | bitOr | bitXor | bitAnd | shiftLeft | shiftRight | shiftRightUnsigned =>
          exact filters_of_required (.inl rfl) fun _ => rfl
      | add =>
          cases noText : Kind.string.conformsTo kind with
          | false =>
              rw [eval_add_of_noText noText]
              exact filters_sum noFloat noText (numeric onLeft) (numeric onRight)
          | true =>
              -- of the kinds that a text conforms to only anything allows a sum
              obtain rfl : kind = .any := by
                refine Kind.eq_any_of_conformsTo noText fun isMap => ?_
                exact absurd (noSum isMap) (by simp [Tree.endsInSum])
              exact Kind.filters_any _
      | subtract | multiply | divide | power =>
          have filters (operation : Binary) :=
            filters_number (operate operation (eval scope left) (eval scope right)) noFloat
              (narrows_operate (numeric onLeft) (numeric onRight))
          simp only [operate, bind_assoc] at filters
          exact filters _
      | remainder =>
          have filters := filters_number (fun kind => do
            let a ← eval scope left kind >>= Value.expectNumber
            a.modulo (← eval scope right .integer >>= Value.expectInteger)) noFloat
            ((numeric onLeft).narrows.bind fun _ _ _ => Number.isInteger_modulo)
          simp only [bind_assoc] at filters
          exact filters
  | conditional condition whenTrue whenFalse _ onTrue onFalse =>
      refine .bind fun _ => .bind fun holds => ?_
      cases holds with
      | true => exact onTrue noFloat fun text => by simp_all [Tree.endsInSum]
      | false => exact onFalse noFloat fun text => by simp_all [Tree.endsInSum]

/-- Asking for an integer, a number or a truth value gives the value of a tree if it is of this
kind and nothing else, and so does asking for a map, a list or a text, unless the value of the tree
may be a sum. -/
theorem eval_eq_ok_iff_conforms (scope : Scope) (tree : Tree) (value : Value) :
    (∀ kind ∈ [Kind.integer, .number, .boolean],
      eval scope tree kind = .ok value ↔
        eval scope tree .any = .ok value ∧ value.kind.conformsTo kind = true) ∧
    (tree.endsInSum = false → ∀ kind ∈ [Kind.map, .list, .string],
      eval scope tree kind = .ok value ↔
        eval scope tree .any = .ok value ∧ value.kind.conformsTo kind = true) := by
  constructor
  · intro kind member
    refine filters_eval scope tree ?_ ?_ value
    · rintro rfl
      simp at member
    · intro isMap
      exact absurd isMap (by revert member; cases kind <;> decide)
  · intro noSum kind member
    refine filters_eval scope tree ?_ (fun _ => noSum) value
    rintro rfl
    simp at member

/-- The tree of `flag ? "abc"[1] : 1 + 2 < 4`, where `flag` is true. -/
def choiceTree : Tree :=
  .conditional (.identifier "flag") (.index (.string "abc") (.integer 1))
    (.binary .less (.binary .add (.integer 1) (.integer 2)) (.integer 4))

/-- The character is a list, and no number. -/
theorem eval_eq_ok_iff_conforms_choice :
    let scope := Scope.root.bind "flag" (.boolean true)
    Kind.number ∈ [Kind.integer, .number, .boolean] ∧ choiceTree.endsInSum = false ∧
      Kind.list ∈ [Kind.map, .list, .string] ∧
      eval scope choiceTree .number ≠ .ok (.string "b") ∧
      eval scope choiceTree .list = .ok (.string "b") := by
  have filters := eval_eq_ok_iff_conforms (Scope.root.bind "flag" (.boolean true)) choiceTree
    (.string "b")
  refine ⟨by decide, rfl, by decide, fun evaluates => ?_, ?_⟩
  · have conforms := ((filters.1 .number (by decide)).mp evaluates).2
    contradiction
  · exact (filters.2 rfl .list (by decide)).mpr ⟨by cbv, rfl⟩

/-- A sum of numbers that is asked for as a text is a text. -/
example : eval .root (.binary .add (.integer 1) (.integer 2)) .string = .ok (.string "12") := by
  cbv

end Expression
end StaticSite
