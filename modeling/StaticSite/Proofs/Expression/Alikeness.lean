import Mathlib
import StaticSite.Proofs.Expression.Substitution
import StaticSite.Proofs.Value.Lookups

/-!
# Names that an expression looks up

An expression looks at a scope through names only: its identifiers, and the names of the fields that
it asks for.  Baked scopes answer for names too and are otherwise told apart by their place and
their text.  So two values are alike for some names if they are the same, or baked scopes of the
same place and text that are alike in what they answer for these names; and an expression gives
alike results in scopes that are alike for its names.
-/

namespace StaticSite

/-! ## Alike results -/

/-- Whether two results are the same error or related values. -/
inductive Except.Corresponds {ε α β : Type} (related : α → β → Prop) :
    Except ε α → Except ε β → Prop
  | ok {value : α} {other : β} (isRelated : related value other) :
      Corresponds related (.ok value) (.ok other)
  | error (error : ε) : Corresponds related (.error error) (.error error)

namespace Except.Corresponds

variable {ε α β γ δ : Type} {related : α → β → Prop} {relatedToo : γ → δ → Prop}
  {first : Except ε α} {second : Except ε β}

theorem refl {related : α → α → Prop} (isRelated : ∀ value, related value value)
    (result : Except ε α) : Corresponds related result result := by
  cases result with
  | ok value => exact .ok (isRelated value)
  | error error => exact .error error

theorem bind (before : Corresponds related first second) {next : α → Except ε γ}
    {other : β → Except ε δ}
    (after : ∀ value found, related value found →
      Corresponds relatedToo (next value) (other found)) :
    Corresponds relatedToo (first >>= next) (second >>= other) := by
  cases before with
  | ok isRelated => exact after _ _ isRelated
  | error error => exact .error error

theorem map (before : Corresponds related first second) {change : α → γ} {other : β → δ}
    (after : ∀ value found, related value found → relatedToo (change value) (other found)) :
    Corresponds relatedToo (change <$> first) (other <$> second) := by
  cases before with
  | ok isRelated => exact .ok (after _ _ isRelated)
  | error error => exact .error error

/-- A check made on both sides changes nothing. -/
theorem check (check : Except ε Unit) {first : Except ε α} {second : Except ε β}
    (after : Corresponds related first second) :
    Corresponds related (check >>= fun _ => first) (check >>= fun _ => second) :=
  (refl (fun _ => rfl) check).bind fun _ _ _ => after

theorem eq {first second : Except ε α} (same : Corresponds (· = ·) first second) :
    first = second := by
  cases same with
  | ok isSame => rw [isSame]
  | error error => rfl

end Except.Corresponds

/-! ## Alike values -/

/-- Whether two values are the same as far as some names go. -/
inductive Value.Alike (names : List String) : Value → Value → Prop
  | refl (value : Value) : Alike names value value
  | scope {address : Address} {frames others : List Fields} {text : String}
      (shown : ∀ name ∈ names,
        Option.Rel (Alike names) (Scope.lookup? ⟨frames⟩ name) (Scope.lookup? ⟨others⟩ name)) :
      Alike names (.scope address frames text) (.scope address others text)

/-- Whether two scopes are. -/
def Scope.Alike (names : List String) (scope other : Scope) : Prop :=
  ∀ name ∈ names, Option.Rel (Value.Alike names) (scope.lookup? name) (other.lookup? name)

section

variable {names : List String} {name : String} {scope other : Scope} {a b c d : Value}

theorem Value.Alike.refl_option (found : Option Value) :
    Option.Rel (Value.Alike names) found found := by
  cases found with
  | none => exact .none
  | some value => exact .some (.refl value)

theorem Scope.alike_of_lookup? (same : ∀ name ∈ names, scope.lookup? name = other.lookup? name) :
    scope.Alike names other := by
  intro name member
  rw [same name member]
  exact Value.Alike.refl_option _

theorem Scope.Alike.bind (alike : scope.Alike names other) (name : String)
    (same : a.Alike names b) : (scope.bind name a).Alike names (other.bind name b) := by
  intro wanted member
  rw [Scope.lookup?_bind, Scope.lookup?_bind]
  split
  · exact .some same
  · exact alike wanted member

namespace Value.Alike

theorem kind_eq (alike : a.Alike names b) : a.kind = b.kind := by
  cases alike <;> rfl

theorem text_eq (alike : a.Alike names b) : a.text = b.text := by
  cases alike <;> rfl

theorem number?_eq (alike : a.Alike names b) : a.number? = b.number? := by
  cases alike <;> rfl

theorem integer?_eq (alike : a.Alike names b) : a.integer? = b.integer? := by
  cases alike <;> rfl

theorem boolean?_eq (alike : a.Alike names b) : a.boolean? = b.boolean? := by
  cases alike <;> rfl

/-- Baked scopes are compared by their places only. -/
theorem isEqual_eq (alike : a.Alike names b) (alikeToo : c.Alike names d) :
    a.isEqual c = b.isEqual d := by
  cases alike with
  | refl => cases alikeToo <;> cases a <;> rfl
  | scope =>
      cases alikeToo with
      | refl => cases c <;> rfl
      | scope => rfl

theorem expectNumber_eq (alike : a.Alike names b) : a.expectNumber = b.expectNumber := by
  rw [expectNumber, expectNumber, alike.number?_eq, alike.kind_eq]

theorem expectInteger_eq (alike : a.Alike names b) : a.expectInteger = b.expectInteger := by
  rw [expectInteger, expectInteger, alike.integer?_eq, alike.kind_eq]

theorem expectBoolean_eq (alike : a.Alike names b) : a.expectBoolean = b.expectBoolean := by
  rw [expectBoolean, expectBoolean, alike.boolean?_eq, alike.kind_eq]

theorem coerce (alike : a.Alike names b) (kind : Kind) :
    Except.Corresponds (Alike names) (kind.coerce a) (kind.coerce b) := by
  cases alike with
  | refl => exact .refl .refl _
  | scope shown =>
      cases kind with
      | any | map => exact .ok (.scope shown)
      | list | string | number | integer | float | boolean => exact .error _

theorem coerceFound {found foundToo : Option Value}
    (alike : Option.Rel (Alike names) found foundToo) (kind : Kind) :
    Except.Corresponds (Option.Rel (Alike names)) (kind.coerceFound found)
      (kind.coerceFound foundToo) := by
  cases alike with
  | none => exact .ok .none
  | some alike => exact (alike.coerce kind).map fun _ _ => .some

/-- Alike values have alike fields of the names for which they are alike. -/
theorem field? (alike : a.Alike names b) (member : name ∈ names) (kind : Kind) :
    Except.Corresponds (Option.Rel (Alike names)) (a.field? kind name) (b.field? kind name) := by
  cases alike with
  | refl => exact .refl refl_option _
  | scope shown => exact coerceFound (shown name member) kind

theorem index? (alike : a.Alike names b) (kind : Kind) (position : Int64) :
    Except.Corresponds (Option.Rel (Alike names)) (a.index? kind position)
      (b.index? kind position) := by
  cases alike with
  | refl => exact .refl refl_option _
  | scope shown =>
      unfold Value.index?
      split
      · exact .ok .none
      · exact .error _

end Value.Alike

end

namespace Expression

/-! ## Expressions -/

/-- The identifiers of a tree, and the names of the fields that it asks for. -/
def Tree.names : Tree → List String
  | .integer _ | .float _ | .boolean _ | .string _ => []
  | .identifier name => [name]
  | .field target name => target.names ++ [name]
  | .index target position => target.names ++ position.names
  | .unary _ operand => operand.names
  | .binary _ left right => left.names ++ right.names
  | .conditional condition whenTrue whenFalse =>
      condition.names ++ whenTrue.names ++ whenFalse.names

/-- The names in the text of an expression; a text that is none has no names. -/
def names (text : String) : List String :=
  (parse text).toOption.elim [] Tree.names

section

variable {names : List String} {scope other : Scope}

theorem addOrJoin_eq {a b c d : Value} (alike : a.Alike names b) (alikeToo : c.Alike names d)
    (kind : Kind) : addOrJoin kind a c = addOrJoin kind b d := by
  rw [addOrJoin, addOrJoin, alike.number?_eq, alike.text_eq, alikeToo.number?_eq, alikeToo.text_eq]

theorem agrees_eq {a b c d : Value} (alike : a.Alike names b) (alikeToo : c.Alike names d)
    (operation : Binary) : agrees operation a c = agrees operation b d := by
  simp only [agrees, alike.isEqual_eq alikeToo]

/-- Alike operands pass for the same number, integer or truth value, or for none. -/
theorem corresponds_expect {α β : Type} {first second : Except RenderError Value}
    {expect : Value → Except RenderError α} {related : β → β → Prop}
    {next other : α → Except RenderError β}
    (alike : Except.Corresponds (Value.Alike names) first second)
    (same : ∀ {a b : Value}, a.Alike names b → expect a = expect b)
    (after : ∀ found, Except.Corresponds related (next found) (other found)) :
    Except.Corresponds related (first >>= fun value => expect value >>= next)
      (second >>= fun value => expect value >>= other) := by
  refine alike.bind fun a b alike => ?_
  rw [same alike]
  refine (Except.Corresponds.refl (fun _ => rfl) (expect b)).bind fun found _ isSame => ?_
  exact isSame ▸ after found

/-- Both sides go on with what they find, or in the same way as they find nothing. -/
theorem corresponds_found {first second : Except RenderError (Option Value)}
    {next : Option Value → Except RenderError Value}
    (alike : Except.Corresponds (Option.Rel (Value.Alike names)) first second)
    (found : ∀ value, next (some value) = .ok value) :
    Except.Corresponds (Value.Alike names) (first >>= next) (second >>= next) := by
  refine alike.bind fun one another alike => ?_
  cases alike with
  | none => exact .refl .refl _
  | some alike =>
      rw [found, found]
      exact .ok alike

theorem corresponds_eval_binary {left right : Tree}
    (onLeft : ∀ kind, Except.Corresponds (Value.Alike names) (eval scope left kind)
      (eval other left kind))
    (onRight : ∀ kind, Except.Corresponds (Value.Alike names) (eval scope right kind)
      (eval other right kind)) (operation : Binary) (kind : Kind) :
    Except.Corresponds (Value.Alike names) (eval scope (.binary operation left right) kind)
      (eval other (.binary operation left right) kind) := by
  cases operation with
  | or =>
      refine .check _ (corresponds_expect (onLeft _) (·.expectBoolean_eq) fun truth => ?_)
      cases truth with
      | true => exact .ok (.refl _)
      | false =>
          exact corresponds_expect (onRight _) (·.expectBoolean_eq) fun truth => .ok (.refl _)
  | and =>
      refine .check _ (corresponds_expect (onLeft _) (·.expectBoolean_eq) fun truth => ?_)
      cases truth with
      | true =>
          exact corresponds_expect (onRight _) (·.expectBoolean_eq) fun truth => .ok (.refl _)
      | false => exact .ok (.refl _)
  | equal | notEqual =>
      refine .check _ ((onLeft _).bind fun a b alike => (onRight _).bind fun c d alikeToo => ?_)
      rw [agrees_eq alike alikeToo]
      exact .ok (.refl _)
  | less | greater | atMost | atLeast =>
      exact .check _ (corresponds_expect (onLeft _) (·.expectNumber_eq) fun a =>
        corresponds_expect (onRight _) (·.expectNumber_eq) fun b => .ok (.refl _))
  | bitOr | bitXor | bitAnd | shiftLeft | shiftRight | shiftRightUnsigned =>
      exact .check _ (corresponds_expect (onLeft _) (·.expectInteger_eq) fun a =>
        corresponds_expect (onRight _) (·.expectInteger_eq) fun b => .ok (.refl _))
  | add =>
      rw [eval, eval]
      split
      · refine (onLeft _).bind fun a b alike => (onRight _).bind fun c d alikeToo => ?_
        rw [addOrJoin_eq alike alikeToo]
        exact .ok (.refl _)
      · exact .check _ (corresponds_expect (onLeft _) (·.expectNumber_eq) fun a =>
          corresponds_expect (onRight _) (·.expectNumber_eq) fun b => .refl .refl _)
  | subtract | multiply | divide | power =>
      exact .check _ (corresponds_expect (onLeft _) (·.expectNumber_eq) fun a =>
        corresponds_expect (onRight _) (·.expectNumber_eq) fun b => .refl .refl _)
  | remainder =>
      exact .check _ (corresponds_expect (onLeft _) (·.expectNumber_eq) fun a =>
        corresponds_expect (onRight _) (·.expectInteger_eq) fun b => .refl .refl _)

/-- What a tree yields in scopes that are alike for its names is alike. -/
theorem corresponds_eval (alike : scope.Alike names other) {tree : Tree}
    (within : tree.names ⊆ names) (kind : Kind) :
    Except.Corresponds (Value.Alike names) (eval scope tree kind) (eval other tree kind) := by
  induction tree generalizing kind with
  | integer | float | boolean | string => exact .refl .refl _
  | identifier name =>
      have isName : name ∈ names := within (List.mem_singleton_self name)
      have found := (Value.Alike.coerceFound (alike name isName) kind)
      rw [← Scope.resolve?_eq_coerceFound, ← Scope.resolve?_eq_coerceFound] at found
      exact corresponds_found found fun _ => rfl
  | field target name induction =>
      obtain ⟨inTarget, isName⟩ := List.append_subset.mp within
      refine (induction inTarget _).bind fun a b alike => ?_
      exact corresponds_found (alike.field? (isName (List.mem_singleton_self name)) kind)
        fun _ => rfl
  | index target position onTarget onPosition =>
      obtain ⟨inTarget, inPosition⟩ := List.append_subset.mp within
      refine (onTarget inTarget _).bind fun a b alike =>
        corresponds_expect (onPosition inPosition _) (·.expectInteger_eq) fun place => ?_
      exact corresponds_found (alike.index? kind place) fun _ => rfl
  | unary operation operand induction =>
      have onOperand := induction within
      cases operation with
      | plus | negate =>
          exact .check _ (corresponds_expect (onOperand _) (·.expectNumber_eq) fun a =>
            .refl .refl _)
      | bitNot =>
          exact .check _ (corresponds_expect (onOperand _) (·.expectInteger_eq) fun a =>
            .refl .refl _)
      | not =>
          exact .check _ (corresponds_expect (onOperand _) (·.expectBoolean_eq) fun a =>
            .refl .refl _)
  | binary operation left right onLeft onRight =>
      obtain ⟨inLeft, inRight⟩ := List.append_subset.mp within
      exact corresponds_eval_binary (onLeft inLeft) (onRight inRight) operation kind
  | conditional condition whenTrue whenFalse onCondition onTrue onFalse =>
      obtain ⟨inBoth, inFalse⟩ := List.append_subset.mp within
      obtain ⟨inCondition, inTrue⟩ := List.append_subset.mp inBoth
      refine corresponds_expect (onCondition inCondition _) (·.expectBoolean_eq) fun holds => ?_
      cases holds with
      | true => exact onTrue inTrue kind
      | false => exact onFalse inFalse kind

/-- So is what the text of an expression yields. -/
theorem corresponds_evaluate (alike : scope.Alike names other) {text : String}
    (within : Expression.names text ⊆ names) (kind : Kind) :
    Except.Corresponds (Value.Alike names) (evaluate scope kind text)
      (evaluate other kind text) := by
  unfold Expression.names at within
  unfold evaluate
  cases parsed : parse text with
  | error error => exact .error _
  | ok tree =>
      rw [parsed] at within
      exact corresponds_eval alike within kind

end

end Expression
end StaticSite
