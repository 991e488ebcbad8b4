import StaticSite.Proofs.Expression.Origins

/-!
# What evaluating an expression fails with

An expression that has no value fails with an error of its own: a name without a value, a value of
the wrong kind, a text that is no expression, or an operation without a result.  No error of an
asset arises from an expression.
-/

namespace StaticSite

/-- Whether an error tells of an expression, and not of an asset. -/
def RenderError.IsEvaluation : RenderError → Prop
  | unresolvedReference _ | typeMismatch .. | expressionSyntax _ | arithmetic _ => True
  | _ => False

namespace Expression

/-- Whether a result can fail only as expressions do. -/
abbrev OnlyEvaluates {α : Type} (result : Except RenderError α) : Prop :=
  FailsOnly RenderError.IsEvaluation result

theorem onlyEvaluates_of_mismatches {α : Type} {result : Except RenderError α}
    (mismatches : OnlyMismatches result) : OnlyEvaluates result := by
  refine mismatches.mono fun error => ?_
  rintro ⟨expected, actual, rfl, -⟩
  trivial

/-- An expression without a value fails as expressions do. -/
theorem onlyEvaluates_eval (scope : Scope) (tree : Tree) (kind : Kind) :
    OnlyEvaluates (eval scope tree kind) := by
  intro error failed
  obtain ⟨part, -, -, arises⟩ := exists_arises (tree, kind) failed
  cases arises <;> trivial

theorem onlyEvaluates_evaluate (scope : Scope) (kind : Kind) (text : String) :
    OnlyEvaluates (evaluate scope kind text) := by
  unfold evaluate
  split
  · exact .error trivial
  · exact onlyEvaluates_eval scope _ kind

end Expression

namespace Template

open Expression (OnlyEvaluates)

theorem onlyEvaluates_conditionHolds (standing : Standing) (scope : Scope)
    (condition : Option String) : OnlyEvaluates (conditionHolds standing scope condition) := by
  unfold conditionHolds
  cases condition with
  | none => exact .ok true
  | some text =>
      cases standing with
      | alone => exact (Expression.onlyEvaluates_evaluate scope .boolean text).bind fun _ => .ok _
      | laterBranch => exact .ok _

theorem onlyEvaluates_itemAt (list : Value) (position : Nat) :
    OnlyEvaluates (itemAt list position) := by
  unfold itemAt
  refine (Expression.onlyEvaluates_of_mismatches
    (Expression.onlyMismatches_index? .any _ list)).bind fun found => ?_
  cases found with
  | none => exact .error trivial
  | some item => exact .ok item

theorem onlyEvaluates_fieldBindings (key value : Option String) (map : Value) (field : String) :
    OnlyEvaluates (fieldBindings key value map field) := by
  unfold fieldBindings
  cases value with
  | none => exact .ok _
  | some name =>
      refine (Expression.onlyEvaluates_of_mismatches
        (Expression.onlyMismatches_field? .any field map)).bind fun found => ?_
      cases found with
      | none => exact .error trivial
      | some found => exact .ok _

end Template
end StaticSite
