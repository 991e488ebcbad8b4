import StaticSite.Proofs.Expression.Reading

/-!
# The grammar of expressions

This file gives the grammar that the table of levels describes, with the tree of each derivation.
Whatever the grammar derives is read as its tree.
-/

namespace StaticSite
namespace Expression

/-- The level of a binary operation, from the loosest to the power. -/
def Binary.precedence : Binary → Nat
  | .or => 2
  | .and => 3
  | .bitOr => 4
  | .bitXor => 5
  | .bitAnd => 6
  | .equal | .notEqual => 7
  | .less | .greater | .atMost | .atLeast => 8
  | .shiftLeft | .shiftRight | .shiftRightUnsigned => 9
  | .add | .subtract => 10
  | .multiply | .divide | .remainder => 11
  | .power => 12

/-- The table of levels that parsing uses says the same. -/
theorem Binary.level_symbol (operation : Binary) :
    operation.symbol.level = operation.precedence := by
  cases operation <;> decide

/-- Whether the grammar derives tokens as the form of a tree at a level, or at a tighter one.  Levels
run from conditionals at 1 to operands at 14. -/
inductive Derives : Nat → Tree → List Token → Prop
  | integer (value : Int64) : Derives 14 (.integer value) [.integer value]
  | float (value : Float) : Derives 14 (.float value) [.float value]
  | boolean (value : Bool) : Derives 14 (.boolean value) [.boolean value]
  | string (text : String) : Derives 14 (.string text) [.string text]
  | identifier (name : String) : Derives 14 (.identifier name) [.identifier name]
  | parentheses {tree : Tree} {tokens : List Token} (inner : Derives 1 tree tokens) :
      Derives 14 tree (.leftParenthesis :: tokens ++ [.rightParenthesis])
  | field {target : Tree} {tokens : List Token} (before : Derives 14 target tokens)
      (name : String) : Derives 14 (.field target name) (tokens ++ [.dot, .identifier name])
  | index {target position : Tree} {tokens inner : List Token} (before : Derives 14 target tokens)
      (inside : Derives 1 position inner) :
      Derives 14 (.index target position) (tokens ++ .leftBracket :: inner ++ [.rightBracket])
  | unary {operand : Tree} {tokens : List Token} (operation : Unary)
      (behind : Derives 13 operand tokens) :
      Derives 13 (.unary operation operand) (.operator operation.symbol :: tokens)
  | power {base exponent : Tree} {first second : List Token} (before : Derives 13 base first)
      (behind : Derives 12 exponent second) :
      Derives 12 (.binary .power base exponent) (first ++ .operator .starStar :: second)
  | binary {operation : Binary} {left right : Tree} {first second : List Token}
      (noPower : operation ≠ .power) (before : Derives operation.precedence left first)
      (behind : Derives (operation.precedence + 1) right second) :
      Derives operation.precedence (.binary operation left right)
        (first ++ .operator operation.symbol :: second)
  | conditional {condition whenTrue whenFalse : Tree} {first second third : List Token}
      (before : Derives 2 condition first) (inside : Derives 1 whenTrue second)
      (behind : Derives 1 whenFalse third) :
      Derives 1 (.conditional condition whenTrue whenFalse)
        (first ++ .question :: second ++ .colon :: third)
  | looser {place : Nat} {tree : Tree} {tokens : List Token} (low : 1 ≤ place) (high : place ≤ 13)
      (tighter : Derives (place + 1) tree tokens) : Derives place tree tokens

/-- Whether tokens are an expression. -/
def IsSentence (tokens : List Token) : Prop :=
  ∃ tree, Derives 1 tree tokens

/-- Whether tokens can be continued to a form of a level. -/
def IsViableAt (place : Nat) (tokens : List Token) : Prop :=
  ∃ more tree, Derives place tree (tokens ++ more)

/-- Whether tokens can be continued to an expression. -/
def IsViable (tokens : List Token) : Prop :=
  ∃ more, IsSentence (tokens ++ more)

variable {finish place : Nat} {tree left right : Tree} {tokens first second : List Token}

theorem Derives.loosen {tighter : Nat} (derives : Derives tighter tree tokens) (low : 1 ≤ place)
    (le : place ≤ tighter) (high : tighter ≤ 14) : Derives place tree tokens := by
  induction le with
  | refl => exact derives
  | step le induction =>
      exact induction (derives.looser (Nat.le_trans low le) (by omega)) (by omega)

/-- What the grammar derives is read as the tree of its derivation. -/
theorem Derives.reads (derives : Derives place tree tokens) : Reads finish place tree tokens := by
  induction derives with
  | integer | float | boolean | string | identifier =>
      refine reads_leaf fun offset rest => ?_
      rw [parsePrimary]
      exact ⟨_, rfl⟩
  | parentheses _ induction => exact induction.parentheses
  | field _ name induction => exact induction.field name
  | index _ _ onTarget onPosition => exact onTarget.index onPosition
  | unary operation _ induction => exact induction.unary operation
  | power _ _ onBase onExponent => exact onBase.power onExponent
  | binary noPower _ _ onLeft onRight =>
      rw [← Binary.level_symbol] at onLeft onRight ⊢
      exact .binary noPower onLeft onRight
  | conditional _ _ _ onCondition onTrue onFalse => exact onCondition.conditional onTrue onFalse
  | looser low high _ induction => exact induction.looser low high

/-- So it is read wherever it stands, if nothing follows that would continue it. -/
theorem Derives.gives {used rest : List Placed} (derives : Derives place tree tokens)
    (high : place ≤ 14) (same : used.map Placed.token = tokens) (closes : Closes place rest) :
    Gives (parseAt finish place (used ++ rest)) tree rest :=
  derives.reads.gives high same closes

/-! ## Tokens that can be continued -/

/-- Something stands at every level. -/
theorem isViableAt_nil (low : 1 ≤ place) (high : place ≤ 14) : IsViableAt place [] :=
  ⟨_, _, (Derives.boolean true).loosen low high (Nat.le_refl 14)⟩

theorem IsViableAt.looser (viable : IsViableAt (place + 1) tokens) (low : 1 ≤ place)
    (high : place ≤ 13) : IsViableAt place tokens := by
  obtain ⟨more, tree, derives⟩ := viable
  exact ⟨more, tree, derives.looser low high⟩

theorem IsViableAt.parentheses (viable : IsViableAt 1 tokens) :
    IsViableAt 14 (.leftParenthesis :: tokens) := by
  obtain ⟨more, tree, derives⟩ := viable
  exact ⟨more ++ [.rightParenthesis], tree, by simpa using derives.parentheses⟩

theorem Derives.isViableAt_dot (derives : Derives 14 tree tokens) :
    IsViableAt 14 (tokens ++ [.dot]) :=
  ⟨[.identifier ""], _, by simpa using derives.field ""⟩

theorem IsViableAt.index (viable : IsViableAt 1 second) (before : Derives 14 left first) :
    IsViableAt 14 (first ++ .leftBracket :: second) := by
  obtain ⟨more, tree, derives⟩ := viable
  exact ⟨more ++ [.rightBracket], _, by simpa using before.index derives⟩

theorem IsViableAt.unary (viable : IsViableAt 13 tokens) (operation : Unary) :
    IsViableAt 13 (.operator operation.symbol :: tokens) := by
  obtain ⟨more, tree, derives⟩ := viable
  exact ⟨more, _, derives.unary operation⟩

theorem IsViableAt.power (viable : IsViableAt 12 second) (before : Derives 13 left first) :
    IsViableAt 12 (first ++ .operator .starStar :: second) := by
  obtain ⟨more, tree, derives⟩ := viable
  exact ⟨more, _, by simpa using before.power derives⟩

theorem IsViableAt.binary {operation : Binary} (noPower : operation ≠ .power)
    (viable : IsViableAt (operation.precedence + 1) second)
    (before : Derives operation.precedence left first) :
    IsViableAt operation.precedence (first ++ .operator operation.symbol :: second) := by
  obtain ⟨more, tree, derives⟩ := viable
  exact ⟨more, _, by simpa using Derives.binary noPower before derives⟩

/-- The part of a conditional up to its second branch. -/
theorem IsViableAt.whenTrue (viable : IsViableAt 1 second) (before : Derives 2 left first) :
    IsViableAt 1 (first ++ .question :: second) := by
  obtain ⟨more, tree, derives⟩ := viable
  have last := (Derives.boolean true).loosen (Nat.le_refl 1) (by decide) (Nat.le_refl 14)
  exact ⟨more ++ [.colon, .boolean true], _, by simpa using before.conditional derives last⟩

theorem IsViableAt.whenFalse {third : List Token} (viable : IsViableAt 1 third)
    (before : Derives 2 left first) (inside : Derives 1 right second) :
    IsViableAt 1 (first ++ .question :: second ++ .colon :: third) := by
  obtain ⟨more, tree, derives⟩ := viable
  exact ⟨more, _, by simpa using before.conditional inside derives⟩

end Expression
end StaticSite
