import StaticSite.Proofs.Expression.Reading
import StaticSite.Proofs.Expression.Spelling

/-!
# Printed expressions are parsed back

Parsing the text of a tree gives the tree, if the tree has no literals that cannot be written and
only names where names stand.
-/

namespace StaticSite
namespace Expression

/-- Parentheses can be written. -/
@[simp]
theorem Tree.all_guard (tree : Tree) (place : Nat) (tokens : List Token) :
    (tree.guard place tokens).all Token.isPrintable = tokens.all Token.isPrintable := by
  unfold Tree.guard
  split
  · simp [Token.isPrintable]
  · rfl

/-- A tree can be written just if all its tokens can. -/
theorem Tree.all_tokens (tree : Tree) : tree.tokens.all Token.isPrintable = tree.isPrintable := by
  induction tree with
  | integer | float | boolean | string | identifier =>
      simp [tokens, isPrintable, Token.isPrintable]
  | field target name induction => simp [tokens, isPrintable, Token.isPrintable, induction]
  | index target position onTarget onPosition =>
      simp [tokens, isPrintable, Token.isPrintable, onTarget, onPosition]
  | unary operation operand induction => simp [tokens, isPrintable, Token.isPrintable, induction]
  | binary operation left right onLeft onRight =>
      simp [tokens, isPrintable, Token.isPrintable, onLeft, onRight]
  | conditional condition whenTrue whenFalse onCondition onTrue onFalse =>
      simp [tokens, isPrintable, Token.isPrintable, onCondition, onTrue, onFalse, Bool.and_assoc]

/-- Parsing the text of a tree gives the tree. -/
theorem parse_print (tree : Tree) (printable : tree.isPrintable = true) :
    parse tree.print = .ok tree := by
  have written : ∀ token ∈ tree.tokens, token.isPrintable = true :=
    List.all_eq_true.mp (tree.all_tokens.trans printable)
  obtain ⟨placed, read, same⟩ := tokenizes_spaced written 0
  have cut : tokenize tree.print.toList = .ok placed := by
    rw [Tree.print, String.toList_ofList]
    exact read
  rw [parse, cut]
  exact treeOfTokens_tokens _ same

/-- A sum that is the base of a power stands in parentheses, a power that is its exponent does
not. -/
theorem parse_print_power :
    parse "( a + 1 ) ** - b ** 2" = .ok (.binary .power
      (.binary .add (.identifier "a") (.integer 1))
      (.binary .power (.unary .negate (.identifier "b")) (.integer 2))) :=
  parse_print (.binary .power (.binary .add (.identifier "a") (.integer 1))
    (.binary .power (.unary .negate (.identifier "b")) (.integer 2))) (by decide)

end Expression
end StaticSite
