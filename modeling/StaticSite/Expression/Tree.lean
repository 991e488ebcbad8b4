import StaticSite.Expression.Token

/-!
# Expression trees

This file gives the trees of expressions and the table of binary operations by precedence.
-/

namespace StaticSite
namespace Expression

inductive Unary where
  | plus
  | negate
  | bitNot
  | not
  deriving DecidableEq, Repr

inductive Binary where
  | or
  | and
  | bitOr
  | bitXor
  | bitAnd
  | equal
  | notEqual
  | less
  | greater
  | atMost
  | atLeast
  | shiftLeft
  | shiftRight
  | shiftRightUnsigned
  | add
  | subtract
  | multiply
  | divide
  | remainder
  | power
  deriving DecidableEq, Repr

inductive Tree where
  | integer (value : Int64)
  | float (value : Float)
  | boolean (value : Bool)
  | string (text : String)
  | identifier (name : String)
  | field (target : Tree) (name : String)
  | index (target position : Tree)
  | unary (operation : Unary) (operand : Tree)
  | binary (operation : Binary) (left right : Tree)
  | conditional (condition whenTrue whenFalse : Tree)
  deriving Inhabited

/-- The operations of one level of precedence, with their symbols. -/
abbrev Level := List (Operator × Binary)

/-- The levels of binary operations that group to the left, the loosest first.  The power binds
tighter than all of them and groups to the right. -/
def levels : List Level :=
  [[(.orOr, .or)],
   [(.andAnd, .and)],
   [(.pipe, .bitOr)],
   [(.caret, .bitXor)],
   [(.amp, .bitAnd)],
   [(.eqEq, .equal), (.notEq, .notEqual)],
   [(.lt, .less), (.gt, .greater), (.le, .atMost), (.ge, .atLeast)],
   [(.shl, .shiftLeft), (.shr, .shiftRight), (.ushr, .shiftRightUnsigned)],
   [(.plus, .add), (.minus, .subtract)],
   [(.star, .multiply), (.slash, .divide), (.percent, .remainder)]]

/-- The operation that a symbol stands for in front of an operand. -/
def unary? : Operator → Option Unary
  | .plus => some .plus
  | .minus => some .negate
  | .tilde => some .bitNot
  | .bang => some .not
  | _ => none

/-- The operation of a level that a token stands for. -/
def Level.binary? (level : Level) : Token → Option Binary
  | .operator symbol => level.lookup symbol
  | _ => none

end Expression
end StaticSite
