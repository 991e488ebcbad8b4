import StaticSite.Expression.Parsing

/-!
# Printing expressions

This file writes a tree as tokens and tokens as text.  An operand stands in parentheses only where
its form is looser than its place, by the levels that parsing knows.
-/

namespace StaticSite
namespace Expression

/-- The level of the operation that a symbol stands for between two operands, zero for others. -/
def Operator.level (symbol : Operator) : Nat :=
  match levels.findIdx? fun level => (level.lookup symbol).isSome with
  | some index => index + 2
  | none => if symbol = .starStar then 12 else 0

/-- The symbol of an operation between its operands. -/
def Binary.symbol : Binary → Operator
  | .or => .orOr
  | .and => .andAnd
  | .bitOr => .pipe
  | .bitXor => .caret
  | .bitAnd => .amp
  | .equal => .eqEq
  | .notEqual => .notEq
  | .less => .lt
  | .greater => .gt
  | .atMost => .le
  | .atLeast => .ge
  | .shiftLeft => .shl
  | .shiftRight => .shr
  | .shiftRightUnsigned => .ushr
  | .add => .plus
  | .subtract => .minus
  | .multiply => .star
  | .divide => .slash
  | .remainder => .percent
  | .power => .starStar

/-- The symbol of an operation in front of its operand. -/
def Unary.symbol : Unary → Operator
  | .plus => .plus
  | .negate => .minus
  | .bitNot => .tilde
  | .not => .bang

/-- The level of the place on the left of an operation.  The base of a power is an operand with at
most operations in front of it; other operations group to the left. -/
def Binary.leftPlace (operation : Binary) : Nat :=
  if operation = .power then 13 else operation.symbol.level

/-- The level of the place on the right of an operation.  Powers group to the right. -/
def Binary.rightPlace (operation : Binary) : Nat :=
  if operation = .power then 12 else operation.symbol.level + 1

/-- The level of the form of a tree. -/
def Tree.level : Tree → Nat
  | .conditional .. => 1
  | .binary operation .. => operation.symbol.level
  | .unary .. => 13
  | .integer _ | .float _ | .boolean _ | .string _ | .identifier _ | .field .. | .index .. => 14

/-- The tokens of a tree at a place, in parentheses if the tree is looser than the place. -/
def Tree.guard (tree : Tree) (place : Nat) (tokens : List Token) : List Token :=
  if tree.level < place then .leftParenthesis :: tokens ++ [.rightParenthesis] else tokens

/-- The tokens of a tree. -/
def Tree.tokens : Tree → List Token
  | .integer value => [.integer value]
  | .float value => [.float value]
  | .boolean value => [.boolean value]
  | .string text => [.string text]
  | .identifier name => [.identifier name]
  | .field target name => target.guard 14 target.tokens ++ [.dot, .identifier name]
  | .index target position =>
      target.guard 14 target.tokens ++ .leftBracket :: position.tokens ++ [.rightBracket]
  | .unary operation operand =>
      .operator operation.symbol :: operand.guard 13 operand.tokens
  | .binary operation left right =>
      left.guard operation.leftPlace left.tokens ++
        .operator operation.symbol :: right.guard operation.rightPlace right.tokens
  | .conditional condition whenTrue whenFalse =>
      condition.guard 2 condition.tokens ++
        .question :: whenTrue.tokens ++ .colon :: whenFalse.tokens

/-- How an operator is written. -/
def Operator.spelling : Operator → List Char
  | .orOr => ['|', '|']
  | .andAnd => ['&', '&']
  | .pipe => ['|']
  | .caret => ['^']
  | .amp => ['&']
  | .eqEq => ['=', '=']
  | .notEq => ['!', '=']
  | .lt => ['<']
  | .gt => ['>']
  | .le => ['<', '=']
  | .ge => ['>', '=']
  | .shl => ['<', '<']
  | .shr => ['>', '>']
  | .ushr => ['>', '>', '>']
  | .plus => ['+']
  | .minus => ['-']
  | .star => ['*']
  | .slash => ['/']
  | .percent => ['%']
  | .starStar => ['*', '*']
  | .tilde => ['~']
  | .bang => ['!']

/-- How a character is written between double quotes. -/
def quotedChar (c : Char) : List Char :=
  match c with
  | '"' => ['\\', '"']
  | '\\' => ['\\', '\\']
  | '\n' => ['\\', 'n']
  | '\t' => ['\\', 't']
  | '\r' => ['\\', 'r']
  | '\x00' => ['\\', '0']
  | c => [c]

/-- How a token is written.  Floating-point numbers are not written at all. -/
def Token.spelling : Token → List Char
  | .integer value => Nat.toDigits 10 value.toInt.toNat
  | .float _ => []
  | .string text => '"' :: text.toList.flatMap quotedChar ++ ['"']
  | .identifier name => name.toList
  | .boolean true => "true".toList
  | .boolean false => "false".toList
  | .operator symbol => symbol.spelling
  | .leftParenthesis => ['(']
  | .rightParenthesis => [')']
  | .leftBracket => ['[']
  | .rightBracket => [']']
  | .dot => ['.']
  | .question => ['?']
  | .colon => [':']

/-- The text of tokens with single spaces between. -/
def spaced (tokens : List Token) : List Char :=
  List.intercalate [' '] (tokens.map Token.spelling)

/-- The text of a tree. -/
def Tree.print (tree : Tree) : String :=
  String.ofList (spaced tree.tokens)

/-- Whether a text is read as the name of something. -/
def isName (text : String) : Bool :=
  isIdentifier text.toList && text != "true" && text != "false"

/-- Whether a token can be written so that it is read again. -/
def Token.isPrintable : Token → Bool
  | .integer value => decide (0 ≤ value)
  | .float _ => false
  | .identifier name => isName name
  | _ => true

/-- Whether a tree has neither negative literals nor floating-point literals, and only names where
names stand. -/
def Tree.isPrintable : Tree → Bool
  | .integer value => decide (0 ≤ value)
  | .float _ => false
  | .boolean _ | .string _ => true
  | .identifier name => isName name
  | .field target name => target.isPrintable && isName name
  | .index target position => target.isPrintable && position.isPrintable
  | .unary _ operand => operand.isPrintable
  | .binary _ left right => left.isPrintable && right.isPrintable
  | .conditional condition whenTrue whenFalse =>
      condition.isPrintable && whenTrue.isPrintable && whenFalse.isPrintable

end Expression
end StaticSite
