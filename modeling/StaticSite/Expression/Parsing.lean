import StaticSite.Expression.Tree
import StaticSite.Text.Taken

/-!
# Parsing expressions

This file turns tokens into trees.

| level | form                      | groups   |
|-------|---------------------------|----------|
| 1     | `c ? a : b`               | right    |
| 2–11  | binary operations         | left     |
| 12    | `a ** b`                  | right    |
| 13    | `+a` `-a` `~a` `!a`       |          |
| 14    | literals, `( )`, `.f`, `[i]` |       |

Every reader takes at least one token, and a reader that calls another on the same tokens calls a
tighter one; so parsing ends.  A fault lies at the first token that no expression could have
there, or at the end of the text.
-/

namespace StaticSite
namespace Expression

open Text

/-- A tree read from the front of some tokens. -/
abbrev Parsed (size : Nat) := Except SyntaxError (Taken Placed Tree size)

/-- The byte where the first of some tokens starts, or the end of the text. -/
def offsetOf (finish : Nat) : List Placed → Nat
  | [] => finish
  | placed :: _ => placed.offset

/-- A fault at the first of some tokens. -/
def faultAt (finish : Nat) (tokens : List Placed) (fault : SyntaxFault) : SyntaxError :=
  ⟨offsetOf finish tokens, fault⟩

mutual

/-- Read a conditional or anything tighter. -/
def parseConditional (finish : Nat) (tokens : List Placed) : Parsed tokens.length :=
  match parseBinary finish levels tokens with
  | .error error => .error error
  | .ok ⟨condition, rest, shorter⟩ =>
      match rest with
      | ⟨.question, _⟩ :: afterQuestion =>
          have _ : afterQuestion.length < tokens.length := by
            simp only [List.length_cons] at shorter; omega
          match parseConditional finish afterQuestion with
          | .error error => .error error
          | .ok ⟨whenTrue, afterTrue, shorterTrue⟩ =>
              match afterTrue with
              | ⟨.colon, _⟩ :: afterColon =>
                  have later : afterColon.length < tokens.length := by
                    simp only [List.length_cons] at shorterTrue; omega
                  match parseConditional finish afterColon with
                  | .error error => .error error
                  | .ok ⟨whenFalse, rest, shorterFalse⟩ =>
                      .ok ⟨.conditional condition whenTrue whenFalse, rest,
                        Nat.lt_trans shorterFalse later⟩
              | others => .error (faultAt finish others .missingColon)
      | rest => .ok ⟨condition, rest, shorter⟩
termination_by (tokens.length, levels.length + 6)

/-- Read binary operations of the given levels or anything tighter. -/
def parseBinary (finish : Nat) (tighter : List Level) (tokens : List Placed) :
    Parsed tokens.length :=
  match tighter with
  | [] => parsePower finish tokens
  | level :: tighter =>
      match parseBinary finish tighter tokens with
      | .error error => .error error
      | .ok ⟨left, rest, shorter⟩ =>
          match parseOperations finish level tighter left rest with
          | .error error => .error error
          | .ok taken => .ok (taken.weaken shorter)
termination_by (tokens.length, tighter.length + 5)

/-- Read the operations of one level that follow an operand; `tighter` are the levels of the
operands. -/
def parseOperations (finish : Nat) (level : Level) (tighter : List Level) (left : Tree)
    (tokens : List Placed) : Parsed (tokens.length + 1) :=
  match tokens with
  | [] => .ok ⟨left, [], Nat.lt_succ_self _⟩
  | placed :: rest =>
      match level.binary? placed.token with
      | none => .ok ⟨left, placed :: rest, Nat.lt_succ_self _⟩
      | some operation =>
          match parseBinary finish tighter rest with
          | .error error => .error error
          | .ok ⟨right, after, shorter⟩ =>
              match parseOperations finish level tighter (.binary operation left right) after with
              | .error error => .error error
              | .ok taken =>
                  .ok (taken.weaken (by simp only [List.length_cons]; omega))
termination_by (tokens.length, 0)

/-- Read a power or anything tighter. -/
def parsePower (finish : Nat) (tokens : List Placed) : Parsed tokens.length :=
  match parseUnary finish tokens with
  | .error error => .error error
  | .ok ⟨base, rest, shorter⟩ =>
      match rest with
      | ⟨.operator .starStar, _⟩ :: after =>
          have later : after.length < tokens.length := by
            simp only [List.length_cons] at shorter; omega
          match parsePower finish after with
          | .error error => .error error
          | .ok ⟨exponent, rest, shorterExponent⟩ =>
              .ok ⟨.binary .power base exponent, rest, Nat.lt_trans shorterExponent later⟩
      | rest => .ok ⟨base, rest, shorter⟩
termination_by (tokens.length, 4)

/-- Read an operand with operations in front of it. -/
def parseUnary (finish : Nat) (tokens : List Placed) : Parsed tokens.length :=
  match tokens with
  | ⟨.operator symbol, offset⟩ :: rest =>
      match unary? symbol with
      | some operation =>
          match parseUnary finish rest with
          | .error error => .error error
          | .ok taken => .ok ((taken.map (.unary operation)).weaken (Nat.le_succ _))
      | none => parsePostfix finish (⟨.operator symbol, offset⟩ :: rest)
  | tokens => parsePostfix finish tokens
termination_by (tokens.length, 3)

/-- Read an operand with fields and positions behind it. -/
def parsePostfix (finish : Nat) (tokens : List Placed) : Parsed tokens.length :=
  match parsePrimary finish tokens with
  | .error error => .error error
  | .ok ⟨target, rest, shorter⟩ =>
      match parseAccesses finish target rest with
      | .error error => .error error
      | .ok taken => .ok (taken.weaken shorter)
termination_by (tokens.length, 2)

/-- Read the fields and positions that follow an operand. -/
def parseAccesses (finish : Nat) (target : Tree) (tokens : List Placed) :
    Parsed (tokens.length + 1) :=
  match tokens with
  | ⟨.dot, _⟩ :: ⟨.identifier name, _⟩ :: rest =>
      match parseAccesses finish (.field target name) rest with
      | .error error => .error error
      | .ok taken => .ok (taken.weaken (by simp only [List.length_cons]; omega))
  | ⟨.dot, _⟩ :: others => .error (faultAt finish others .missingFieldName)
  | ⟨.leftBracket, _⟩ :: rest =>
      match parseConditional finish rest with
      | .error error => .error error
      | .ok ⟨position, afterPosition, shorter⟩ =>
          match afterPosition with
          | ⟨.rightBracket, _⟩ :: after =>
              have _ : after.length < rest.length := by
                simp only [List.length_cons] at shorter; omega
              match parseAccesses finish (.index target position) after with
              | .error error => .error error
              | .ok taken => .ok (taken.weaken (by simp only [List.length_cons]; omega))
          | others => .error (faultAt finish others .missingBracket)
  | tokens => .ok ⟨target, tokens, Nat.lt_succ_self _⟩
termination_by (tokens.length, 0)

def parsePrimary (finish : Nat) (tokens : List Placed) : Parsed tokens.length :=
  match tokens with
  | [] => .error (faultAt finish [] .missingExpression)
  | ⟨token, offset⟩ :: rest =>
      let leaf (tree : Tree) : Parsed (rest.length + 1) := .ok ⟨tree, rest, Nat.lt_succ_self _⟩
      match token with
      | .integer value => leaf (.integer value)
      | .float value => leaf (.float value)
      | .boolean value => leaf (.boolean value)
      | .string text => leaf (.string text)
      | .identifier name => leaf (.identifier name)
      | .leftParenthesis =>
          match parseConditional finish rest with
          | .error error => .error error
          | .ok ⟨inner, afterInner, shorter⟩ =>
              match afterInner with
              | ⟨.rightParenthesis, _⟩ :: after =>
                  .ok ⟨inner, after, by simp only [List.length_cons] at *; omega⟩
              | others => .error (faultAt finish others .missingParenthesis)
      | _ => .error ⟨offset, .missingExpression⟩
termination_by (tokens.length, 1)

end

def treeOfTokens (finish : Nat) (tokens : List Placed) : Except SyntaxError Tree :=
  match parseConditional finish tokens with
  | .error error => .error error
  | .ok ⟨tree, [], _⟩ => .ok tree
  | .ok ⟨_, rest, _⟩ => .error (faultAt finish rest .trailingInput)

def parse (text : String) : Except SyntaxError Tree :=
  match tokenize text.toList with
  | .error error => .error error
  | .ok tokens => treeOfTokens text.utf8ByteSize tokens

end Expression
end StaticSite
