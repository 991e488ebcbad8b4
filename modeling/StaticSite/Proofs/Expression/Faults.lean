import StaticSite.Proofs.Expression.Reading

/-!
# Where reading fails

A reader that fails does so at some of the tokens that are left.  This file tells, for each reader,
that it fails where the reader that it calls fails, or where what it looks for is missing.
-/

namespace StaticSite
namespace Expression

/-- Whether a reading fails at the first of some tokens, or at the end of the text. -/
def FailsAt (finish : Nat) {size : Nat} (reading : Parsed size) (rest : List Placed) : Prop :=
  ∃ fault, reading = .error (faultAt finish rest fault)

variable {finish : Nat} {tree left right : Tree} {tokens rest after last : List Placed}

/-! ## Conditionals -/

theorem failsAt_parseConditional_of_condition
    (failed : FailsAt finish (parseBinary finish levels tokens) rest) :
    FailsAt finish (parseConditional finish tokens) rest := by
  obtain ⟨fault, failed⟩ := failed
  refine ⟨fault, ?_⟩
  rw [parseConditional, failed]

theorem failsAt_parseConditional_of_whenTrue {offset : Nat}
    (first : Gives (parseBinary finish levels tokens) left (⟨.question, offset⟩ :: after))
    (failed : FailsAt finish (parseConditional finish after) rest) :
    FailsAt finish (parseConditional finish tokens) rest := by
  obtain ⟨_, first⟩ := first
  obtain ⟨fault, failed⟩ := failed
  refine ⟨fault, ?_⟩
  rw [parseConditional, first]
  simp only [failed]

theorem failsAt_parseConditional_of_colon {offset : Nat}
    (first : Gives (parseBinary finish levels tokens) left (⟨.question, offset⟩ :: after))
    (second : Gives (parseConditional finish after) right rest)
    (missing : ∀ placed ∈ rest.head?, placed.token ≠ .colon) :
    FailsAt finish (parseConditional finish tokens) rest := by
  obtain ⟨_, first⟩ := first
  obtain ⟨_, second⟩ := second
  refine ⟨.missingColon, ?_⟩
  rw [parseConditional, first]
  simp only [second]
  split
  · simp at missing
  · rfl

theorem failsAt_parseConditional_of_whenFalse {offset middle : Nat} {afterColon : List Placed}
    (first : Gives (parseBinary finish levels tokens) left (⟨.question, offset⟩ :: after))
    (second : Gives (parseConditional finish after) right (⟨.colon, middle⟩ :: afterColon))
    (failed : FailsAt finish (parseConditional finish afterColon) rest) :
    FailsAt finish (parseConditional finish tokens) rest := by
  obtain ⟨_, first⟩ := first
  obtain ⟨_, second⟩ := second
  obtain ⟨fault, failed⟩ := failed
  refine ⟨fault, ?_⟩
  rw [parseConditional, first]
  simp only [second, failed]

/-! ## Binary operations -/

theorem failsAt_parseBinary_of_operand {level : Level} {tighter : List Level}
    (failed : FailsAt finish (parseBinary finish tighter tokens) rest) :
    FailsAt finish (parseBinary finish (level :: tighter) tokens) rest := by
  obtain ⟨fault, failed⟩ := failed
  refine ⟨fault, ?_⟩
  rw [parseBinary, failed]

theorem failsAt_parseBinary_of_operations {level : Level} {tighter : List Level}
    (operand : Gives (parseBinary finish tighter tokens) left after)
    (failed : FailsAt finish (parseOperations finish level tighter left after) rest) :
    FailsAt finish (parseBinary finish (level :: tighter) tokens) rest := by
  obtain ⟨_, operand⟩ := operand
  obtain ⟨fault, failed⟩ := failed
  refine ⟨fault, ?_⟩
  rw [parseBinary, operand]
  simp only [failed]

section

variable {level : Level} {tighter : List Level} {placed : Placed} {operation : Binary}

theorem failsAt_parseOperations_of_operand
    (found : level.binary? placed.token = some operation)
    (failed : FailsAt finish (parseBinary finish tighter tokens) rest) :
    FailsAt finish (parseOperations finish level tighter left (placed :: tokens)) rest := by
  obtain ⟨fault, failed⟩ := failed
  refine ⟨fault, ?_⟩
  rw [parseOperations]
  simp only [found, failed]

theorem failsAt_parseOperations_of_operations
    (found : level.binary? placed.token = some operation)
    (operand : Gives (parseBinary finish tighter tokens) right after)
    (failed : FailsAt finish
      (parseOperations finish level tighter (.binary operation left right) after) rest) :
    FailsAt finish (parseOperations finish level tighter left (placed :: tokens)) rest := by
  obtain ⟨_, operand⟩ := operand
  obtain ⟨fault, failed⟩ := failed
  refine ⟨fault, ?_⟩
  rw [parseOperations]
  simp only [found, operand, failed]

end

theorem failsAt_parsePower_of_base (failed : FailsAt finish (parseUnary finish tokens) rest) :
    FailsAt finish (parsePower finish tokens) rest := by
  obtain ⟨fault, failed⟩ := failed
  refine ⟨fault, ?_⟩
  rw [parsePower, failed]

theorem failsAt_parsePower_of_exponent {offset : Nat}
    (base : Gives (parseUnary finish tokens) left (⟨.operator .starStar, offset⟩ :: after))
    (failed : FailsAt finish (parsePower finish after) rest) :
    FailsAt finish (parsePower finish tokens) rest := by
  obtain ⟨_, base⟩ := base
  obtain ⟨fault, failed⟩ := failed
  refine ⟨fault, ?_⟩
  rw [parsePower, base]
  simp only [failed]

/-! ## Operands -/

theorem failsAt_parseUnary_of_operand (operation : Unary) (offset : Nat)
    (failed : FailsAt finish (parseUnary finish tokens) rest) :
    FailsAt finish (parseUnary finish (⟨.operator operation.symbol, offset⟩ :: tokens)) rest := by
  obtain ⟨fault, failed⟩ := failed
  have known : unary? operation.symbol = some operation := by cases operation <;> rfl
  refine ⟨fault, ?_⟩
  rw [parseUnary]
  simp only [known, failed]

/-- Whether a token is no operation that could stand in front of an operand. -/
def Token.IsNoUnary (token : Token) : Prop :=
  ∀ operation : Unary, token ≠ .operator operation.symbol

theorem parseUnary_eq_parsePostfix (noUnary : ∀ placed ∈ tokens.head?, placed.token.IsNoUnary) :
    parseUnary finish tokens = parsePostfix finish tokens := by
  rw [parseUnary.eq_def]
  split
  · next symbol offset rest =>
    split
    · next operation known =>
      have same : symbol = operation.symbol := by
        cases symbol <;> simp [unary?] at known <;> subst known <;> rfl
      exact absurd (congrArg Token.operator same) (noUnary _ rfl operation)
    · rfl
  · rfl

theorem failsAt_parsePostfix_of_primary (failed : FailsAt finish (parsePrimary finish tokens) rest) :
    FailsAt finish (parsePostfix finish tokens) rest := by
  obtain ⟨fault, failed⟩ := failed
  refine ⟨fault, ?_⟩
  rw [parsePostfix, failed]

theorem failsAt_parsePostfix_of_accesses (target : Gives (parsePrimary finish tokens) left after)
    (failed : FailsAt finish (parseAccesses finish left after) rest) :
    FailsAt finish (parsePostfix finish tokens) rest := by
  obtain ⟨_, target⟩ := target
  obtain ⟨fault, failed⟩ := failed
  refine ⟨fault, ?_⟩
  rw [parsePostfix, target]
  simp only [failed]

theorem failsAt_parseAccesses_of_name {offset : Nat}
    (missing : ∀ placed ∈ rest.head?, ∀ name, placed.token ≠ .identifier name) :
    FailsAt finish (parseAccesses finish left (⟨.dot, offset⟩ :: rest)) rest := by
  refine ⟨.missingFieldName, ?_⟩
  rw [parseAccesses]
  rintro name other more rfl
  exact missing _ rfl name rfl

theorem failsAt_parseAccesses_of_field {name : String} {offset other : Nat}
    (failed : FailsAt finish (parseAccesses finish (.field left name) tokens) rest) :
    FailsAt finish (parseAccesses finish left (⟨.dot, offset⟩ :: ⟨.identifier name, other⟩ :: tokens))
      rest := by
  obtain ⟨fault, failed⟩ := failed
  refine ⟨fault, ?_⟩
  rw [parseAccesses]
  simp only [failed]

theorem failsAt_parseAccesses_of_position {offset : Nat}
    (failed : FailsAt finish (parseConditional finish tokens) rest) :
    FailsAt finish (parseAccesses finish left (⟨.leftBracket, offset⟩ :: tokens)) rest := by
  obtain ⟨fault, failed⟩ := failed
  refine ⟨fault, ?_⟩
  rw [parseAccesses]
  simp only [failed]

theorem failsAt_parseAccesses_of_bracket {offset : Nat}
    (position : Gives (parseConditional finish tokens) right rest)
    (missing : ∀ placed ∈ rest.head?, placed.token ≠ .rightBracket) :
    FailsAt finish (parseAccesses finish left (⟨.leftBracket, offset⟩ :: tokens)) rest := by
  obtain ⟨_, position⟩ := position
  refine ⟨.missingBracket, ?_⟩
  rw [parseAccesses]
  simp only [position]
  split
  · simp at missing
  · rfl

theorem failsAt_parseAccesses_of_index {offset other : Nat}
    (position : Gives (parseConditional finish tokens) right (⟨.rightBracket, other⟩ :: after))
    (failed : FailsAt finish (parseAccesses finish (.index left right) after) rest) :
    FailsAt finish (parseAccesses finish left (⟨.leftBracket, offset⟩ :: tokens)) rest := by
  obtain ⟨_, position⟩ := position
  obtain ⟨fault, failed⟩ := failed
  refine ⟨fault, ?_⟩
  rw [parseAccesses]
  simp only [position, failed]

theorem failsAt_parsePrimary_of_inner {offset : Nat}
    (failed : FailsAt finish (parseConditional finish tokens) rest) :
    FailsAt finish (parsePrimary finish (⟨.leftParenthesis, offset⟩ :: tokens)) rest := by
  obtain ⟨fault, failed⟩ := failed
  refine ⟨fault, ?_⟩
  rw [parsePrimary]
  simp only [failed]

theorem failsAt_parsePrimary_of_parenthesis {offset : Nat}
    (inner : Gives (parseConditional finish tokens) tree rest)
    (missing : ∀ placed ∈ rest.head?, placed.token ≠ .rightParenthesis) :
    FailsAt finish (parsePrimary finish (⟨.leftParenthesis, offset⟩ :: tokens)) rest := by
  obtain ⟨_, inner⟩ := inner
  refine ⟨.missingParenthesis, ?_⟩
  rw [parsePrimary]
  simp only [inner]
  split
  · simp at missing
  · rfl

end Expression
end StaticSite
