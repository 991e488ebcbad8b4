import StaticSite.Proofs.Expression.Joining

/-!
# Cutting a text into tokens

The tokens of a text are found one after another: a blank is passed over, and at any other
character a token is read.  This file follows how far the cutting has come, and shows that it does
not depend on where the text stands.
-/

namespace StaticSite

/-- The same error in a text that stands some bytes further on. -/
def SyntaxError.shift (bytes : Nat) (error : SyntaxError) : SyntaxError :=
  ⟨error.offset + bytes, error.fault⟩

namespace Expression

/-- The same token in a text that stands some bytes further on. -/
def Placed.shift (bytes : Nat) (placed : Placed) : Placed :=
  ⟨placed.token, placed.offset + bytes⟩

variable {source chars rest after tail : List Char} {c : Char} {placed : List Placed}
  {token : Token} {offset bytes : Nat} {error : SyntaxError}

/-! ## One step -/

theorem tokensFrom_nil (offset : Nat) : tokensFrom offset [] = .ok [] := by
  rw [tokensFrom.eq_def]

theorem tokensFrom_blank (isBlank : Text.isBlank c = true) :
    tokensFrom offset (c :: rest) = tokensFrom (offset + c.utf8Size) rest := by
  rw [tokensFrom.eq_def]
  simp only [isBlank, ↓reduceIte]

theorem tokensFrom_token (notBlank : Text.isBlank c = false)
    (read : IsLexeme (lexeme offset c rest) token bytes after) :
    tokensFrom offset (c :: rest) =
      (tokensFrom (offset + bytes) after).map (⟨token, offset⟩ :: ·) := by
  obtain ⟨shorter, read⟩ := read
  rw [tokensFrom.eq_def]
  simp only [notBlank, Bool.false_eq_true, ↓reduceIte, read]
  cases tokensFrom (offset + bytes) after <;> rfl

theorem tokensFrom_error (notBlank : Text.isBlank c = false)
    (failed : lexeme offset c rest = .error error) :
    tokensFrom offset (c :: rest) = .error error := by
  rw [tokensFrom.eq_def]
  simp only [notBlank, Bool.false_eq_true, ↓reduceIte, failed]

/-! ## All steps -/

/-- How far a text has been cut: the tokens found, the byte that has been come to, and the text that
is left there. -/
inductive Cuts (source : List Char) : List Placed → Nat → List Char → Prop
  | start : Cuts source [] 0 source
  | blank {placed : List Placed} {offset : Nat} {c : Char} {rest : List Char}
      (cuts : Cuts source placed offset (c :: rest)) (isBlank : Text.isBlank c = true) :
      Cuts source placed (offset + c.utf8Size) rest
  | token {placed : List Placed} {offset bytes : Nat} {c : Char} {rest after : List Char}
      {token : Token} (cuts : Cuts source placed offset (c :: rest))
      (notBlank : Text.isBlank c = false)
      (read : IsLexeme (lexeme offset c rest) token bytes after) :
      Cuts source (placed ++ [⟨token, offset⟩]) (offset + bytes) after

/-- The tokens of a text are those found so far and those of the text that is left. -/
theorem Cuts.tokenize_eq (cuts : Cuts source placed offset rest) :
    tokenize source = (tokensFrom offset rest).map (placed ++ ·) := by
  induction cuts with
  | start =>
      rw [tokenize]
      cases tokensFrom 0 source <;> rfl
  | blank _ isBlank induction => rw [induction, tokensFrom_blank isBlank]
  | token _ notBlank read induction =>
      rw [induction, tokensFrom_token notBlank read]
      cases tokensFrom _ _ <;> simp [Except.map]

theorem Cuts.tokenize_token (cuts : Cuts source placed offset (c :: rest))
    (notBlank : Text.isBlank c = false)
    (read : IsLexeme (lexeme offset c rest) token bytes after) :
    tokenize source =
      (tokensFrom (offset + bytes) after).map (placed ++ ⟨token, offset⟩ :: ·) := by
  rw [(cuts.token notBlank read).tokenize_eq]
  simp only [List.append_assoc, List.singleton_append]

theorem Cuts.tokenize_error (cuts : Cuts source placed offset (c :: rest))
    (notBlank : Text.isBlank c = false) (failed : lexeme offset c rest = .error error) :
    tokenize source = .error error := by
  rw [cuts.tokenize_eq, tokensFrom_error notBlank failed]
  rfl

/-- What is left is cut to its end, if it has tokens. -/
theorem Cuts.finish {more : List Placed} (cuts : Cuts source placed offset rest)
    (read : tokensFrom offset rest = .ok more) : ∃ last, Cuts source (placed ++ more) last [] := by
  fun_induction tokensFrom offset rest generalizing placed more
  case case1 =>
    obtain rfl : [] = more := Except.ok.inj read
    exact ⟨_, by simpa using cuts⟩
  case case2 isBlank induction => exact induction (cuts.blank isBlank) read
  case case5 c rest notBlank token bytes after shorter found others left induction =>
    obtain rfl : _ :: others = more := Except.ok.inj read
    simpa using induction (cuts.token (by simpa using notBlank) ⟨shorter, found⟩) left
  all_goals contradiction

theorem exists_cuts (read : tokenize source = .ok placed) : ∃ last, Cuts source placed last [] :=
  Cuts.start.finish read

/-- Where a text has no tokens, some token could not be read. -/
theorem Cuts.fails (cuts : Cuts source placed offset rest)
    (failed : tokensFrom offset rest = .error error) :
    ∃ placed offset c after, Cuts source placed offset (c :: after) ∧ Text.isBlank c = false ∧
      lexeme offset c after = .error error := by
  fun_induction tokensFrom offset rest generalizing placed
  case case2 isBlank induction => exact induction (cuts.blank isBlank) failed
  case case3 offset c rest notBlank error found =>
    obtain rfl := Except.error.inj failed
    exact ⟨_, _, _, _, cuts, by simpa using notBlank, found⟩
  case case4 c rest notBlank token bytes after shorter found error left induction =>
    obtain rfl := Except.error.inj failed
    exact induction (cuts.token (by simpa using notBlank) ⟨shorter, found⟩) left
  all_goals contradiction

/-- A text is cut in the same way where more text follows that does not continue its tokens. -/
theorem Cuts.append (cuts : Cuts source placed offset rest) (parts : Parts tail) :
    Cuts (source ++ tail) placed offset (rest ++ tail) := by
  induction cuts with
  | start => exact .start
  | blank _ isBlank induction => exact induction.blank isBlank
  | token _ notBlank read induction =>
      exact induction.token notBlank (parts.lexeme_append read _)

/-! ## Texts further on -/

theorem stringBody_add {quote : Char} (noBackslash : quote ≠ '\\') (start offset bytes : Nat)
    (chars : List Char) :
    stringBody quote (start + bytes) (offset + bytes) chars =
      (stringBody quote start offset chars).mapError (SyntaxError.shift bytes) := by
  fun_induction stringBody quote start offset chars
  case case1 =>
    rw [stringBody]
    rfl
  case case2 c rest isQuote =>
    rw [stringBody, if_pos isQuote]
    rfl
  case case3 offset c rest noQuote isBackslash fault failed =>
    obtain rfl : c = '\\' := by simpa using isBackslash
    rw [stringBody_failed noBackslash failed]
    rfl
  case case4 offset c rest noQuote isBackslash meant size left found _ error failed induction =>
    obtain rfl : c = '\\' := by simpa using isBackslash
    have moved : offset + bytes + 1 + size = offset + 1 + size + bytes := by omega
    rw [stringBody_escape noBackslash found, moved, induction, failed]
    rfl
  case case5 offset c rest noQuote isBackslash meant size left found _ more count last property
      others induction =>
    obtain rfl : c = '\\' := by simpa using isBackslash
    have moved : offset + bytes + 1 + size = offset + 1 + size + bytes := by omega
    rw [stringBody_escape noBackslash found, moved, induction, others]
    rfl
  case case6 offset c rest noQuote notBackslash error failed induction =>
    rw [stringBody_plain (by simpa using noQuote) (by simpa using notBackslash),
      Nat.add_right_comm, induction, failed]
    rfl
  case case7 offset c rest noQuote notBackslash more count last property others induction =>
    rw [stringBody_plain (by simpa using noQuote) (by simpa using notBackslash),
      Nat.add_right_comm, induction, others]
    rfl

theorem numeral_add (start bytes : Nat) (first : Char) (rest : List Char) :
    numeral (start + bytes) first rest =
      (numeral start first rest).mapError (SyntaxError.shift bytes) := by
  simp only [numeral]
  split
  · split <;> rfl
  · split <;> rfl

theorem readSign_add (alone : Except SyntaxFault Token) (longer : List (List Char × Operator))
    (start bytes : Nat) (rest : List Char) :
    readSign alone longer (start + bytes) rest =
      (readSign alone longer start rest).mapError (SyntaxError.shift bytes) := by
  unfold readSign
  split
  · rfl
  · cases alone <;> rfl

theorem lexeme_add (start bytes : Nat) (first : Char) (rest : List Char) :
    lexeme (start + bytes) first rest =
      (lexeme start first rest).mapError (SyntaxError.shift bytes) := by
  cases begins first with
  | string isQuote =>
      have moved := stringBody_add (ne_backslash_of_isQuote isQuote) start (start + 1) bytes rest
      rw [Nat.add_right_comm] at moved
      rw [lexeme_of_isQuote isQuote, lexeme_of_isQuote isQuote, moved]
      cases stringBody first start (start + 1) rest <;> rfl
  | numeral isDigit =>
      rw [lexeme_of_isDigit isDigit, lexeme_of_isDigit isDigit]
      exact numeral_add ..
  | word isStart =>
      rw [lexeme_of_isIdentifierStart isStart, lexeme_of_isIdentifierStart isStart]
      rfl
  | point isPoint =>
      subst isPoint
      rw [lexeme_point, lexeme_point]
      split <;> rfl
  | sign alone longer _ _ _ lexeme_eq =>
      rw [lexeme_eq, lexeme_eq]
      exact readSign_add ..

/-- The tokens of a text move with it. -/
theorem tokensFrom_add (offset bytes : Nat) (chars : List Char) :
    tokensFrom (offset + bytes) chars =
      ((tokensFrom offset chars).mapError (SyntaxError.shift bytes)).map
        (List.map (Placed.shift bytes)) := by
  fun_induction tokensFrom offset chars
  case case1 =>
    rw [tokensFrom_nil]
    rfl
  case case2 c rest isBlank induction =>
    rw [tokensFrom_blank isBlank, Nat.add_right_comm, induction]
  case case3 offset c rest notBlank error failed =>
    have moved := lexeme_add offset bytes c rest
    rw [failed] at moved
    rw [tokensFrom_error (by simpa using notBlank) moved]
    rfl
  case case4 offset c rest notBlank token size after shorter found result left induction
      | case5 offset c rest notBlank token size after shorter found result left induction =>
    have moved := lexeme_add offset bytes c rest
    rw [found] at moved
    rw [tokensFrom_token (by simpa using notBlank) ⟨shorter, moved⟩, Nat.add_right_comm, induction,
      left]
    rfl

end Expression
end StaticSite
