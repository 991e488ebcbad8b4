import StaticSite.Proofs.Expression.Spelling

/-!
# How tokens begin

The first character of a token tells how it is read: as a string, a numeral, a word or a point, or
else as the longest of some spellings that begin with the character.
-/

namespace StaticSite
namespace Expression

variable {chars rest after : List Char} {first c : Char} {token : Token} {bytes start : Nat}

/-! ## Results of reading -/

/-- Whether a reading gives a token of some bytes and what follows it. -/
def IsLexeme {size : Nat} (reading : Except SyntaxError (Lexeme size)) (token : Token) (bytes : Nat)
    (rest : List Char) : Prop :=
  ∃ shorter, reading = .ok ⟨token, bytes, rest, shorter⟩

@[simp]
theorem isLexeme_ok_iff {size : Nat} {lexeme : Lexeme size} :
    IsLexeme (.ok lexeme) token bytes rest ↔
      lexeme.token = token ∧ lexeme.bytes = bytes ∧ lexeme.rest = rest := by
  obtain ⟨token, bytes, rest, shorter⟩ := lexeme
  constructor
  · rintro ⟨_, same⟩
    simpa using same
  · rintro ⟨rfl, rfl, rfl⟩
    exact ⟨shorter, rfl⟩

@[simp]
theorem not_isLexeme_error {size : Nat} (error : SyntaxError) :
    ¬IsLexeme (.error error : Except SyntaxError (Lexeme size)) token bytes rest := by
  rintro ⟨_, read⟩
  contradiction

/-! ## Signs -/

theorem length_drop_length_lt (tail rest : List Char) :
    (rest.drop tail.length).length < rest.length + 1 := by
  simp only [List.length_drop]
  omega

/-- The token of one character and the tail behind it. -/
def Lexeme.ofTail (token : Token) (tail rest : List Char) : Lexeme (rest.length + 1) :=
  ⟨token, 1 + tail.length, rest.drop tail.length, length_drop_length_lt tail rest⟩

/-- Read the longest of some spellings that go on behind a character, or else the character alone,
which is a token or at fault. -/
def readSign (alone : Except SyntaxFault Token) (longer : List (List Char × Operator))
    (start : Nat) (rest : List Char) : Except SyntaxError (Lexeme (rest.length + 1)) :=
  match longer.find? fun spelling => spelling.1.isPrefixOf rest with
  | some (tail, symbol) => .ok (.ofTail (.operator symbol) tail rest)
  | none =>
      match alone with
      | .ok token => .ok (.ofTail token [] rest)
      | .error fault => .error ⟨start, fault⟩

section

variable {longer : List (List Char × Operator)} {alone : Except SyntaxFault Token}
  {tail : List Char} {symbol : Operator}

theorem isPrefix_of_find?
    (found : longer.find? (fun spelling => spelling.1.isPrefixOf rest) = some (tail, symbol)) :
    tail <+: rest := by
  have isFound : tail.isPrefixOf rest = true := by simpa using List.find?_some found
  exact List.isPrefixOf_iff_prefix.mp isFound

theorem isLexeme_readSign_iff :
    IsLexeme (readSign alone longer start rest) token bytes after ↔
      (∃ tail symbol,
        longer.find? (fun spelling => spelling.1.isPrefixOf rest) = some (tail, symbol) ∧
          .operator symbol = token ∧ 1 + tail.length = bytes ∧ rest.drop tail.length = after) ∨
      (longer.find? (fun spelling => spelling.1.isPrefixOf rest) = none ∧
        alone = .ok token ∧ 1 = bytes ∧ rest = after) := by
  unfold readSign
  split
  · next found => simp [found, Lexeme.ofTail]
  · next notFound =>
    cases alone with
    | error fault => simp [notFound]
    | ok other => simp [notFound, Lexeme.ofTail]

end

/-- Whether a character can continue a token that stands before it. -/
def continues (c : Char) : Bool :=
  isIdentifierPart c || ['.', '+', '-', '*', '|', '&', '=', '<', '>'].contains c

/-- Whether a spelling has as many bytes as characters and no blanks around it, and goes on with
characters that can continue a token. -/
def isPlain (first : Char) (tail : List Char) : Bool :=
  decide (1 + tail.length = Text.byteLength (first :: tail)) &&
    decide (Text.IsTrimmed (first :: tail)) && tail.all continues

theorem isPlain_iff {tail : List Char} :
    isPlain first tail = true ↔
      1 + tail.length = Text.byteLength (first :: tail) ∧ Text.IsTrimmed (first :: tail) ∧
        ∀ c ∈ tail, continues c = true := by
  simp only [isPlain, Bool.and_eq_true, decide_eq_true_eq, List.all_eq_true, and_assoc]

/-- How a token begins. -/
inductive Begins (first : Char) : Prop
  | string (isQuote : first = '"' ∨ first = '\'')
  | numeral (isDigit : first.isDigit = true)
  | word (isStart : isIdentifierStart first = true)
  | point (isPoint : first = '.')
  | sign (alone : Except SyntaxFault Token) (longer : List (List Char × Operator))
      (plainAlone : ∀ token, alone = .ok token → isPlain first [] = true)
      (plain : longer.all (fun spelling => isPlain first spelling.1) = true)
      (fails : ∀ fault, alone = .error fault →
        fault = .assignment ∨ fault = .unexpectedCharacter first)
      (lexeme_eq : ∀ start rest, lexeme start first rest = readSign alone longer start rest)

theorem lexeme_point (start : Nat) (rest : List Char) :
    lexeme start '.' rest =
      if (rest.head?.map Char.isDigit).getD false then .error ⟨start, .bareFraction⟩
      else .ok ⟨.dot, 1, rest, Nat.lt_succ_self _⟩ :=
  rfl

theorem begins_equals : Begins '=' := by
  refine .sign (.error .assignment) [(['='], .eqEq)] (by simp) rfl (by simp) fun start rest => ?_
  simp only [lexeme]
  split
  · rfl
  · next noEquals =>
    have noPrefix : ['='].isPrefixOf rest = false := by
      apply Bool.eq_false_iff.mpr
      intro isPrefix
      obtain ⟨after, rfl⟩ := List.isPrefixOf_iff_prefix.mp isPrefix
      exact noEquals after rfl
    simp only [readSign, List.find?_cons, noPrefix, List.find?_nil]

theorem begins (first : Char) : Begins first := by
  by_cases isDigit : first.isDigit = true
  · exact .numeral isDigit
  by_cases isStart : isIdentifierStart first = true
  · exact .word isStart
  by_cases member : first ∈ symbols
  · simp only [symbols, List.mem_cons, List.not_mem_nil, or_false] at member
    rcases member with rfl | rfl | rfl | rfl | rfl | rfl | rfl | rfl | rfl | rfl | rfl | rfl | rfl |
      rfl | rfl | rfl | rfl | rfl | rfl | rfl | rfl | rfl
    all_goals first
      | exact .string (.inl rfl)
      | exact .string (.inr rfl)
      | exact .point rfl
      | exact begins_equals
      | exact .sign (.ok _) [] (fun _ _ => rfl) rfl (by simp) fun _ _ => rfl
      | exact .sign (.ok _) _ (fun _ _ => rfl) rfl (by simp) fun _ _ => rfl
  · refine .sign (.error (.unexpectedCharacter first)) [] (by simp) rfl (by simp) ?_
    intro start rest
    rw [lexeme_of_not_mem_symbols member, if_neg isDigit, if_neg isStart]
    rfl

end Expression
end StaticSite
