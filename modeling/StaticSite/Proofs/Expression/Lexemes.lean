import StaticSite.Proofs.Expression.Numerals

/-!
# Lexemes

A text that has tokens is runs of blanks that alternate with lexemes, each of which is its token on
its own.  A blank parts what stands before it from what stands behind it.
-/

namespace StaticSite
namespace Text

theorem utf8ByteSize_ofList (chars : List Char) :
    (String.ofList chars).utf8ByteSize = byteLength chars := by
  rw [String.utf8ByteSize_ofList]
  induction chars with
  | nil => rfl
  | cons c chars induction => rw [String.utf8Len_cons, induction, byteLength_cons, Nat.add_comm]

end Text

namespace Expression

open Decimal

variable {source chars rest after tail text run spelling : List Char} {c first : Char}
  {placed : List Placed} {token : Token} {offset bytes : Nat}

/-! ## One lexeme -/

/-- Whether a character and what follows it are one token with nothing behind it and without blanks
around it. -/
structure Alone (first : Char) (more : List Char) (token : Token) : Prop where
  trimmed : Text.IsTrimmed (first :: more)
  read : ∀ start,
    IsLexeme (lexeme start first more) token (Text.byteLength (first :: more)) []

/-- Whether some text in front of another is read as a token, and is that token alone. -/
def TakesAlone (first : Char) (rest : List Char) (token : Token) (bytes : Nat)
    (after : List Char) : Prop :=
  ∃ more, rest = more ++ after ∧ bytes = Text.byteLength (first :: more) ∧ Alone first more token

theorem IsLexeme.unique {size otherBytes : Nat} {reading : Except SyntaxError (Lexeme size)}
    {other : Token} {behind : List Char} (read : IsLexeme reading token bytes after)
    (again : IsLexeme reading other otherBytes behind) :
    token = other ∧ bytes = otherBytes ∧ after = behind := by
  obtain ⟨_, rfl⟩ := read
  exact isLexeme_ok_iff.mp again

theorem takesAlone_numeral (isDigit : first.isDigit = true)
    (read : IsLexeme (lexeme offset first rest) token bytes after) :
    TakesAlone first rest token bytes after := by
  obtain ⟨number, text, behind, rfl, writes, split⟩ := exists_numeral isDigit rest
  have isToken := numeral_eq_of_split writes split offset
  have alone := numeral_eq_of_split writes ((splitNumeral_of_writes writes []).2 rfl)
  rw [lexeme_of_isDigit isDigit] at read
  cases found : numeralToken? number with
  | none =>
      rw [found, Option.elim_none] at isToken
      exact absurd (isToken ▸ read) (not_isLexeme_error _)
  | some value =>
      rw [found] at isToken alone
      obtain ⟨rfl, rfl, rfl⟩ := read.unique isToken
      refine ⟨text, rfl, rfl, Text.isTrimmed_of_forall fun c member => ?_, fun start => ?_⟩
      · have range := toNat_of_mem_numeral (writes.isDigit_or_mem_marks c member)
        exact Text.isBlank_eq_false (by omega) (by omega)
      · have here := alone start
        rw [List.append_nil, ← lexeme_of_isDigit isDigit] at here
        exact here

theorem isBlank_eq_false_of_isIdentifierPart (isPart : isIdentifierPart c = true) :
    Text.isBlank c = false := by
  by_cases isStart : isIdentifierStart c = true
  · have range := toNat_of_isIdentifierStart isStart
    exact Text.isBlank_eq_false (by omega) (by omega)
  · have isDigit : c.isDigit = true := by
      simp only [isIdentifierPart, isIdentifierStart, Char.isAlphanum, Bool.or_eq_true]
        at isPart isStart
      tauto
    have range := toNat_of_isDigit isDigit
    exact Text.isBlank_eq_false (by omega) (by omega)

theorem isIdentifierPart_of_isIdentifierStart (isStart : isIdentifierStart c = true) :
    isIdentifierPart c = true := by
  simp only [isIdentifierPart, isIdentifierStart, Char.isAlphanum, Bool.or_eq_true] at isStart ⊢
  tauto

/-- The token that a word stands for. -/
def wordToken (name : String) : Token :=
  if name == "true" then .boolean true
  else if name == "false" then .boolean false
  else .identifier name

theorem isLexeme_word_iff {behind : List Char}
    (split : Text.splitWhile isIdentifierPart rest = (text, after)) :
    IsLexeme (.ok (word first rest)) token bytes behind ↔
      wordToken (String.ofList (first :: text)) = token ∧
        Text.byteLength (first :: text) = bytes ∧ after = behind := by
  simp only [isLexeme_ok_iff, word, split, wordToken, Text.utf8ByteSize_ofList]

theorem takesAlone_word (isStart : isIdentifierStart first = true)
    (read : IsLexeme (lexeme offset first rest) token bytes after) :
    TakesAlone first rest token bytes after := by
  rw [lexeme_of_isIdentifierStart isStart] at read
  obtain ⟨rfl, rfl, rfl⟩ := (isLexeme_word_iff rfl).mp read
  have split := Text.splitWhile_append isIdentifierPart rest
  have parts : ∀ c ∈ rest.takeWhile isIdentifierPart, isIdentifierPart c = true :=
    fun c member => List.mem_takeWhile_imp member
  refine ⟨_, split.symm, rfl, Text.isTrimmed_of_forall ?_, fun start => ?_⟩
  · intro c member
    rcases List.mem_cons.mp member with rfl | inside
    · exact isBlank_eq_false_of_isIdentifierPart (isIdentifierPart_of_isIdentifierStart isStart)
    · exact isBlank_eq_false_of_isIdentifierPart (parts c inside)
  · have again := @Text.splitWhile_append_of_stop _ _ [] parts (by simp)
    rw [List.append_nil] at again
    rw [lexeme_of_isIdentifierStart isStart]
    exact (isLexeme_word_iff again).mpr ⟨rfl, rfl, rfl⟩

theorem utf8Size_of_isQuote (isQuote : first = '"' ∨ first = '\'') : first.utf8Size = 1 := by
  rcases isQuote with rfl | rfl <;> exact Char.utf8Size_eq_one_iff.mpr (by decide)

theorem takesAlone_string (isQuote : first = '"' ∨ first = '\'')
    (read : IsLexeme (lexeme offset first rest) token bytes after) :
    TakesAlone first rest token bytes after := by
  have notBlank := isBlank_eq_false_of_isQuote isQuote
  rw [lexeme_of_isQuote isQuote] at read
  split at read
  · exact absurd read (not_isLexeme_error _)
  · next chars size behind shorter found =>
    obtain ⟨rfl, rfl, rfl⟩ := isLexeme_ok_iff.mp read
    obtain ⟨body, rfl, denotes, rfl⟩ := exists_of_stringBody_eq_ok found
    have quotes := denotes.quotes (ne_backslash_of_isQuote isQuote) []
    have size : 1 + Text.byteLength (body ++ [first]) =
        Text.byteLength (first :: (body ++ [first])) := by
      rw [Text.byteLength_cons, utf8Size_of_isQuote isQuote]
    refine ⟨body ++ [first], by simp, size, Text.isTrimmed_of_ends ?_ ?_, fun start => ?_⟩
    · rintro c ⟨⟩
      exact notBlank
    · intro c member
      rw [← List.cons_append, List.getLast?_concat] at member
      exact Option.some.inj member ▸ notBlank
    · obtain ⟨shorter, again⟩ := quotes.lexeme isQuote start
      exact ⟨shorter, size ▸ again⟩

/-- The longest of some spellings is the longest where it stands alone. -/
theorem find?_isPrefixOf_self {longer : List (List Char × Operator)} {symbol : Operator}
    (found : longer.find? (fun spelling => spelling.1.isPrefixOf rest) = some (tail, symbol)) :
    longer.find? (fun spelling => spelling.1.isPrefixOf tail) = some (tail, symbol) := by
  obtain ⟨-, front, back, rfl, others⟩ := List.find?_eq_some_iff_append.mp found
  refine List.find?_eq_some_iff_append.mpr ⟨by simp, front, back, rfl, fun spelling member => ?_⟩
  have noPrefix := others spelling member
  simp only [Bool.not_eq_true', ← Bool.not_eq_true, List.isPrefixOf_iff_prefix] at noPrefix ⊢
  exact fun shorter => noPrefix (shorter.trans (isPrefix_of_find? found))

/-- Where no spelling stands, none stands with nothing behind it. -/
theorem find?_isPrefixOf_nil {longer : List (List Char × Operator)}
    (notFound : longer.find? (fun spelling => spelling.1.isPrefixOf rest) = none) :
    longer.find? (fun spelling => spelling.1.isPrefixOf []) = none := by
  simp only [List.find?_eq_none, List.isPrefixOf_iff_prefix] at notFound ⊢
  exact fun spelling member shorter =>
    notFound spelling member (shorter.trans List.nil_prefix)

theorem takesAlone_sign {alone : Except SyntaxFault Token}
    {longer : List (List Char × Operator)}
    (plainAlone : ∀ token, alone = .ok token → isPlain first [] = true)
    (plain : longer.all (fun spelling => isPlain first spelling.1) = true)
    (lexeme_eq : ∀ start rest, lexeme start first rest = readSign alone longer start rest)
    (read : IsLexeme (lexeme offset first rest) token bytes after) :
    TakesAlone first rest token bytes after := by
  rw [lexeme_eq, isLexeme_readSign_iff] at read
  rcases read with ⟨tail, symbol, found, rfl, rfl, rfl⟩ | ⟨notFound, isAlone, rfl, rfl⟩
  · have member := List.mem_of_find?_eq_some found
    obtain ⟨size, trimmed, -⟩ := isPlain_iff.mp (List.all_eq_true.mp plain _ member)
    have whole := List.prefix_iff_eq_append.mp (isPrefix_of_find? found)
    refine ⟨tail, whole.symm, size, trimmed, fun start => ?_⟩
    rw [lexeme_eq, isLexeme_readSign_iff]
    exact .inl ⟨tail, symbol, find?_isPrefixOf_self found, rfl, size, List.drop_length⟩
  · obtain ⟨size, trimmed, -⟩ := isPlain_iff.mp (plainAlone token isAlone)
    refine ⟨[], rfl, size, trimmed, fun start => ?_⟩
    rw [lexeme_eq, isLexeme_readSign_iff]
    exact .inr ⟨find?_isPrefixOf_nil notFound, isAlone, size, rfl⟩

/-- Every token takes a text that is this token alone. -/
theorem takesAlone_of_lexeme (read : IsLexeme (lexeme offset first rest) token bytes after) :
    TakesAlone first rest token bytes after := by
  cases begins first with
  | string isQuote => exact takesAlone_string isQuote read
  | numeral isDigit => exact takesAlone_numeral isDigit read
  | word isStart => exact takesAlone_word isStart read
  | point isPoint =>
      subst isPoint
      rw [lexeme_point] at read
      split at read
      · exact absurd read (not_isLexeme_error _)
      · obtain ⟨rfl, rfl, rfl⟩ := isLexeme_ok_iff.mp read
        exact ⟨[], rfl, rfl, by decide, fun _ => ⟨_, rfl⟩⟩
  | sign alone longer plainAlone plain _ lexeme_eq =>
      exact takesAlone_sign plainAlone plain lexeme_eq read

/-! ## All lexemes -/

/-- Whether a text is one token and has no blanks around it. -/
structure SpellsAlone (spelling : List Char) (token : Token) : Prop where
  trimmed : Text.IsTrimmed spelling
  tokenized : tokenize spelling = .ok [⟨token, 0⟩]

/-- Whether a text is runs of blanks and lexemes in turn, and each lexeme one of some tokens, which
is placed at the byte where the lexeme begins. -/
inductive Alternates : List Char → List Placed → Prop
  | nil : Alternates [] []
  | snoc {text run spelling : List Char} {placed : List Placed} {token : Token}
      (front : Alternates text placed) (blank : Text.IsBlank run)
      (spells : SpellsAlone spelling token) :
      Alternates (text ++ run ++ spelling)
        (placed ++ [⟨token, Text.byteLength (text ++ run)⟩])

theorem Alone.spellsAlone {more : List Char} (alone : Alone first more token)
    (notBlank : Text.isBlank first = false) : SpellsAlone (first :: more) token := by
  refine ⟨alone.trimmed, ?_⟩
  rw [tokenize, tokensFrom_token notBlank (alone.read 0), tokensFrom_nil]
  rfl

/-- What has been cut off alternates, with blanks behind it, and ends at the byte that has been come
to. -/
theorem Cuts.alternates (cuts : Cuts source placed offset rest) :
    ∃ text run, source = text ++ run ++ rest ∧ Text.IsBlank run ∧ Alternates text placed ∧
      offset = Text.byteLength (text ++ run) := by
  induction cuts with
  | start => exact ⟨[], [], rfl, Text.isBlank_nil, .nil, rfl⟩
  | @blank _ _ c rest _ isBlank induction =>
      obtain ⟨text, run, rfl, blank, alternates, rfl⟩ := induction
      refine ⟨text, run ++ [c], by simp, ?_, alternates, by simp [Nat.add_assoc]⟩
      exact List.forall_mem_append.mpr ⟨blank, List.forall_mem_singleton.mpr isBlank⟩
  | @token _ _ _ c _ _ _ _ notBlank read induction =>
      obtain ⟨text, run, rfl, blank, alternates, rfl⟩ := induction
      obtain ⟨more, rfl, rfl, alone⟩ := takesAlone_of_lexeme read
      refine ⟨text ++ run ++ c :: more, [], by simp, Text.isBlank_nil, ?_, by simp [Nat.add_assoc]⟩
      exact alternates.snoc blank (alone.spellsAlone notBlank)

theorem SpellsAlone.byteLength_pos (spells : SpellsAlone spelling token) :
    0 < Text.byteLength spelling := by
  cases spelling with
  | nil =>
      have nothing := spells.tokenized
      rw [tokenize, tokensFrom_nil] at nothing
      exact absurd (Except.ok.inj nothing).symm (List.cons_ne_nil _ _)
  | cons c more =>
      have := c.utf8Size_pos
      rw [Text.byteLength_cons]
      omega

theorem Alternates.offset_lt (alternates : Alternates text placed) :
    ∀ one ∈ placed, one.offset < Text.byteLength text := by
  induction alternates with
  | nil => simp
  | snoc _ _ spells induction =>
      have := spells.byteLength_pos
      intro one member
      simp only [Text.byteLength_append]
      rcases List.mem_append.mp member with before | last
      · have := induction one before
        omega
      · obtain rfl := List.mem_singleton.mp last
        simp only [Text.byteLength_append]
        omega

/-- Each token begins behind those before it. -/
theorem Alternates.pairwise (alternates : Alternates text placed) :
    placed.Pairwise (·.offset < ·.offset) := by
  induction alternates with
  | nil => exact .nil
  | snoc front _ _ induction =>
      refine List.pairwise_append.mpr ⟨induction, List.pairwise_singleton .., ?_⟩
      intro one before last member
      obtain rfl := List.mem_singleton.mp member
      have := front.offset_lt one before
      simp only [Text.byteLength_append]
      omega

/-! ## Texts behind a blank -/

/-- A blank continues no token. -/
theorem parts_blank (isBlank : Text.isBlank c = true) (rest : List Char) : Parts (c :: rest) := by
  rintro _ ⟨⟩
  apply Bool.eq_false_iff.mpr
  intro continued
  simp only [continues, Bool.or_eq_true, List.contains_iff_mem] at continued
  have notBlank : Text.isBlank c = false := by
    rcases continued with isPart | isSymbol
    · exact isBlank_eq_false_of_isIdentifierPart isPart
    · have plain : ∀ symbol ∈ ['.', '+', '-', '*', '|', '&', '=', '<', '>'],
          Text.isBlank symbol = false := by simp [Text.isBlank]
      exact plain c isSymbol
  rw [notBlank] at isBlank
  contradiction

/-- The tokens of a text behind a blank are those it has alone, moved. -/
theorem tokenize_append_blank (read : tokenize source = .ok placed)
    (isBlank : Text.isBlank c = true) (rest : List Char) :
    tokenize (source ++ c :: rest) =
      ((tokenize rest).mapError (SyntaxError.shift (Text.byteLength (source ++ [c])))).map
        (placed ++ ·.map (Placed.shift (Text.byteLength (source ++ [c])))) := by
  obtain ⟨last, cuts⟩ := exists_cuts read
  obtain ⟨text, run, whole, -, -, rfl⟩ := cuts.alternates
  rw [List.append_nil] at whole
  have passed := (cuts.append (parts_blank isBlank rest)).blank isBlank
  have moved := tokensFrom_add 0 (Text.byteLength (source ++ [c])) rest
  have bytes : Text.byteLength (text ++ run) + c.utf8Size =
      0 + Text.byteLength (source ++ [c]) := by
    simp [whole, Nat.add_assoc]
  rw [passed.tokenize_eq, bytes, moved, tokenize]
  cases tokensFrom 0 rest <;> rfl

/-- A text that has tokens is blanks and lexemes in turn, which begin one behind the other, and what
follows behind a blank has its own tokens, or its own error. -/
theorem tokenize_compositional (read : tokenize source = .ok placed) :
    (∀ blank rest, Text.isBlank blank = true →
      tokenize (source ++ blank :: rest) =
        ((tokenize rest).mapError (SyntaxError.shift (Text.byteLength (source ++ [blank])))).map
          (placed ++ ·.map (Placed.shift (Text.byteLength (source ++ [blank]))))) ∧
      placed.Pairwise (·.offset < ·.offset) ∧
      ∃ text run, source = text ++ run ∧ Text.IsBlank run ∧ Alternates text placed := by
  obtain ⟨last, cuts⟩ := exists_cuts read
  obtain ⟨text, run, whole, blank, alternates, -⟩ := cuts.alternates
  rw [List.append_nil] at whole
  exact ⟨fun _ rest isBlank => tokenize_append_blank read isBlank rest, alternates.pairwise,
    text, run, whole, blank, alternates⟩

/-- A letter of two bytes in a string, and an error behind a blank. -/
theorem tokenize_compositional_letter :
    tokenize ['"', 'é', '"'] = .ok [⟨.string "é", 0⟩] ∧
      tokenize (['"', 'é', '"'] ++ ' ' :: ['=']) = .error ⟨5, .assignment⟩ := by
  have letter : Denotes acceptedSigns '"' ['é'] ['é'] :=
    .cons (.plain (by decide) (by decide)) .nil
  have read : tokenize ['"', 'é', '"'] = .ok [⟨.string "é", 0⟩] :=
    (@tokenize_literal_iff _ ['é'] _ (.inl rfl) _).mpr ⟨rfl, letter⟩
  have failed : tokenize ['='] = .error ⟨0, .assignment⟩ := tokensFrom_error (by decide) rfl
  refine ⟨read, ?_⟩
  rw [(tokenize_compositional read).1 ' ' ['='] (by decide), failed]
  rfl

end Expression
end StaticSite
