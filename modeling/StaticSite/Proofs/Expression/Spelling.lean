import Mathlib
import StaticSite.Proofs.Expression.Printing
import StaticSite.Proofs.Expression.Quoting

/-!
# Reading spelled tokens

The spelling of a token, with nothing or a space behind it, is read as that token.
-/

namespace StaticSite
namespace Expression

/-- Whether nothing or a space comes next. -/
def Ends (rest : List Char) : Prop :=
  ∀ c ∈ rest.head?, c = ' '

/-- Whether some characters are read as a token wherever they end. -/
def Spells (spelling : List Char) (token : Token) : Prop :=
  ∃ first more, spelling = first :: more ∧ Text.isBlank first = false ∧
    ∀ start rest, Ends rest →
      ∃ bytes shorter, lexeme start first (more ++ rest) = .ok ⟨token, bytes, rest, shorter⟩

variable {rest : List Char}

theorem Ends.stop {test : Char → Bool} (ends : Ends rest) (blank : test ' ' = false) :
    ∀ c ∈ rest.head?, test c = false := by
  intro c member
  exact ends c member ▸ blank

theorem Ends.cases (ends : Ends rest) : rest = [] ∨ ∃ more, rest = ' ' :: more := by
  cases rest with
  | nil => exact Or.inl rfl
  | cons c more => exact Or.inr ⟨more, by rw [ends c rfl]⟩

/-! ## Words and numerals -/

/-- The characters that begin other tokens than words and numerals. -/
def symbols : List Char :=
  ['(', ')', '[', ']', '?', ':', '.', '+', '-', '%', '/', '~', '^', '*', '|', '&', '!', '<', '>',
    '=', '"', '\'']

theorem lexeme_of_not_mem_symbols {c : Char} (plain : c ∉ symbols) (start : Nat)
    (rest : List Char) :
    lexeme start c rest =
      if c.isDigit then numeral start c rest
      else if isIdentifierStart c then .ok (word c rest)
      else .error ⟨start, .unexpectedCharacter c⟩ := by
  have noQuote : (c == '"' || c == '\'') = false := by
    simp only [Bool.or_eq_false_iff, beq_eq_false_iff_ne]
    constructor <;> rintro rfl <;> exact plain (by decide)
  unfold lexeme
  split
  case h_21 => simp only [noQuote, Bool.false_eq_true, ↓reduceIte]
  all_goals exact absurd (by decide) plain

theorem toNat_of_isIdentifierStart {c : Char} (isStart : isIdentifierStart c = true) :
    65 ≤ c.toNat ∧ c.toNat ≤ 122 := by
  simp only [isIdentifierStart, Char.isAlpha, Char.isUpper, Char.isLower, Bool.or_eq_true,
    Bool.and_eq_true, decide_eq_true_eq, UInt32.le_iff_toNat_le, ge_iff_le, beq_iff_eq] at isStart
  rcases isStart with (upper | lower) | rfl
  · change 65 ≤ c.toNat ∧ c.toNat ≤ 90 at upper
    omega
  · change 97 ≤ c.toNat ∧ c.toNat ≤ 122 at lower
    omega
  · decide

theorem isDigit_eq_false_of_isIdentifierStart {c : Char} (isStart : isIdentifierStart c = true) :
    c.isDigit = false := by
  have range := toNat_of_isIdentifierStart isStart
  cases isDigit : c.isDigit with
  | false => rfl
  | true =>
      have digits := Decimal.toNat_of_isDigit isDigit
      omega

theorem lexeme_of_isIdentifierStart {c : Char} (isStart : isIdentifierStart c = true)
    (start : Nat) (rest : List Char) : lexeme start c rest = .ok (word c rest) := by
  have plain : c ∉ symbols := by
    intro member
    have noStart : symbols.any isIdentifierStart = false := rfl
    exact List.any_eq_false.mp noStart c member isStart
  rw [lexeme_of_not_mem_symbols plain, isDigit_eq_false_of_isIdentifierStart isStart, isStart]
  rfl

theorem lexeme_of_isDigit {c : Char} (isDigit : c.isDigit = true) (start : Nat)
    (rest : List Char) : lexeme start c rest = numeral start c rest := by
  have plain : c ∉ symbols := by
    intro member
    have noDigit : symbols.any Char.isDigit = false := rfl
    exact List.any_eq_false.mp noDigit c member isDigit
  rw [lexeme_of_not_mem_symbols plain, isDigit]
  rfl

/-- An identifier is read as a truth value or as itself. -/
theorem spells_word {name : String} (identifier : isIdentifier name.toList = true) :
    Spells name.toList
      (if name == "true" then .boolean true
        else if name == "false" then .boolean false
        else .identifier name) := by
  cases spelling : name.toList with
  | nil => simp [spelling, isIdentifier] at identifier
  | cons first more =>
      simp only [spelling, isIdentifier, Bool.and_eq_true, List.all_eq_true] at identifier
      obtain ⟨isStart, parts⟩ := identifier
      have range := toNat_of_isIdentifierStart isStart
      refine ⟨first, more, rfl, Text.isBlank_eq_false (by omega) (by omega), ?_⟩
      intro start rest ends
      have split := Text.splitWhile_append_of_stop parts (ends.stop (by decide))
      have whole : String.ofList (first :: more) = name := by
        rw [← spelling, String.ofList_toList]
      have shorter : rest.length < (more ++ rest).length + 1 := by
        simp only [List.length_append]
        omega
      refine ⟨name.utf8ByteSize, shorter, ?_⟩
      rw [lexeme_of_isIdentifierStart isStart]
      simp only [word, split, whole]

theorem splitNumeral_append (first : Char) {more : List Char}
    (digits : ∀ c ∈ more, c.isDigit = true) (ends : Ends rest) :
    splitNumeral first (more ++ rest) = (⟨first :: more, none, none⟩, rest) := by
  have noFraction : fraction rest = (none, rest) := by
    rcases ends.cases with rfl | ⟨others, rfl⟩ <;> rfl
  have noExponent : exponent rest = (none, rest) := by
    rcases ends.cases with rfl | ⟨others, rfl⟩ <;> rfl
  have split := Text.splitWhile_append_of_stop digits (ends.stop (by decide))
  simp only [splitNumeral, split, noFraction, noExponent]

/-- A number below `2 ^ 63` is read from its decimal digits. -/
theorem spells_integer {value : Int64} (nonnegative : 0 ≤ value) :
    Spells (Nat.toDigits 10 value.toInt.toNat) (.integer value) := by
  cases spelling : Nat.toDigits 10 value.toInt.toNat with
  | nil => exact absurd spelling Nat.toDigits_ne_nil
  | cons first more =>
      have digits := Decimal.isDigit_of_mem_toDigits value.toInt.toNat
      rw [spelling] at digits
      have isDigit := digits first List.mem_cons_self
      have range := Decimal.toNat_of_isDigit isDigit
      refine ⟨first, more, rfl, Text.isBlank_eq_false (by omega) (by omega), ?_⟩
      intro start rest ends
      have split := splitNumeral_append first
        (fun c member => digits c (List.mem_cons_of_mem first member)) ends
      have isValue : Decimal.value (first :: more) = value.toInt.toNat := by
        rw [← spelling, Decimal.value_toDigits]
      have small : value.toInt.toNat < Nat.pow 2 63 := value.toNatClampNeg_lt
      have back : Int64.ofNat value.toInt.toNat = value := value.ofNat_toNatClampNeg nonnegative
      have shorter : rest.length < (more ++ rest).length + 1 := by
        simp only [List.length_append]
        omega
      refine ⟨(more ++ rest).length + 1 - rest.length, shorter, ?_⟩
      rw [lexeme_of_isDigit isDigit]
      simp only [numeral, split, Decimal.Numeral.isFloat, isValue, small, back, Option.isSome_none,
        Bool.or_self, Bool.false_eq_true, ↓reduceIte]

/-! ## Strings -/

theorem item_quotedChar (c : Char) : Item acceptedSigns '"' (quotedChar c) c := by
  unfold quotedChar
  split
  case h_7 noQuote noBackslash _ _ _ _ => exact .plain noQuote noBackslash
  all_goals exact .escape (.named (by decide))

/-- The characters of a string, each quoted, denote the string. -/
theorem denotes_flatMap (chars : List Char) :
    Denotes acceptedSigns '"' (chars.flatMap quotedChar) chars := by
  induction chars with
  | nil => exact .nil
  | cons c chars induction => exact induction.cons (item_quotedChar c)

theorem spells_string (text : String) :
    Spells ('"' :: text.toList.flatMap quotedChar ++ ['"']) (.string text) := by
  refine ⟨'"', text.toList.flatMap quotedChar ++ ['"'], rfl, by decide, fun start rest _ => ?_⟩
  have quotes := (denotes_flatMap text.toList).quotes (by decide) rest
  obtain ⟨shorter, read⟩ := quotes.lexeme (.inl rfl) start
  rw [String.ofList_toList] at read
  rw [List.append_assoc, List.singleton_append]
  exact ⟨_, shorter, read⟩

/-! ## All tokens -/

theorem spells_symbol {first : Char} {more : List Char} {token : Token}
    (notBlank : Text.isBlank first = false)
    (atEnd : ∀ start, ∃ bytes shorter,
      lexeme start first (more ++ []) = .ok ⟨token, bytes, [], shorter⟩)
    (beforeSpace : ∀ start others, ∃ bytes shorter,
      lexeme start first (more ++ ' ' :: others) = .ok ⟨token, bytes, ' ' :: others, shorter⟩) :
    Spells (first :: more) token := by
  refine ⟨first, more, rfl, notBlank, fun start rest ends => ?_⟩
  rcases ends.cases with rfl | ⟨others, rfl⟩
  · exact atEnd start
  · exact beforeSpace start others

theorem spells_operator (symbol : Operator) : Spells symbol.spelling (.operator symbol) := by
  cases symbol
  all_goals exact spells_symbol (by decide) (fun _ => ⟨_, _, rfl⟩) fun _ _ => ⟨_, _, rfl⟩

/-- The spelling of a token is read as that token. -/
theorem spells_spelling {token : Token} (printable : token.isPrintable = true) :
    Spells token.spelling token := by
  cases token with
  | integer value => exact spells_integer (of_decide_eq_true printable)
  | float value => contradiction
  | string text => exact spells_string text
  | identifier name =>
      simp only [Token.isPrintable, isName, Bool.and_eq_true, bne_iff_ne] at printable
      obtain ⟨⟨identifier, notTrue⟩, notFalse⟩ := printable
      have word : Spells name.toList (.identifier name) := by
        simpa only [beq_false_of_ne notTrue, beq_false_of_ne notFalse, Bool.false_eq_true,
          ↓reduceIte] using spells_word identifier
      exact word
  | boolean value =>
      cases value with
      | true => exact @spells_word "true" (by decide)
      | false => exact @spells_word "false" (by decide)
  | operator symbol => exact spells_operator symbol
  | leftParenthesis | rightParenthesis | leftBracket | rightBracket | dot | question | colon =>
      exact spells_symbol (by decide) (fun _ => ⟨_, _, rfl⟩) fun _ _ => ⟨_, _, rfl⟩

/-- Whether some characters are cut into some tokens, wherever they stand. -/
def Tokenizes (chars : List Char) (tokens : List Token) : Prop :=
  ∀ offset, ∃ placed, tokensFrom offset chars = .ok placed ∧ placed.map Placed.token = tokens

theorem tokenizes_nil : Tokenizes [] [] := by
  intro offset
  refine ⟨[], ?_, rfl⟩
  rw [tokensFrom.eq_def]

theorem Tokenizes.space {tokens : List Token} (following : Tokenizes rest tokens) :
    Tokenizes (' ' :: rest) tokens := by
  intro offset
  obtain ⟨placed, read, same⟩ := following (offset + ' '.utf8Size)
  refine ⟨placed, ?_, same⟩
  rw [tokensFrom.eq_def, ← read]
  rfl

theorem Tokenizes.cons {spelling : List Char} {token : Token} {tokens : List Token}
    (following : Tokenizes rest tokens) (spells : Spells spelling token) (ends : Ends rest) :
    Tokenizes (spelling ++ rest) (token :: tokens) := by
  intro offset
  obtain ⟨first, more, rfl, notBlank, read⟩ := spells
  obtain ⟨bytes, shorter, read⟩ := read offset rest ends
  obtain ⟨placed, others, same⟩ := following (offset + bytes)
  refine ⟨⟨token, offset⟩ :: placed, ?_, congrArg (token :: ·) same⟩
  rw [List.cons_append, tokensFrom.eq_def]
  simp only [notBlank, Bool.false_eq_true, ↓reduceIte, read, others]

/-- Tokens with single spaces between are read as those tokens. -/
theorem tokenizes_spaced {tokens : List Token}
    (printable : ∀ token ∈ tokens, token.isPrintable = true) :
    Tokenizes (spaced tokens) tokens := by
  induction tokens with
  | nil => exact tokenizes_nil
  | cons token tokens induction =>
      have spells := spells_spelling (printable token List.mem_cons_self)
      have following := induction fun other member =>
        printable other (List.mem_cons_of_mem token member)
      cases tokens with
      | nil =>
          have nothing : Ends [] := by
            rintro c ⟨⟩
          simpa [spaced] using tokenizes_nil.cons spells nothing
      | cons other tokens =>
          have space : Ends (' ' :: spaced (other :: tokens)) := by
            rintro c ⟨⟩
            rfl
          simpa [spaced] using following.space.cons spells space

end Expression
end StaticSite
