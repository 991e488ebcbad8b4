import StaticSite.Proofs.Expression.Beginnings

/-!
# Tokens side by side

A text that is cut into tokens is cut in the same way when more text follows it, unless that begins
with a character that could continue its last token.
-/

namespace StaticSite
namespace Text

theorem splitWhile_append_of_stops {test : Char → Bool} {tail : List Char}
    (stops : ∀ c ∈ tail.head?, test c = false) (chars : List Char) :
    splitWhile test (chars ++ tail) =
      ((splitWhile test chars).1, (splitWhile test chars).2 ++ tail) := by
  induction chars with
  | nil => exact splitWhile_append_of_stop (fun _ member => absurd member List.not_mem_nil) stops
  | cons c chars induction =>
      simp only [splitWhile, Prod.mk.injEq, List.cons_append] at induction ⊢
      by_cases passes : test c = true
      · simp [passes, induction]
      · simp [passes]

end Text

namespace Expression

/-- Whether a text does not continue a token that stands before it. -/
def Parts (tail : List Char) : Prop :=
  ∀ c ∈ tail.head?, continues c = false

section

variable {chars rest after tail : List Char} {c : Char} {token : Token} {bytes : Nat}

theorem Parts.stops (parts : Parts tail) {test : Char → Bool}
    (continued : ∀ c, test c = true → continues c = true) : ∀ c ∈ tail.head?, test c = false := by
  intro c member
  exact Bool.eq_false_iff.mpr fun passes =>
    Bool.false_ne_true ((parts c member).symm.trans (continued c passes))

theorem continues_of_isDigit (isDigit : c.isDigit = true) : continues c = true := by
  simp [continues, isIdentifierPart, Char.isAlphanum, isDigit]

theorem continues_of_isIdentifierPart (isPart : isIdentifierPart c = true) :
    continues c = true := by
  simp [continues, isPart]

/-! ## Numerals and words -/

theorem fraction_of_ne_dot (noDot : ∀ c ∈ chars.head?, c ≠ '.') :
    fraction chars = (none, chars) := by
  unfold fraction
  split
  · exact absurd rfl (noDot '.' rfl)
  · rfl

theorem Parts.fraction_append (parts : Parts tail) (chars : List Char) :
    fraction (chars ++ tail) = ((fraction chars).1, (fraction chars).2 ++ tail) := by
  have stops := parts.stops fun _ => continues_of_isDigit
  by_cases dot : ∃ rest, chars = '.' :: rest
  · obtain ⟨rest, rfl⟩ := dot
    cases rest with
    | nil =>
        cases tail with
        | nil => rfl
        | cons d others => simp [fraction, stops d rfl]
    | cons d rest =>
        have split := Text.splitWhile_append_of_stops stops rest
        simp only [List.cons_append, fraction, split]
        split <;> rfl
  · have noDot (tail : List Char) (noDotAfter : ∀ c ∈ tail.head?, c ≠ '.') :
        ∀ c ∈ (chars ++ tail).head?, c ≠ '.' := by
      cases chars with
      | nil => exact noDotAfter
      | cons c rest =>
          rintro _ ⟨⟩ rfl
          exact dot ⟨rest, rfl⟩
    have whole := fraction_of_ne_dot (noDot tail ?_)
    · have alone := fraction_of_ne_dot (noDot [] (by simp))
      rw [List.append_nil] at alone
      rw [whole, alone]
    · rintro _ member rfl
      exact absurd (parts '.' member) (by decide)

theorem Parts.splitSign_append (parts : Parts tail) (chars : List Char) :
    Decimal.splitSign (chars ++ tail) =
      ((Decimal.splitSign chars).1, (Decimal.splitSign chars).2 ++ tail) := by
  cases chars with
  | cons c rest =>
      simp only [List.cons_append, Decimal.splitSign]
      split <;> simp_all
  | nil =>
      change Decimal.splitSign tail = (false, tail)
      unfold Decimal.splitSign
      split
      · exact absurd (parts '+' rfl) (by decide)
      · exact absurd (parts '-' rfl) (by decide)
      · rfl

theorem Parts.exponent_append (parts : Parts tail) (chars : List Char) :
    exponent (chars ++ tail) = ((exponent chars).1, (exponent chars).2 ++ tail) := by
  have stops := parts.stops fun _ => continues_of_isDigit
  cases chars with
  | nil =>
      cases tail with
      | nil => rfl
      | cons e others =>
          have noLetter : (e == 'e' || e == 'E') = false := by
            rw [Bool.or_eq_false_iff, beq_eq_false_iff_ne, beq_eq_false_iff_ne]
            constructor <;> rintro rfl <;> exact absurd (parts _ rfl) (by decide)
          simp [exponent, noLetter]
  | cons e rest =>
      have sign := parts.splitSign_append rest
      have digits := Text.splitWhile_append_of_stops stops (Decimal.splitSign rest).2
      simp only [List.cons_append, exponent, sign, digits]
      split
      · split <;> rfl
      · rfl

theorem Parts.splitNumeral_append (parts : Parts tail) (first : Char) (chars : List Char) :
    splitNumeral first (chars ++ tail) =
      ((splitNumeral first chars).1, (splitNumeral first chars).2 ++ tail) := by
  have stops := parts.stops fun _ => continues_of_isDigit
  simp only [splitNumeral, Text.splitWhile_append_of_stops stops chars, parts.fraction_append,
    parts.exponent_append]

theorem Parts.numeral_append (parts : Parts tail) {start : Nat} {first : Char}
    (read : IsLexeme (numeral start first chars) token bytes after) (other : Nat) :
    IsLexeme (numeral other first (chars ++ tail)) token bytes (after ++ tail) := by
  have split := parts.splitNumeral_append first chars
  have count : (chars ++ tail).length + 1 - ((splitNumeral first chars).2 ++ tail).length =
      chars.length + 1 - (splitNumeral first chars).2.length := by
    simp only [List.length_append]
    omega
  have text : (first :: (chars ++ tail)).take
        (chars.length + 1 - (splitNumeral first chars).2.length) =
      (first :: chars).take (chars.length + 1 - (splitNumeral first chars).2.length) := by
    rw [← List.cons_append]
    apply List.take_append_of_le_length
    simp only [List.length_cons]
    omega
  unfold numeral at read ⊢
  simp only [split, count, text] at read ⊢
  split at read
  · next isFloat =>
    rw [if_pos isFloat]
    split at read
    · obtain ⟨rfl, rfl, rfl⟩ := isLexeme_ok_iff.mp read
      exact isLexeme_ok_iff.mpr ⟨rfl, rfl, rfl⟩
    · exact absurd read (not_isLexeme_error _)
  · next isInteger =>
    rw [if_neg isInteger]
    split at read
    · next small =>
      obtain ⟨rfl, rfl, rfl⟩ := isLexeme_ok_iff.mp read
      rw [if_pos small]
      exact isLexeme_ok_iff.mpr ⟨rfl, rfl, rfl⟩
    · exact absurd read (not_isLexeme_error _)

theorem Parts.word_append (parts : Parts tail) {first : Char}
    (read : IsLexeme (.ok (word first chars)) token bytes after) :
    IsLexeme (.ok (word first (chars ++ tail))) token bytes (after ++ tail) := by
  have stops := parts.stops fun _ => continues_of_isIdentifierPart
  have split := Text.splitWhile_append_of_stops stops chars
  obtain ⟨rfl, rfl, rfl⟩ := isLexeme_ok_iff.mp read
  simp [word, split]

/-! ## Strings -/

/-- The characters of a string are read in the same way before any text. -/
theorem stringBody_append {quote : Char} {start offset : Nat} {body : List Char} {size : Nat}
    {shorter : after.length < chars.length} (isQuote : quote = '"' ∨ quote = '\'')
    (read : stringBody quote start offset chars = .ok (body, size, ⟨after, shorter⟩))
    (tail : List Char) : Quotes quote (chars ++ tail) body size (after ++ tail) := by
  obtain ⟨front, rfl, denotes, rfl⟩ := exists_of_stringBody_eq_ok read
  rw [List.append_assoc, List.cons_append]
  exact denotes.quotes (ne_backslash_of_isQuote isQuote) (after ++ tail)

/-! ## Operators -/

/-- Spelling that could continue an operator is not found where the text stops. -/
theorem Parts.isPrefixOf_append (parts : Parts tail) {spelling : List Char}
    (continued : ∀ c ∈ spelling, continues c = true) (chars : List Char) :
    spelling.isPrefixOf (chars ++ tail) = spelling.isPrefixOf chars := by
  induction spelling generalizing chars with
  | nil => simp
  | cons c spelling induction =>
      obtain ⟨first, others⟩ := List.forall_mem_cons.mp continued
      cases chars with
      | nil =>
          cases tail with
          | nil => rfl
          | cons d rest =>
              have differs : c ≠ d := by
                rintro rfl
                exact Bool.false_ne_true ((parts c rfl).symm.trans first)
              simp [List.isPrefixOf, differs]
      | cons d chars => simp [List.isPrefixOf, induction others chars]

theorem Parts.find?_append (parts : Parts tail) {first : Char}
    {longer : List (List Char × Operator)}
    (plain : longer.all (fun spelling => isPlain first spelling.1) = true) (chars : List Char) :
    longer.find? (fun spelling => spelling.1.isPrefixOf (chars ++ tail)) =
      longer.find? fun spelling => spelling.1.isPrefixOf chars := by
  refine List.find?_congr fun spelling member => ?_
  obtain ⟨-, -, continued⟩ := isPlain_iff.mp (List.all_eq_true.mp plain spelling member)
  exact parts.isPrefixOf_append continued chars

/-! ## All tokens -/

/-- A token is read in the same way where more text follows that does not continue it. -/
theorem Parts.lexeme_append (parts : Parts tail) {start : Nat} {first : Char}
    (read : IsLexeme (lexeme start first chars) token bytes after) (other : Nat) :
    IsLexeme (lexeme other first (chars ++ tail)) token bytes (after ++ tail) := by
  cases begins first with
  | string isQuote =>
      rw [lexeme_of_isQuote isQuote] at read ⊢
      split at read
      · exact absurd read (not_isLexeme_error _)
      · next found =>
        obtain ⟨rfl, rfl, rfl⟩ := isLexeme_ok_iff.mp read
        obtain ⟨shorter, again⟩ := stringBody_append isQuote found tail other (other + 1)
        simp only [again]
        exact isLexeme_ok_iff.mpr ⟨rfl, rfl, rfl⟩
  | numeral isDigit =>
      rw [lexeme_of_isDigit isDigit] at read ⊢
      exact parts.numeral_append read other
  | word isStart =>
      rw [lexeme_of_isIdentifierStart isStart] at read ⊢
      exact parts.word_append read
  | point isPoint =>
      subst isPoint
      have digit : ((chars ++ tail).head?.map Char.isDigit).getD false =
          (chars.head?.map Char.isDigit).getD false := by
        cases chars with
        | cons c chars => rfl
        | nil =>
            cases tail with
            | nil => rfl
            | cons d rest => exact parts.stops (fun _ => continues_of_isDigit) d rfl
      rw [lexeme_point] at read ⊢
      rw [digit]
      split at read
      · exact absurd read (not_isLexeme_error _)
      · next noDigit =>
        obtain ⟨rfl, rfl, rfl⟩ := isLexeme_ok_iff.mp read
        rw [if_neg noDigit]
        exact isLexeme_ok_iff.mpr ⟨rfl, rfl, rfl⟩
  | sign alone longer plainAlone plain fails lexeme_eq =>
      rw [lexeme_eq, isLexeme_readSign_iff] at read ⊢
      rw [parts.find?_append plain]
      rcases read with ⟨spelling, symbol, found, rfl, rfl, rfl⟩ | ⟨notFound, isAlone, rfl, rfl⟩
      · have front := isPrefix_of_find? found
        exact .inl ⟨spelling, symbol, found, rfl, rfl,
          List.drop_append_of_le_length front.length_le⟩
      · exact .inr ⟨notFound, isAlone, rfl, rfl⟩

/-- A text that is cut into tokens is cut into the same tokens where more text follows that does not
continue the last of them. -/
theorem Parts.tokenizes_append (parts : Parts tail) {more : List Token}
    (behind : Tokenizes tail more) {offset : Nat} {placed : List Placed}
    (read : tokensFrom offset chars = .ok placed) :
    Tokenizes (chars ++ tail) (placed.map Placed.token ++ more) := by
  fun_induction tokensFrom offset chars generalizing placed
  case case1 =>
    obtain rfl : [] = placed := Except.ok.inj read
    exact behind
  case case2 c rest isBlank induction =>
    intro offset
    obtain ⟨others, again, same⟩ := induction read (offset + c.utf8Size)
    refine ⟨others, ?_, same⟩
    rw [List.cons_append, tokensFrom.eq_def]
    simp only [isBlank, ↓reduceIte, again]
  case case5 c rest notBlank token bytes after shorter found others left induction =>
    obtain rfl : _ :: others = placed := Except.ok.inj read
    intro offset
    obtain ⟨longer, again⟩ := parts.lexeme_append ⟨shorter, found⟩ offset
    obtain ⟨following, rest, same⟩ := induction left (offset + bytes)
    refine ⟨⟨token, offset⟩ :: following, ?_, congrArg (token :: ·) same⟩
    rw [List.cons_append, tokensFrom.eq_def]
    simp only [notBlank, Bool.false_eq_true, ↓reduceIte, again, rest]
  all_goals contradiction

theorem Tokenizes.append {first second : List Token} (front : Tokenizes chars first)
    (behind : Tokenizes tail second) (parts : Parts tail) :
    Tokenizes (chars ++ tail) (first ++ second) := by
  obtain ⟨placed, read, rfl⟩ := front 0
  exact parts.tokenizes_append behind read

theorem tokenizes_of_tokensFrom {offset : Nat} {placed : List Placed}
    (read : tokensFrom offset chars = .ok placed) :
    Tokenizes chars (placed.map Placed.token) := by
  have nothing : Parts [] := by
    rintro c ⟨⟩
  simpa using nothing.tokenizes_append tokenizes_nil read

end

end Expression
end StaticSite
