import StaticSite.Proofs.Expression.Numerals
import StaticSite.Proofs.Expression.Positions

/-!
# Written integers

The text of an integer is an expression for it, in which a minus sign is applied to the digits
behind it.  The least integer alone has no such text, because the digits of its text are a numeral
of their own that is out of range.
-/

namespace StaticSite
namespace Expression

variable {n : Nat}

/-! ## Digits -/

theorem evaluate_digits (scope : Scope) (fits : n < Nat.pow 2 63) :
    evaluate scope .any (toString n) = .ok (.integer (.ofNat n)) := by
  have derives := (Derives.integer (.ofNat n)).loosen (Nat.le_refl 1) (by decide) (Nat.le_refl 14)
  rw [evaluate, parse_of_tokenizes (tokenizes_digits fits) derives]
  rfl

/-! ## Digits behind a minus sign -/

theorem isLexeme_minus (start : Nat) (rest : List Char) :
    IsLexeme (lexeme start '-' rest) (.operator .minus) 1 rest :=
  ⟨_, rfl⟩

theorem evaluate_minus_digits (scope : Scope) (fits : n < Nat.pow 2 63) :
    evaluate scope .any ("-" ++ toString n) = .ok (.integer (-.ofNat n)) := by
  have tokenizes : Tokenizes ("-" ++ toString n).toList
      [.operator .minus, .integer (.ofNat n)] := by
    rw [String.toList_append]
    exact (tokenizes_digits fits).mark (by decide) fun start => isLexeme_minus start _
  have number := (Derives.integer (.ofNat n)).loosen (by decide : 1 ≤ 13) (by decide)
    (Nat.le_refl 14)
  have derives := (number.unary .negate).loosen (Nat.le_refl 1) (by decide) (by decide)
  rw [evaluate, parse_of_tokenizes tokenizes derives]
  rfl

/-- Digits of a number that is too large are an error where they stand. -/
theorem lexeme_digits_of_le (large : Nat.pow 2 63 ≤ n) {first : Char} {more : List Char}
    (spelling : Nat.toDigits 10 n = first :: more) (start : Nat) :
    lexeme start first more = .error ⟨start, .integerOutOfRange (toString n)⟩ := by
  have areDigits : Decimal.AreDigits (first :: more) := by
    rw [← spelling]
    exact ⟨Nat.toDigits_ne_nil, Decimal.isDigit_of_mem_toDigits n⟩
  have writes := areDigits.writes
  have split := (splitNumeral_of_writes writes []).2 rfl
  have isError := numeral_eq_of_split writes split start
  have isValue : Decimal.value (first :: more) = n := by
    rw [← spelling, Decimal.value_toDigits]
  rw [numeralToken?_of_le writes rfl (isValue.symm ▸ large), List.append_nil,
    ← lexeme_of_isDigit writes.isDigit, ← spelling] at isError
  exact isError

theorem evaluate_minus_large (scope : Scope) (kind : Kind) (large : Nat.pow 2 63 ≤ n) :
    evaluate scope kind ("-" ++ toString n) =
      .error (.expressionSyntax ⟨1, .integerOutOfRange (toString n)⟩) := by
  obtain ⟨first, more, spelling, -⟩ := Decimal.exists_toDigits_eq_cons n
  have whole : ("-" ++ toString n).toList = '-' :: first :: more := by
    simp [← spelling]
  have isDigit : first.isDigit = true :=
    Decimal.isDigit_of_mem_toDigits n first (spelling ▸ List.mem_cons_self)
  have range := Decimal.toNat_of_isDigit isDigit
  have cuts := Cuts.start.token (by decide) (isLexeme_minus 0 (first :: more))
  have failed := cuts.tokenize_error (Text.isBlank_eq_false (by omega) (by omega))
    (lexeme_digits_of_le large spelling 1)
  rw [evaluate, parse, whole, failed]

/-! ## Texts of integers -/

theorem text_integer_of_natCast {value : Int64} (isValue : value.toInt = n) :
    (Value.integer value).text = toString n := by
  rw [Value.text, isValue]
  rfl

theorem text_integer_of_neg {value : Int64} (isValue : value.toInt = -(n : Int)) (pos : 0 < n) :
    (Value.integer value).text = "-" ++ toString n := by
  rw [Value.text, isValue]
  cases n with
  | zero => contradiction
  | succ n => rfl

theorem text_minValue : (Value.integer Int64.minValue).text = "-" ++ toString (Nat.pow 2 63) :=
  text_integer_of_neg Int64.toInt_minValue (by decide)

theorem evaluate_text_minValue (scope : Scope) (kind : Kind) :
    evaluate scope kind (Value.integer Int64.minValue).text =
      .error (.expressionSyntax ⟨1, .integerOutOfRange "9223372036854775808"⟩) := by
  rw [text_minValue, evaluate_minus_large scope kind (Nat.le_refl _)]
  rfl

/-- Every integer but the least is its magnitude, or that with a minus sign. -/
theorem exists_magnitude {value : Int64} (notLeast : value ≠ Int64.minValue) :
    ∃ n < Nat.pow 2 63, value.toInt = n ∨ 0 < n ∧ value.toInt = -(n : Int) := by
  have above : value.toInt ≠ -2 ^ 63 := by
    rw [← Int64.toInt_minValue]
    exact fun same => notLeast (Int64.toInt_inj.mp same)
  have low := value.le_toInt
  have high := value.toInt_lt
  have size : Nat.pow 2 63 = 2 ^ 63 := rfl
  refine ⟨value.toInt.natAbs, by omega, ?_⟩
  omega

/-- The text of an integer has the integer as its value, unless it is the least one. -/
theorem evaluate_text_integer (scope : Scope) (value : Int64) :
    evaluate scope .any (Value.integer value).text =
      if value = Int64.minValue then
        .error (.expressionSyntax ⟨1, .integerOutOfRange "9223372036854775808"⟩)
      else .ok (.integer value) := by
  split
  · next least =>
    rw [least]
    exact evaluate_text_minValue scope .any
  · next notLeast =>
    obtain ⟨n, fits, isValue | ⟨pos, isValue⟩⟩ := exists_magnitude notLeast
    · have same : Int64.ofNat n = value := by
        rw [← Int64.toInt_inj, Int64.toInt_ofNat_of_lt fits, isValue]
      rw [text_integer_of_natCast isValue, evaluate_digits scope fits, same]
    · have same : -Int64.ofNat n = value := by
        rw [← Int64.toInt_inj, Int64.toInt_neg_ofNat_of_le (Nat.le_of_lt fits), isValue]
      rw [text_integer_of_neg isValue pos, evaluate_minus_digits scope fits, same]

theorem not_forall_evaluate_text_integer :
    ¬∀ (scope : Scope) (value : Int64),
      evaluate scope .any (Value.integer value).text = .ok (.integer value) := by
  intro claimed
  have failed := evaluate_text_minValue .root .any
  rw [claimed .root Int64.minValue] at failed
  contradiction

end Expression
end StaticSite
