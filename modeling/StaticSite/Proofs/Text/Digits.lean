import Mathlib
import StaticSite.Decimal.Reading

/-!
# Digits

The decimal digits of a number, read as digits, have the number as their value, and digits of any
base the number that they stand for.  Reading digits from the front of a text stops where they end.
-/

namespace StaticSite
namespace Decimal

theorem toNat_of_isDigit {c : Char} (isDigit : c.isDigit = true) :
    48 ≤ c.toNat ∧ c.toNat ≤ 57 := by
  simpa [Char.isDigit, UInt32.le_iff_toNat_le] using isDigit

theorem digit?_of_isDigit {c : Char} (isDigit : c.isDigit = true) :
    digit? c = some (c.toNat - '0'.toNat) := by
  have within : ('0' ≤ c && c ≤ '9') = true := isDigit
  simp only [digit?, within, ↓reduceIte]

/-- Digit characters have the value that they have as a decimal numeral. -/
theorem foldl_eq_ofDigitChars {chars : List Char} (digits : ∀ c ∈ chars, c.isDigit = true)
    (start : Nat) :
    chars.foldl (fun sum c => sum * 10 + (digit? c).getD 0) start =
      Nat.ofDigitChars 10 chars start := by
  induction chars generalizing start with
  | nil => rfl
  | cons c chars induction =>
      have others := induction fun other member => digits other (List.mem_cons_of_mem c member)
      rw [List.foldl_cons, others, Nat.ofDigitChars_cons,
        digit?_of_isDigit (digits c List.mem_cons_self), Option.getD_some, Nat.mul_comm]

theorem isDigit_of_mem_toDigits (n : Nat) : ∀ c ∈ Nat.toDigits 10 n, c.isDigit = true :=
  fun _ => Nat.isDigit_of_mem_toDigits (by decide) (by decide)

theorem value_toDigits (n : Nat) : value (Nat.toDigits 10 n) = n := by
  rw [value, foldl_eq_ofDigitChars (isDigit_of_mem_toDigits n), Nat.ofDigitChars_ten_toDigits]

theorem digitChar_ne_zero : ∀ n < 10, 0 < n → n.digitChar ≠ '0' := by
  decide

/-- Every number has a first digit, and that of a positive number is not zero. -/
theorem exists_toDigits_eq_cons (n : Nat) :
    ∃ first more, Nat.toDigits 10 n = first :: more ∧ (0 < n → first ≠ '0') := by
  induction n using Nat.strongRecOn with
  | _ n induction =>
      by_cases small : n < 10
      · exact ⟨n.digitChar, [], Nat.toDigits_of_lt_base small, digitChar_ne_zero n small⟩
      · -- the first digit is that of the number without its last one
        obtain ⟨first, more, front, notZero⟩ := induction (n / 10) (by omega)
        refine ⟨first, more ++ [(n % 10).digitChar], ?_, fun _ => notZero (by omega)⟩
        rw [Nat.toDigits_eq_if (by decide), if_neg small, front, List.cons_append]

/-! ## Digits of any base -/

/-- Whether a character is a digit of a base with some value. -/
def IsDigitOf (base : Nat) (c : Char) (number : Nat) : Prop :=
  digit? c = some number ∧ number < base

/-- Whether some characters are digits of a base that together stand for a number. -/
def StandsFor (base : Nat) (chars : List Char) (value : Nat) : Prop :=
  ∃ numbers, List.Forall₂ (IsDigitOf base) chars numbers ∧
    value = Nat.ofDigits base numbers.reverse

theorem digitsFrom?_cons_eq_some_iff {base start value : Nat} {c : Char} {chars : List Char} :
    digitsFrom? base start (c :: chars) = some value ↔
      ∃ number, IsDigitOf base c number ∧
        digitsFrom? base (start * base + number) chars = some value := by
  rw [digitsFrom?]
  cases digit : digit? c with
  | none => simp [IsDigitOf, digit]
  | some number => simp [IsDigitOf, digit]

theorem ofDigits_reverse_cons (base number : Nat) (numbers : List Nat) :
    Nat.ofDigits base (number :: numbers).reverse =
      Nat.ofDigits base numbers.reverse + base ^ numbers.length * number := by
  rw [List.reverse_cons, Nat.ofDigits_append, List.length_reverse, Nat.ofDigits_singleton]

/-- Digits that follow a number stand for the number that they continue it to. -/
theorem digitsFrom?_eq_some_iff {base : Nat} {chars : List Char} {start value : Nat} :
    digitsFrom? base start chars = some value ↔
      ∃ numbers, List.Forall₂ (IsDigitOf base) chars numbers ∧
        value = Nat.ofDigits base numbers.reverse + base ^ chars.length * start := by
  induction chars generalizing start with
  | nil => simp [digitsFrom?, eq_comm]
  | cons c chars induction =>
      rw [digitsFrom?_cons_eq_some_iff]
      constructor
      · rintro ⟨number, isDigit, read⟩
        obtain ⟨numbers, areDigits, rfl⟩ := induction.mp read
        refine ⟨number :: numbers, .cons isDigit areDigits, ?_⟩
        rw [ofDigits_reverse_cons, List.length_cons, areDigits.length_eq]
        ring
      · rintro ⟨_, areDigits, rfl⟩
        cases areDigits with
        | @cons _ number _ numbers isDigit areDigits =>
            refine ⟨number, isDigit, induction.mpr ⟨numbers, areDigits, ?_⟩⟩
            rw [ofDigits_reverse_cons, List.length_cons, areDigits.length_eq]
            ring

theorem digits?_eq_some_iff {base : Nat} {chars : List Char} {value : Nat} :
    digits? base chars = some value ↔ chars ≠ [] ∧ StandsFor base chars value := by
  cases chars with
  | nil => simp [digits?]
  | cons c chars =>
      have read : digits? base (c :: chars) = digitsFrom? base 0 (c :: chars) := rfl
      simp [read, digitsFrom?_eq_some_iff, StandsFor]

/-- A character that is no digit does not occur among digits. -/
theorem StandsFor.not_mem {base value : Nat} {chars : List Char} {c : Char}
    (standsFor : StandsFor base chars value) (noDigit : digit? c = none) : c ∉ chars := by
  obtain ⟨numbers, areDigits, -⟩ := standsFor
  induction areDigits with
  | nil => exact List.not_mem_nil
  | cons isDigit _ induction =>
      rintro (_ | ⟨_, member⟩)
      · exact Option.some_ne_none _ (isDigit.1.symm.trans noDigit)
      · exact induction member

end Decimal

namespace Text

/-- Reading stops at the first item that fails the test. -/
theorem splitWhile_append_of_stop {test : Char → Bool} {front rest : List Char}
    (pass : ∀ c ∈ front, test c = true) (stop : ∀ c ∈ rest.head?, test c = false) :
    splitWhile test (front ++ rest) = (front, rest) := by
  induction front with
  | nil =>
      cases rest with
      | nil => rfl
      | cons c rest => simp [splitWhile, stop c rfl]
  | cons c front induction =>
      have first := pass c List.mem_cons_self
      have others := induction fun other member => pass other (List.mem_cons_of_mem c member)
      simp only [splitWhile, Prod.mk.injEq] at others
      simp [splitWhile, first, others]

end Text

end StaticSite
