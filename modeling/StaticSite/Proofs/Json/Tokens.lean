import Mathlib
import StaticSite.Json.Reader
import StaticSite.Proofs.Text.Digits

/-!
# Strings and numerals of compact JSON

A string in quotes and an integer in decimal digits are read as what they were written from,
wherever a comma, a closing bracket or the end of the text comes behind.
-/

namespace StaticSite

/-! ## What was read -/

/-- What is read from the front of a text, and the rest. -/
def Text.seen {item α : Type} {size : Nat} (taken? : Option (Text.Taken item α size)) :
    Option (α × List item) :=
  taken?.map fun taken => (taken.value, taken.rest)

theorem Text.seen_some {item α : Type} {size : Nat} (taken : Text.Taken item α size) :
    seen (some taken) = some (taken.value, taken.rest) := rfl

theorem Text.seen_map {item α β : Type} {size larger : Nat}
    (taken? : Option (Text.Taken item α size)) (change : α → β) (le : size ≤ larger) :
    seen (taken?.map fun taken => (taken.map change).weaken le) =
      (seen taken?).map (Prod.map change id) := by
  cases taken? <;> rfl

theorem Text.seen_eq_some_iff {item α : Type} {size : Nat}
    {taken? : Option (Text.Taken item α size)} {value : α} {rest : List item} :
    seen taken? = some (value, rest) ↔ ∃ shorter, taken? = some ⟨value, rest, shorter⟩ := by
  constructor
  · intro isSeen
    obtain ⟨taken, rfl, same⟩ := Option.map_eq_some_iff.mp isSeen
    obtain ⟨rfl, rfl⟩ := Prod.mk.inj same
    exact ⟨taken.shorter, rfl⟩
  · rintro ⟨shorter, rfl⟩
    rfl

namespace Json

open Text (seen seen_map seen_eq_some_iff)

variable {c : Char} {chars rest : List Char}

theorem first?_cons (noBlank : isBlank c = false) :
    first? (c :: rest) = some ⟨c, rest, Nat.lt_succ_self _⟩ :=
  if_neg (by simp [noBlank])

/-- Whether nothing, a comma or a closing bracket comes next. -/
def Closes (rest : List Char) : Prop :=
  ∀ c ∈ rest.head?, c = ',' ∨ c = ']' ∨ c = '\x7d'

theorem Closes.cons (closes : c = ',' ∨ c = ']' ∨ c = '\x7d') : Closes (c :: rest) := by
  intro other isFirst
  exact Option.some.inj isFirst ▸ closes

theorem Closes.not_isDigit (closes : Closes rest) : ∀ c ∈ rest.head?, c.isDigit = false := by
  intro c isFirst
  rcases closes c isFirst with rfl | rfl | rfl <;> rfl

/-! ## Strings -/

theorem seen_string?_escaped (found : escaped? chars = some (c, rest)) :
    seen (string? ('\\' :: chars)) = (seen (string? rest)).map (Prod.map (c :: ·) id) := by
  rw [string?]
  split
  · next none => rw [none] at found; contradiction
  · next read =>
    obtain ⟨rfl, rfl⟩ := Prod.mk.inj (Option.some.inj (read.symm.trans found))
    exact seen_map _ _ _

theorem seen_string?_plain (noQuote : c ≠ '"') (noBackslash : c ≠ '\\') (atLeast : 0x20 ≤ c.toNat) :
    seen (string? (c :: rest)) = (seen (string? rest)).map (Prod.map (c :: ·) id) := by
  rw [string?, if_neg (by omega)]
  · exact seen_map _ _ _
  · exact noQuote
  · exact noBackslash

theorem digits?_hexDigit : ∀ n < 0x20,
    Decimal.digits? 16 ['0', '0', hexDigit (n / 16), hexDigit (n % 16)] = some n := by
  decide

theorem escaped?_unit (below : c.toNat < 0x20) :
    escaped? ('u' :: '0' :: '0' :: hexDigit (c.toNat / 16) :: hexDigit (c.toNat % 16) :: rest) =
      some (c, rest) := by
  rw [escaped?]
  simp only [digits?_hexDigit c.toNat below]
  rw [if_pos (by simp; omega), Char.ofNat_toNat]

/-- A character is written as an escape that stands for it, or as it is. -/
theorem escape_eq (c : Char) :
    (∃ code, escape c = '\\' :: code ∧ ∀ rest, escaped? (code ++ rest) = some (c, rest)) ∨
      (escape c = [c] ∧ c ≠ '"' ∧ c ≠ '\\' ∧ 0x20 ≤ c.toNat) := by
  by_cases named : c ∈ ['"', '\\', '\n', '\r', '\t', '\x08', '\x0c']
  · simp only [List.mem_cons, List.not_mem_nil, or_false] at named
    rcases named with rfl | rfl | rfl | rfl | rfl | rfl | rfl <;>
      exact .inl ⟨_, rfl, fun _ => rfl⟩
  · have unnamed : escape c = if c.toNat < 0x20 then
        ['\\', 'u', '0', '0', hexDigit (c.toNat / 16), hexDigit (c.toNat % 16)] else [c] := by
      simp only [List.mem_cons, List.not_mem_nil, or_false, not_or] at named
      simp [escape, named]
    by_cases below : c.toNat < 0x20
    · rw [if_pos below] at unnamed
      exact .inl ⟨_, unnamed, fun _ => escaped?_unit below⟩
    · rw [if_neg below] at unnamed
      have noQuote : c ≠ '"' := fun same => named (by simp [same])
      have noBackslash : c ≠ '\\' := fun same => named (by simp [same])
      exact .inr ⟨unnamed, noQuote, noBackslash, Nat.le_of_not_lt below⟩

theorem seen_string?_escape (c : Char) (rest : List Char) :
    seen (string? (escape c ++ rest)) = (seen (string? rest)).map (Prod.map (c :: ·) id) := by
  rcases escape_eq c with ⟨code, isEscaped, back⟩ | ⟨isPlain, noQuote, noBackslash, atLeast⟩
  · rw [isEscaped, List.cons_append]
    exact seen_string?_escaped (back rest)
  · rw [isPlain, List.singleton_append]
    exact seen_string?_plain noQuote noBackslash atLeast

/-- A string is read up to its closing quote as it was before it was escaped. -/
theorem seen_string?_flatMap (text rest : List Char) :
    seen (string? (text.flatMap escape ++ '"' :: rest)) = some (text, rest) := by
  induction text with
  | nil => rw [List.flatMap_nil, List.nil_append, string?]; rfl
  | cons c text induction =>
      rw [List.flatMap_cons, List.append_assoc, seen_string?_escape, induction]
      rfl

theorem seen_name?_quoted (name : String) (rest : List Char) :
    seen (name? (quoted name ++ ':' :: rest)) = some (name.toList, rest) := by
  have whole : quoted name ++ ':' :: rest =
      '"' :: (name.toList.flatMap escape ++ '"' :: ':' :: rest) := by simp [quoted]
  obtain ⟨_, read⟩ := seen_eq_some_iff.mp (seen_string?_flatMap name.toList (':' :: rest))
  rw [whole, name?, first?_cons rfl]
  simp only [read, first?_cons (c := ':') rfl]
  rfl

/-! ## Integers -/

namespace Numeral

theorem whole?_toDigits (n : Nat) (closes : Closes rest) :
    whole? (Nat.toDigits 10 n ++ rest) = some (Nat.toDigits 10 n, rest) := by
  rcases Nat.eq_zero_or_pos n with rfl | positive
  · cases rest with
    | nil => rfl
    | cons c rest =>
        have noDigit := closes.not_isDigit c rfl
        simp [whole?, noDigit]
  · obtain ⟨first, more, digits, notZero⟩ := Decimal.exists_toDigits_eq_cons n
    have each := Decimal.isDigit_of_mem_toDigits n
    rw [digits] at each
    obtain ⟨isDigit, others⟩ := List.forall_mem_cons.mp each
    have split := Text.splitWhile_append_of_stop others closes.not_isDigit
    rw [digits, List.cons_append, whole?, if_pos isDigit, split]
    exact notZero positive

theorem fraction?_of_closes (closes : Closes rest) : fraction? rest = some (none, rest) := by
  unfold fraction?
  split
  · next after =>
    have noPoint := closes '.' rfl
    contradiction
  · rfl

theorem exponent?_of_closes (closes : Closes rest) : exponent? rest = some (none, rest) := by
  cases rest with
  | nil => rfl
  | cons c rest =>
      rcases closes c rfl with rfl | rfl | rfl <;> rfl

theorem read?_toDigits (n : Nat) (negative : Bool) (closes : Closes rest) :
    read? negative (Nat.toDigits 10 n ++ rest) =
      (integer? negative (Nat.toDigits 10 n)).map fun tree => (tree, rest) := by
  simp only [read?, whole?_toDigits n closes, fraction?_of_closes closes,
    exponent?_of_closes closes, Option.bind_eq_bind, Option.bind_some]
  cases integer? negative (Nat.toDigits 10 n) <;> rfl

theorem integer?_toDigits {n : Nat} (small : n ≤ bound) :
    integer? false (Nat.toDigits 10 n) = some (.integer n) := by
  simp [integer?, Decimal.value_toDigits, small]

theorem integer?_toDigits_negative {n : Nat} (positive : 0 < n) (small : n ≤ Nat.pow 2 63) :
    integer? true (Nat.toDigits 10 n) = some (.integer (-n)) := by
  have atMost : n ≤ bound := Nat.le_trans small (by decide)
  simp [integer?, Decimal.value_toDigits, small, atMost, positive]

end Numeral
end Json
end StaticSite
