import StaticSite.Proofs.Expression.Cutting
import StaticSite.Proofs.Sequencing

/-!
# Numerals

Where a digit starts a token, the token is the longest numeral that stands there: digits, and maybe
a fraction and an exponent.  A point or a letter that does not go on as a fraction or an exponent is
left to the tokens that follow.
-/

namespace StaticSite
namespace Text

/-- The longest front of a text that belongs to a language. -/
structure IsLongestFront (language : List Char → Prop) (front text : List Char) : Prop where
  stands : front <+: text
  member : language front
  longest : ∀ other, other <+: text → language other → other.length ≤ front.length

theorem splitWhile_append_of_all {test : Char → Bool} {front : List Char}
    (pass : ∀ c ∈ front, test c = true) (rest : List Char) :
    splitWhile test (front ++ rest) =
      (front ++ (splitWhile test rest).1, (splitWhile test rest).2) := by
  simp only [splitWhile, List.takeWhile_append_of_pos pass, List.dropWhile_append_of_pos pass]

theorem byteLength_eq_length {chars : List Char} (ascii : ∀ c ∈ chars, c.toNat ≤ 127) :
    byteLength chars = chars.length := by
  induction chars with
  | nil => rfl
  | cons c chars induction =>
      obtain ⟨first, others⟩ := List.forall_mem_cons.mp ascii
      have one : c.utf8Size = 1 := Char.utf8Size_eq_one_iff.mpr (UInt32.le_iff_toNat_le.mpr first)
      rw [byteLength_cons, one, induction others, List.length_cons, Nat.add_comm]

end Text

namespace Decimal

/-! ## The grammar -/

/-- Whether a text is one or more digits. -/
def AreDigits (chars : List Char) : Prop :=
  chars ≠ [] ∧ ∀ c ∈ chars, c.isDigit = true

inductive WritesFraction : Option (List Char) → List Char → Prop
  | absent : WritesFraction none []
  | present {digits : List Char} (areDigits : AreDigits digits) :
      WritesFraction (some digits) ('.' :: digits)

/-- The signs of an exponent, and whether they are negative. -/
def exponentSigns : List (List Char × Bool) :=
  [([], false), (['+'], false), (['-'], true)]

inductive WritesExponent : Option (Bool × List Char) → List Char → Prop
  | absent : WritesExponent none []
  | present {letter : Char} {sign digits : List Char} {negative : Bool}
      (isLetter : letter = 'e' ∨ letter = 'E') (isSign : (sign, negative) ∈ exponentSigns)
      (areDigits : AreDigits digits) :
      WritesExponent (some (negative, digits)) (letter :: (sign ++ digits))

/-- Whether a text is written for a numeral. -/
inductive Writes : Numeral → List Char → Prop
  | numeral {first : Char} {more places scale : List Char} {fraction : Option (List Char)}
      {exponent : Option (Bool × List Char)} (areDigits : AreDigits (first :: more))
      (writesFraction : WritesFraction fraction places)
      (writesExponent : WritesExponent exponent scale) :
      Writes ⟨first :: more, fraction, exponent⟩ (first :: (more ++ (places ++ scale)))

def IsNumeral (chars : List Char) : Prop :=
  ∃ numeral, Writes numeral chars

/-! ## Characters of numerals -/

variable {chars digits sign rest : List Char} {numeral : Numeral} {negative : Bool} {c : Char}

theorem AreDigits.exists_cons (areDigits : AreDigits chars) :
    ∃ first more, chars = first :: more ∧ first.isDigit = true ∧
      ∀ c ∈ more, c.isDigit = true := by
  obtain ⟨nonempty, digits⟩ := areDigits
  cases chars with
  | nil => exact absurd rfl nonempty
  | cons first more => exact ⟨first, more, rfl, List.forall_mem_cons.mp digits⟩

theorem Writes.isDigit (writes : Writes numeral (c :: chars)) : c.isDigit = true := by
  obtain ⟨areDigits, -, -⟩ := writes
  exact areDigits.2 c List.mem_cons_self

theorem isDigit_eq_false_of_isLetter (isLetter : c = 'e' ∨ c = 'E') : c.isDigit = false := by
  rcases isLetter with rfl | rfl <;> rfl

theorem WritesExponent.stops {exponent : Option (Bool × List Char)}
    (writes : WritesExponent exponent chars) : ∀ c ∈ chars.head?, c.isDigit = false := by
  cases writes with
  | absent => simp
  | present isLetter _ _ =>
      rintro c ⟨⟩
      exact isDigit_eq_false_of_isLetter isLetter

theorem WritesFraction.stops {fraction : Option (List Char)}
    (writes : WritesFraction fraction chars) (stops : ∀ c ∈ rest.head?, c.isDigit = false) :
    ∀ c ∈ (chars ++ rest).head?, c.isDigit = false := by
  cases writes with
  | absent => exact stops
  | present _ =>
      rintro c ⟨⟩
      rfl

/-- The characters of a numeral other than digits. -/
def marks : List Char :=
  ['.', 'e', 'E', '+', '-']

theorem mem_marks_of_mem_exponentSigns (isSign : (sign, negative) ∈ exponentSigns) :
    ∀ c ∈ sign, c ∈ marks := by
  have within : ∀ pair ∈ exponentSigns, ∀ c ∈ pair.1, c ∈ marks := by
    simp [exponentSigns, marks]
  exact within _ isSign

theorem Writes.isDigit_or_mem_marks (writes : Writes numeral chars) :
    ∀ c ∈ chars, c.isDigit = true ∨ c ∈ marks := by
  obtain ⟨areDigits, writesFraction, writesExponent⟩ := writes
  intro c member
  rw [← List.cons_append, List.mem_append, List.mem_append] at member
  rcases member with inWhole | inFraction | inExponent
  · exact .inl (areDigits.2 c inWhole)
  · cases writesFraction with
    | absent => contradiction
    | present digits =>
        rcases List.mem_cons.mp inFraction with rfl | inDigits
        · exact .inr (by simp [marks])
        · exact .inl (digits.2 c inDigits)
  · cases writesExponent with
    | absent => contradiction
    | present isLetter isSign digits =>
        simp only [List.mem_cons, List.mem_append] at inExponent
        rcases inExponent with rfl | inSign | inDigits
        · rcases isLetter with rfl | rfl <;> exact .inr (by simp [marks])
        · exact .inr (mem_marks_of_mem_exponentSigns isSign c inSign)
        · exact .inl (digits.2 c inDigits)

theorem toNat_of_mem_numeral (member : c.isDigit = true ∨ c ∈ marks) :
    33 ≤ c.toNat ∧ c.toNat ≤ 126 := by
  rcases member with isDigit | isMark
  · have range := toNat_of_isDigit isDigit
    omega
  · have within : ∀ mark ∈ marks, 33 ≤ mark.toNat ∧ mark.toNat ≤ 126 := by
      simp [marks]
    exact within c isMark

/-- A numeral has as many bytes as characters. -/
theorem Writes.byteLength_eq (writes : Writes numeral chars) :
    Text.byteLength chars = chars.length := by
  apply Text.byteLength_eq_length
  intro c member
  have range := toNat_of_mem_numeral (writes.isDigit_or_mem_marks c member)
  omega

/-! ## Reading floats -/

theorem splitSign_of_isDigit (isDigit : ∀ c ∈ chars.head?, c.isDigit = true) :
    splitSign chars = (false, chars) := by
  unfold splitSign
  split
  · exact absurd (isDigit '+' rfl) (by decide)
  · exact absurd (isDigit '-' rfl) (by decide)
  · rfl

theorem splitSign_append (isSign : (sign, negative) ∈ exponentSigns)
    (isDigit : ∀ c ∈ rest.head?, c.isDigit = true) :
    splitSign (sign ++ rest) = (negative, rest) := by
  simp only [exponentSigns, List.mem_cons, Prod.mk.injEq, List.not_mem_nil, or_false] at isSign
  rcases isSign with ⟨rfl, rfl⟩ | ⟨rfl, rfl⟩ | ⟨rfl, rfl⟩
  · exact splitSign_of_isDigit isDigit
  · rfl
  · rfl

theorem AreDigits.isEmpty_and_all (areDigits : AreDigits digits) :
    (!digits.isEmpty && digits.all Char.isDigit) = true := by
  simpa [AreDigits] using areDigits

theorem beq_or_beq_of_isLetter (isLetter : c = 'e' ∨ c = 'E') : (c == 'e' || c == 'E') = true := by
  simpa using isLetter

theorem AreDigits.head_append (areDigits : AreDigits digits) (rest : List Char) :
    ∀ c ∈ (digits ++ rest).head?, c.isDigit = true := by
  obtain ⟨first, more, rfl, isDigit, -⟩ := areDigits.exists_cons
  rintro c ⟨⟩
  exact isDigit

theorem AreDigits.head (areDigits : AreDigits digits) : ∀ c ∈ digits.head?, c.isDigit = true := by
  simpa using areDigits.head_append []

theorem Numeral.toFloat_some_nil (negative : Bool) (whole : List Char)
    (exponent : Option (Bool × List Char)) :
    toFloat negative ⟨whole, some [], exponent⟩ = toFloat negative ⟨whole, none, exponent⟩ :=
  rfl

theorem AreDigits.writes (areDigits : AreDigits (c :: digits)) :
    Writes ⟨c :: digits, none, none⟩ (c :: digits) := by
  simpa using Writes.numeral areDigits .absent .absent

/-- Every numeral is readable as a float. -/
theorem Writes.float?_eq (writes : Writes numeral chars) :
    float? chars = some (numeral.toFloat false) := by
  obtain @⟨first, more, places, scale, _, _, areDigits, writesFraction, writesExponent⟩ := writes
  have stopsLast := writesExponent.stops
  have split := Text.splitWhile_append_of_stop areDigits.2 (writesFraction.stops stopsLast)
  have noSign := splitSign_of_isDigit (areDigits.head_append (places ++ scale))
  have nonempty : (first :: more).isEmpty = false := rfl
  rw [← List.cons_append, float?, noSign]
  simp only [split, nonempty, Bool.false_and, Bool.false_eq_true, ↓reduceIte]
  cases writesFraction with
  | absent =>
      cases writesExponent with
      | absent => rfl
      | present isLetter isSign digits =>
          have splitsSign := splitSign_append isSign digits.head
          rcases isLetter with rfl | rfl
          all_goals simp [splitsSign, digits.isEmpty_and_all, Numeral.toFloat_some_nil]
  | present places =>
      have splitPlaces := Text.splitWhile_append_of_stop places.2 stopsLast
      simp only [List.cons_append, splitPlaces]
      cases writesExponent with
      | absent => rfl
      | present isLetter isSign digits =>
          have splitsSign := splitSign_append isSign digits.head
          simp only [beq_or_beq_of_isLetter isLetter, splitsSign, digits.isEmpty_and_all,
            ↓reduceIte]

end Decimal

namespace Expression

open Decimal

variable {chars digits sign text rest after : List Char} {read : Numeral} {negative : Bool}
  {first letter : Char}

/-! ## What is read -/

theorem exists_of_fraction (chars : List Char) :
    ∃ text, chars = text ++ (fraction chars).2 ∧ WritesFraction (fraction chars).1 text := by
  unfold fraction
  split
  · next d rest =>
    split
    · next isDigit =>
      have split := Text.splitWhile_append Char.isDigit rest
      refine ⟨'.' :: d :: (Text.splitWhile Char.isDigit rest).1, ?_, .present ⟨by simp, ?_⟩⟩
      · simp only [List.cons_append, split]
      · exact List.forall_mem_cons.mpr ⟨isDigit, fun _ => List.mem_takeWhile_imp⟩
    · exact ⟨[], rfl, .absent⟩
  · exact ⟨[], rfl, .absent⟩

theorem exists_of_splitSign (chars : List Char) :
    ∃ sign, chars = sign ++ (splitSign chars).2 ∧
      (sign, (splitSign chars).1) ∈ exponentSigns := by
  unfold splitSign
  split
  · exact ⟨['+'], rfl, by simp [exponentSigns]⟩
  · exact ⟨['-'], rfl, by simp [exponentSigns]⟩
  · exact ⟨[], rfl, by simp [exponentSigns]⟩

theorem exists_of_exponent (chars : List Char) :
    ∃ text, chars = text ++ (exponent chars).2 ∧ WritesExponent (exponent chars).1 text := by
  unfold exponent
  split
  · next letter rest =>
    split
    · next isLetter =>
      obtain ⟨sign, whole, isSign⟩ := exists_of_splitSign rest
      have split := Text.splitWhile_append Char.isDigit (splitSign rest).2
      dsimp only
      split
      · exact ⟨[], rfl, .absent⟩
      · next nonempty =>
        refine ⟨_, ?_, .present (by simpa using isLetter) isSign ⟨by simpa using nonempty, ?_⟩⟩
        · rw [List.cons_append, List.append_assoc, split, ← whole]
        · exact fun _ => List.mem_takeWhile_imp
    · exact ⟨[], rfl, .absent⟩
  · exact ⟨[], rfl, .absent⟩

/-- What is read at a digit is a numeral. -/
theorem exists_of_splitNumeral (isDigit : first.isDigit = true) (rest : List Char) :
    ∃ text, rest = text ++ (splitNumeral first rest).2 ∧
      Writes (splitNumeral first rest).1 (first :: text) := by
  have split := Text.splitWhile_append Char.isDigit rest
  obtain ⟨places, wholePlaces, writesFraction⟩ :=
    exists_of_fraction (Text.splitWhile Char.isDigit rest).2
  obtain ⟨scale, wholeScale, writesExponent⟩ :=
    exists_of_exponent (fraction (Text.splitWhile Char.isDigit rest).2).2
  have areDigits : AreDigits (first :: (Text.splitWhile Char.isDigit rest).1) :=
    ⟨by simp, List.forall_mem_cons.mpr ⟨isDigit, fun _ => List.mem_takeWhile_imp⟩⟩
  refine ⟨_, ?_, .numeral areDigits writesFraction writesExponent⟩
  change rest = (Text.splitWhile Char.isDigit rest).1 ++ (places ++ scale) ++
    (exponent (fraction (Text.splitWhile Char.isDigit rest).2).2).2
  rw [List.append_assoc, List.append_assoc, ← wholeScale, ← wholePlaces, split]

theorem exists_numeral (isDigit : first.isDigit = true) (rest : List Char) :
    ∃ read text after, rest = text ++ after ∧ Writes read (first :: text) ∧
      splitNumeral first (text ++ after) = (read, after) := by
  obtain ⟨text, whole, writes⟩ := exists_of_splitNumeral isDigit rest
  exact ⟨_, text, _, whole, writes, by rw [← whole]⟩

/-! ## What could have been read -/

theorem fraction_present (areDigits : AreDigits digits) (rest : List Char) :
    fraction ('.' :: (digits ++ rest)) =
      (some (digits ++ (Text.splitWhile Char.isDigit rest).1),
        (Text.splitWhile Char.isDigit rest).2) := by
  obtain ⟨d, more, rfl, isDigit, others⟩ := areDigits.exists_cons
  simp only [List.cons_append, fraction, isDigit, ↓reduceIte, Text.splitWhile_append_of_all others]

theorem exponent_present (isLetter : letter = 'e' ∨ letter = 'E')
    (isSign : (sign, negative) ∈ exponentSigns) (areDigits : AreDigits digits)
    (rest : List Char) :
    exponent (letter :: (sign ++ (digits ++ rest))) =
      (some (negative, digits ++ (Text.splitWhile Char.isDigit rest).1),
        (Text.splitWhile Char.isDigit rest).2) := by
  have splitsSign := splitSign_append isSign (areDigits.head_append rest)
  have splitsDigits := Text.splitWhile_append_of_all areDigits.2 rest
  have nonempty : (digits ++ (Text.splitWhile Char.isDigit rest).1).isEmpty = false := by
    simp [areDigits.1]
  simp only [exponent, beq_or_beq_of_isLetter isLetter, splitsSign, splitsDigits, nonempty,
    ↓reduceIte, Bool.false_eq_true]

theorem fraction_append {places : Option (List Char)} (writes : WritesFraction places text)
    (noDigit : ∀ c ∈ rest.head?, c.isDigit = false) (noPoint : ∀ c ∈ rest.head?, c ≠ '.') :
    fraction (text ++ rest) = (places, rest) := by
  cases writes with
  | absent => exact fraction_of_ne_dot noPoint
  | present areDigits =>
      have nothing : Text.splitWhile Char.isDigit rest = ([], rest) :=
        @Text.splitWhile_append_of_stop _ [] _ (fun _ member => absurd member List.not_mem_nil)
          noDigit
      rw [List.cons_append, fraction_present areDigits, nothing, List.append_nil]

/-- No numeral in front of a text is longer than the one that is read, and a numeral alone is read
as itself. -/
theorem splitNumeral_of_writes (writes : Writes read (first :: text)) (rest : List Char) :
    (splitNumeral first (text ++ rest)).2.length ≤ rest.length ∧
      (rest = [] → splitNumeral first (text ++ rest) = (read, [])) := by
  obtain @⟨_, more, places, scale, _, _, areDigits, writesFraction, writesExponent⟩ := writes
  obtain ⟨-, others⟩ := List.forall_mem_cons.mp areDigits.2
  rw [List.append_assoc, List.append_assoc]
  -- digits that follow are taken by the last part that is written
  cases writesExponent with
  | @present letter sign digits _ isLetter isSign areDigits =>
      have noDigit : ∀ c ∈ (letter :: (sign ++ digits) ++ rest).head?, c.isDigit = false := by
        rintro c ⟨⟩
        exact isDigit_eq_false_of_isLetter isLetter
      have noPoint : ∀ c ∈ (letter :: (sign ++ digits) ++ rest).head?, c ≠ '.' := by
        rintro c ⟨⟩
        rcases isLetter with rfl | rfl <;> decide
      have split := Text.splitWhile_append_of_stop others (writesFraction.stops noDigit)
      simp only [splitNumeral, split, fraction_append writesFraction noDigit noPoint]
      rw [List.cons_append, List.append_assoc, exponent_present isLetter isSign areDigits]
      refine ⟨Text.length_splitWhile_le Char.isDigit rest, ?_⟩
      rintro rfl
      simp [Text.splitWhile]
  | absent =>
      cases writesFraction with
      | @present digits areDigits =>
          have stop : ∀ c ∈ ('.' :: (digits ++ rest)).head?, c.isDigit = false := by
            rintro c ⟨⟩
            rfl
          have split := Text.splitWhile_append_of_stop others stop
          simp only [List.nil_append, List.cons_append, splitNumeral, split,
            fraction_present areDigits]
          refine ⟨?_, ?_⟩
          · exact (length_exponent_le _).trans (Text.length_splitWhile_le Char.isDigit rest)
          · rintro rfl
            simp [Text.splitWhile, exponent]
      | absent =>
          have split := Text.splitWhile_append_of_all others rest
          simp only [List.nil_append, splitNumeral, split]
          refine ⟨?_, ?_⟩
          · exact (length_exponent_le _).trans
              ((length_fraction_le _).trans (Text.length_splitWhile_le Char.isDigit rest))
          · rintro rfl
            simp [Text.splitWhile, fraction, exponent]

/-- What is read at a digit is the longest numeral that stands there. -/
theorem isLongestFront_of_split (writes : Writes read (first :: text))
    (split : splitNumeral first (text ++ after) = (read, after)) :
    Text.IsLongestFront IsNumeral (first :: text) (first :: (text ++ after)) := by
  refine ⟨⟨after, rfl⟩, ⟨read, writes⟩, ?_⟩
  rintro other ⟨more, whole⟩ ⟨numeral, written⟩
  cases other with
  | nil => simp
  | cons c other =>
      obtain ⟨rfl, others⟩ := List.cons.inj whole
      have whole : other ++ more = text ++ after := others
      -- the same reading takes no less than the other numeral
      have shorter := (splitNumeral_of_writes written more).1
      rw [whole, split] at shorter
      have sameLength := congrArg List.length whole
      simp only [List.length_append, List.length_cons] at shorter sameLength ⊢
      omega

/-- A text is written for one numeral only. -/
theorem eq_of_writes {other : Numeral} (writes : Writes read (first :: text))
    (written : Writes other (first :: text)) : read = other := by
  have here := (splitNumeral_of_writes writes []).2 rfl
  have there := (splitNumeral_of_writes written []).2 rfl
  exact (Prod.mk.inj (here.symm.trans there)).1

/-- A text is a numeral just if reading it leaves nothing. -/
theorem isNumeral_cons_iff :
    IsNumeral (first :: text) ↔ first.isDigit = true ∧ (splitNumeral first text).2 = [] := by
  constructor
  · rintro ⟨read, writes⟩
    have isRead := (splitNumeral_of_writes writes []).2 rfl
    rw [List.append_nil] at isRead
    exact ⟨writes.isDigit, congrArg Prod.snd isRead⟩
  · rintro ⟨isDigit, nothing⟩
    obtain ⟨front, whole, writes⟩ := exists_of_splitNumeral isDigit text
    rw [nothing, List.append_nil] at whole
    rw [← whole] at writes
    exact ⟨_, writes⟩

/-! ## Tokens -/

/-- The token that a numeral stands for, if it is not an integer out of range. -/
def numeralToken? (read : Numeral) : Option Token :=
  if read.isFloat then some (.float (read.toFloat false))
  else if Decimal.value read.whole < Nat.pow 2 63 then
    some (.integer (.ofNat (Decimal.value read.whole)))
  else none

theorem whole_eq_of_not_isFloat (writes : Writes read chars) (isInteger : read.isFloat = false) :
    read.whole = chars := by
  obtain ⟨areDigits, writesFraction, writesExponent⟩ := writes
  cases writesFraction with
  | absent =>
      cases writesExponent with
      | absent => simp
      | present => contradiction
  | present => contradiction

/-- The value of a numeral without a fraction and an exponent is that of its decimal digits. -/
theorem value_eq_ofDigitChars (writes : Writes read chars) (isInteger : read.isFloat = false) :
    Decimal.value chars = Nat.ofDigitChars 10 chars 0 := by
  have whole := whole_eq_of_not_isFloat writes isInteger
  obtain ⟨areDigits, -, -⟩ := writes
  exact foldl_eq_ofDigitChars (whole ▸ areDigits.2) 0

theorem numeralToken?_of_isFloat (isFloat : read.isFloat = true) :
    numeralToken? read = some (.float (read.toFloat false)) := by
  rw [numeralToken?, if_pos isFloat]

theorem numeralToken?_of_lt (writes : Writes read chars) (isInteger : read.isFloat = false)
    (small : Decimal.value chars < Nat.pow 2 63) :
    numeralToken? read = some (.integer (.ofNat (Decimal.value chars))) := by
  rw [numeralToken?, if_neg (Bool.eq_false_iff.mp isInteger),
    whole_eq_of_not_isFloat writes isInteger, if_pos small]

theorem numeralToken?_of_le (writes : Writes read chars) (isInteger : read.isFloat = false)
    (large : Nat.pow 2 63 ≤ Decimal.value chars) : numeralToken? read = none := by
  rw [numeralToken?, if_neg (Bool.eq_false_iff.mp isInteger),
    whole_eq_of_not_isFloat writes isInteger, if_neg (Nat.not_lt.mpr large)]

/-- How a numeral becomes a token. -/
theorem numeral_eq_of_split (writes : Writes read (first :: text))
    (split : splitNumeral first (text ++ after) = (read, after)) (start : Nat) :
    (numeralToken? read).elim
      (numeral start first (text ++ after) =
        .error ⟨start, .integerOutOfRange (String.ofList (first :: text))⟩)
      fun token => IsLexeme (numeral start first (text ++ after)) token
        (Text.byteLength (first :: text)) after := by
  have count : (text ++ after).length + 1 - after.length = (first :: text).length := by
    simp only [List.length_append, List.length_cons]
    omega
  have spelling : (first :: (text ++ after)).take (first :: text).length = first :: text := by
    rw [← List.cons_append, List.take_left]
  have bytes := writes.byteLength_eq
  unfold numeral
  simp only [split, count, spelling, writes.float?_eq]
  cases isFloat : read.isFloat with
  | true =>
      rw [numeralToken?_of_isFloat isFloat]
      exact isLexeme_ok_iff.mpr ⟨rfl, bytes.symm, rfl⟩
  | false =>
      simp only [whole_eq_of_not_isFloat writes isFloat, Bool.false_eq_true, ↓reduceIte]
      by_cases small : Decimal.value (first :: text) < Nat.pow 2 63
      · rw [numeralToken?_of_lt writes isFloat small]
        simp only [small, ↓reduceIte]
        exact isLexeme_ok_iff.mpr ⟨rfl, bytes.symm, rfl⟩
      · rw [numeralToken?_of_le writes isFloat (Nat.not_lt.mp small)]
        simp only [small, ↓reduceIte, Option.elim_none]

/-! ## Errors -/

/-- Whether a fault is another one than that of a numeral which is no float. -/
def SparesFloats : SyntaxFault → Prop
  | .invalidFloat _ => False
  | _ => True

theorem failsOnly_escaped (chars : List Char) : FailsOnly SparesFloats (escaped chars) := by
  unfold escaped
  split
  case h_9 =>
    dsimp only
    split
    · exact .error trivial
    · split
      · exact .ok _
      · exact .error trivial
  all_goals first | exact .ok _ | exact .error trivial

theorem failsOnly_stringBody (quote : Char) (start offset : Nat) (chars : List Char) :
    FailsOnly (SparesFloats ·.fault) (stringBody quote start offset chars) := by
  fun_induction stringBody quote start offset chars
  case case1 => exact .error trivial
  case case3 found => exact .error (failsOnly_escaped _ _ found)
  case case4 left induction | case6 left induction => exact .error (induction _ left)
  all_goals exact .ok _

theorem failsOnly_numeral (isDigit : first.isDigit = true) (start : Nat) (rest : List Char) :
    FailsOnly (SparesFloats ·.fault) (numeral start first rest) := by
  obtain ⟨read, text, after, rfl, writes, split⟩ := exists_numeral isDigit rest
  have isToken := numeral_eq_of_split writes split start
  cases found : numeralToken? read with
  | none =>
      rw [found, Option.elim_none] at isToken
      exact isToken ▸ .error trivial
  | some token =>
      rw [found] at isToken
      obtain ⟨shorter, isLexeme⟩ := isToken
      exact isLexeme ▸ .ok _

theorem failsOnly_lexeme (start : Nat) (first : Char) (rest : List Char) :
    FailsOnly (SparesFloats ·.fault) (lexeme start first rest) := by
  cases begins first with
  | string isQuote =>
      rw [lexeme_of_isQuote isQuote]
      split
      · next found => exact .error (failsOnly_stringBody _ _ _ _ _ found)
      · exact .ok _
  | numeral isDigit =>
      rw [lexeme_of_isDigit isDigit]
      exact failsOnly_numeral isDigit start rest
  | word isStart =>
      rw [lexeme_of_isIdentifierStart isStart]
      exact .ok _
  | point isPoint =>
      subst isPoint
      rw [lexeme_point]
      split
      · exact .error trivial
      · exact .ok _
  | sign alone longer _ _ fails lexeme_eq =>
      rw [lexeme_eq]
      unfold readSign
      split
      · exact .ok _
      · cases alone with
        | ok token => exact .ok _
        | error fault => rcases fails fault rfl with rfl | rfl <;> exact .error trivial

theorem tokenize_ne_invalidFloat (source : List Char) (start : Nat) (text : String) :
    tokenize source ≠ .error ⟨start, .invalidFloat text⟩ := by
  intro failed
  obtain ⟨_, offset, c, after, -, -, found⟩ := Cuts.start.fails failed
  exact failsOnly_lexeme offset c after _ found

/-- Whether a numeral is read after some tokens, in front of a text that is left to the tokens that
follow.  It is the longest that stands there; with a fraction or an exponent it is a float, and any
other is an integer if it is below `2 ^ 63` and an error if not. -/
structure ReadsNumeral (source : List Char) (placed : List Placed) (offset : Nat)
    (spelling after : List Char) : Prop where
  longest : Text.IsLongestFront IsNumeral spelling (spelling ++ after)
  float : ∀ read, Writes read spelling → read.isFloat = true →
    ∃ value, float? spelling = some value ∧
      tokenize source =
        (tokensFrom (offset + Text.byteLength spelling) after).map
          (placed ++ ⟨.float value, offset⟩ :: ·)
  integer : ∀ read, Writes read spelling → read.isFloat = false →
    Nat.ofDigitChars 10 spelling 0 < Nat.pow 2 63 →
      ∃ value : Int64, value.toInt = Nat.ofDigitChars 10 spelling 0 ∧
        tokenize source =
          (tokensFrom (offset + Text.byteLength spelling) after).map
            (placed ++ ⟨.integer value, offset⟩ :: ·)
  outOfRange : ∀ read, Writes read spelling → read.isFloat = false →
    Nat.pow 2 63 ≤ Nat.ofDigitChars 10 spelling 0 →
      tokenize source = .error ⟨offset, .integerOutOfRange (String.ofList spelling)⟩

/-- Where a digit starts a token, the longest numeral is read that stands there.  No text has the
error of a numeral that is no float. -/
theorem tokenize_numeral (source : List Char) :
    (∀ placed offset first rest, Cuts source placed offset (first :: rest) →
      first.isDigit = true →
        ∃ spelling after, first :: rest = spelling ++ after ∧
          ReadsNumeral source placed offset spelling after) ∧
      ∀ start text, tokenize source ≠ .error ⟨start, .invalidFloat text⟩ := by
  refine ⟨?_, tokenize_ne_invalidFloat source⟩
  intro placed offset first rest cuts isDigit
  obtain ⟨read, text, after, rfl, written, split⟩ := exists_numeral isDigit rest
  have range := toNat_of_isDigit isDigit
  have notBlank : Text.isBlank first = false := Text.isBlank_eq_false (by omega) (by omega)
  have isToken := numeral_eq_of_split written split offset
  rw [← lexeme_of_isDigit isDigit] at isToken
  refine ⟨first :: text, after, rfl, isLongestFront_of_split written split, ?_, ?_, ?_⟩
  · intro other writes isFloat
    obtain rfl := eq_of_writes writes written
    rw [numeralToken?_of_isFloat isFloat] at isToken
    exact ⟨_, written.float?_eq, cuts.tokenize_token notBlank isToken⟩
  · intro other writes isInteger small
    obtain rfl := eq_of_writes writes written
    rw [← value_eq_ofDigitChars written isInteger] at small ⊢
    rw [numeralToken?_of_lt written isInteger small] at isToken
    exact ⟨_, Int64.toInt_ofNat_of_lt small, cuts.tokenize_token notBlank isToken⟩
  · intro other writes isInteger large
    obtain rfl := eq_of_writes writes written
    rw [← value_eq_ofDigitChars written isInteger] at large
    rw [numeralToken?_of_le written isInteger large] at isToken
    exact cuts.tokenize_error notBlank isToken

/-- A point without a digit behind it does not belong to the numeral. -/
theorem tokenize_numeral_point :
    tokenize ['1', '.', 'e', '5'] =
      .ok [⟨.integer 1, 0⟩, ⟨.dot, 1⟩, ⟨.identifier "e5", 2⟩] := by
  obtain ⟨spelling, after, whole, reads⟩ :=
    (tokenize_numeral ['1', '.', 'e', '5']).1 [] 0 '1' ['.', 'e', '5'] .start rfl
  have longest := whole ▸ reads.longest
  have one : Writes ⟨['1'], none, none⟩ ['1'] := AreDigits.writes ⟨by simp, by simp⟩
  have isOne : spelling = ['1'] ∧ after = ['.', 'e', '5'] := by
    cases spelling with
    | nil => exact absurd (longest.longest ['1'] ⟨_, rfl⟩ ⟨_, one⟩) (by simp)
    | cons c text =>
        obtain ⟨rfl, behindOne⟩ := List.cons.inj whole
        obtain ⟨-, nothing⟩ := isNumeral_cons_iff.mp reads.longest.member
        cases text with
        | nil => exact ⟨rfl, behindOne.symm⟩
        | cons point more =>
            obtain ⟨rfl, behindPoint⟩ := List.cons.inj behindOne
            cases more with
            | nil => contradiction
            | cons e last =>
                obtain ⟨rfl, -⟩ := List.cons.inj behindPoint
                contradiction
  obtain ⟨rfl, rfl⟩ := isOne
  obtain ⟨value, isValue, tokenized⟩ := reads.integer _ one rfl (by decide)
  obtain rfl : value = 1 := Int64.toInt_inj.mp isValue
  have point : IsLexeme (lexeme 1 '.' ['e', '5']) .dot 1 ['e', '5'] := ⟨_, rfl⟩
  have name : IsLexeme (lexeme 2 'e' ['5']) (.identifier "e5") 2 [] := ⟨_, rfl⟩
  have behind := tokensFrom_token (by decide) name
  rw [tokensFrom_nil] at behind
  change _ = (tokensFrom 1 ['.', 'e', '5']).map _ at tokenized
  rw [tokenized, tokensFrom_token (by decide) point, behind]
  rfl

end Expression
end StaticSite
