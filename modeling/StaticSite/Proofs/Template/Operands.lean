import Mathlib
import StaticSite.Proofs.Sequencing
import StaticSite.Proofs.Text.Trimming
import StaticSite.Template.Directive

/-!
# Operands of directives

A directive names things to bind, and says what they are bound to.  This file tells what is read
from an operand, and that what can be read is read from an operand that spells it.
-/

namespace StaticSite
namespace Template

/-- Whether a text can be an operand: it is not empty, and there are no blanks around it. -/
def IsOperand (text : String) : Prop :=
  text ≠ "" ∧ Text.IsTrimmed text.toList

/-- Whether a text can stand on the right of an arrow. -/
def IsArrowOperand (text : String) : Prop :=
  IsOperand text ∧ ¬['<', '-'] <:+: text.toList

/-- Whether a text is a name that can be bound: a letter or `_`, and then letters, digits and `_`. -/
def IsBindable (name : String) : Prop :=
  Expression.isIdentifier name.toList = true

instance : DecidablePred IsOperand := fun text =>
  inferInstanceAs (Decidable (text ≠ "" ∧ Text.IsTrimmed text.toList))

instance : DecidablePred IsArrowOperand := fun text =>
  inferInstanceAs (Decidable (IsOperand text ∧ ¬['<', '-'] <:+: text.toList))

instance : DecidablePred IsBindable := fun name =>
  inferInstanceAs (Decidable (Expression.isIdentifier name.toList = true))

/-- Whether what an iteration binds has a name; the placeholder is none. -/
def IsSlot (slot : Option String) : Prop :=
  ∀ name ∈ slot, IsBindable name ∧ name ≠ "_"

/-! ## Names -/

section

variable {name : String} {c : Char}

theorem toNat_of_isIdentifierPart (isPart : Expression.isIdentifierPart c = true) :
    48 ≤ c.toNat ∧ c.toNat ≤ 122 := by
  simp only [Expression.isIdentifierPart, Char.isAlphanum, Char.isAlpha, Char.isUpper, Char.isLower,
    Char.isDigit, Bool.or_eq_true, Bool.and_eq_true, decide_eq_true_eq, UInt32.le_iff_toNat_le,
    ge_iff_le, beq_iff_eq] at isPart
  rcases isPart with ((upper | lower) | digit) | rfl
  · change 65 ≤ c.toNat ∧ c.toNat ≤ 90 at upper
    omega
  · change 97 ≤ c.toNat ∧ c.toNat ≤ 122 at lower
    omega
  · change 48 ≤ c.toNat ∧ c.toNat ≤ 57 at digit
    omega
  · decide

theorem IsBindable.isIdentifierPart (bindable : IsBindable name) :
    ∀ c ∈ name.toList, Expression.isIdentifierPart c = true := by
  unfold IsBindable at bindable
  cases chars : name.toList with
  | nil => simp
  | cons first rest =>
      simp only [chars, Expression.isIdentifier, Bool.and_eq_true, List.all_eq_true] at bindable
      refine List.forall_mem_cons.mpr ⟨?_, bindable.2⟩
      have isStart := bindable.1
      simp only [Expression.isIdentifierStart, Bool.or_eq_true] at isStart
      simp only [Expression.isIdentifierPart, Char.isAlphanum, Bool.or_eq_true]
      exact isStart.imp .inl id

theorem IsBindable.not_mem (bindable : IsBindable name)
    (noPart : Expression.isIdentifierPart c = false) : c ∉ name.toList := by
  intro member
  rw [bindable.isIdentifierPart c member] at noPart
  contradiction

theorem IsBindable.isBlank_eq_false (bindable : IsBindable name) :
    ∀ c ∈ name.toList, Text.isBlank c = false := by
  intro c member
  have range := toNat_of_isIdentifierPart (bindable.isIdentifierPart c member)
  exact Text.isBlank_eq_false (by omega) (by omega)

theorem IsBindable.toList_ne_nil (bindable : IsBindable name) : name.toList ≠ [] := by
  intro none
  rw [IsBindable, none] at bindable
  contradiction

theorem identifier_eq_ok_iff {chars : List Char} :
    identifier chars = .ok name ↔ chars = name.toList ∧ IsBindable name := by
  unfold identifier
  split
  · next isIdentifier =>
    constructor
    · intro read
      obtain rfl := Except.ok.inj read
      simpa [IsBindable] using isIdentifier
    · rintro ⟨rfl, -⟩
      rw [String.ofList_toList]
  · next noIdentifier =>
    constructor
    · intro read
      contradiction
    · rintro ⟨rfl, bindable⟩
      exact absurd bindable noIdentifier

end

/-- What is written for a name, or the placeholder for none. -/
def slotText (slot : Option String) : List Char :=
  (slot.getD "_").toList

section

variable {slot key value : Option String} {c : Char} {chars before after : List Char}

theorem isBindable_slotText (isSlot : IsSlot slot) : IsBindable (slot.getD "_") := by
  cases slot with
  | none => decide
  | some name => exact (isSlot name rfl).1

theorem bindable_eq_ok_iff :
    bindable chars = .ok slot ↔ Text.trim chars = slotText slot ∧ IsSlot slot := by
  unfold bindable
  split
  · next isPlaceholder =>
    have placeholder : Text.trim chars = ['_'] := by simpa using isPlaceholder
    constructor
    · intro read
      obtain rfl := Except.ok.inj read
      exact ⟨placeholder, by simp [IsSlot]⟩
    · rintro ⟨written, isSlot⟩
      cases slot with
      | none => rfl
      | some name =>
          refine absurd (String.toList_inj.mp ?_) (isSlot name rfl).2
          rw [← show slotText (some name) = name.toList from rfl, ← written, placeholder]
          rfl
  · next noPlaceholder =>
    have noPlaceholder : Text.trim chars ≠ ['_'] := by simpa using noPlaceholder
    rw [Except.map_eq_ok_iff]
    constructor
    · rintro ⟨name, read, rfl⟩
      obtain ⟨written, isBindable⟩ := identifier_eq_ok_iff.mp read
      refine ⟨written, fun other same => ?_⟩
      obtain rfl := Option.mem_some_iff.mp same
      refine ⟨isBindable, ?_⟩
      rintro rfl
      exact noPlaceholder written
    · rintro ⟨written, isSlot⟩
      cases slot with
      | none => exact absurd written noPlaceholder
      | some name => exact ⟨name, identifier_eq_ok_iff.mpr ⟨written, (isSlot name rfl).1⟩, rfl⟩

/-- What is read from the names of a map iteration. -/
theorem of_pairNames (read : pairNames chars = .ok (key, value)) :
    IsSlot key ∧ IsSlot value ∧ (key ≠ none ∨ value ≠ none) := by
  unfold pairNames at read
  split at read
  · obtain ⟨first, readFirst, read⟩ := Except.bind_eq_ok_iff.mp read
    obtain ⟨second, readSecond, read⟩ := Except.bind_eq_ok_iff.mp read
    split at read
    · contradiction
    · next bindsSome =>
      obtain ⟨rfl, rfl⟩ : first = key ∧ second = value := by
        simpa [pure, Except.pure] using read
      refine ⟨(bindable_eq_ok_iff.mp readFirst).2, (bindable_eq_ok_iff.mp readSecond).2, ?_⟩
      by_contra none
      simp_all
  · contradiction

/-- Whether two names, or placeholders for none, are written with a comma and blanks between. -/
def IsPair (key value : Option String) (names : List Char) : Prop :=
  ∃ before after, Text.IsBlank before ∧ Text.IsBlank after ∧
    names = slotText key ++ before ++ ',' :: (after ++ slotText value)

theorem not_mem_slotText (isSlot : IsSlot slot) (noPart : Expression.isIdentifierPart c = false) :
    c ∉ slotText slot :=
  (isBindable_slotText isSlot).not_mem noPart

theorem trim_slotText (isSlot : IsSlot slot) (front : Text.IsBlank before)
    (back : Text.IsBlank after) : Text.trim (before ++ slotText slot ++ after) = slotText slot :=
  (Text.isTrimmed_of_forall (isBindable_slotText isSlot).isBlank_eq_false).trim_append front back

/-- Names that are written are read. -/
theorem IsPair.pairNames_eq (pair : IsPair key value chars) (isKey : IsSlot key)
    (isValue : IsSlot value) (bindsSome : key ≠ none ∨ value ≠ none) :
    pairNames chars = .ok (key, value) := by
  obtain ⟨before, after, front, back, rfl⟩ := pair
  have noCommaLeft : ',' ∉ slotText key ++ before := by
    simpa using ⟨not_mem_slotText isKey (by decide), front.not_mem (by decide)⟩
  have noCommaRight : ',' ∉ after ++ slotText value := by
    simpa using ⟨back.not_mem (by decide), not_mem_slotText isValue (by decide)⟩
  have pieces : (slotText key ++ before ++ ',' :: (after ++ slotText value)).splitOn ',' =
      [slotText key ++ before, after ++ slotText value] := by
    rw [List.splitOn_append_cons_self, List.splitOn_eq_singleton noCommaLeft,
      List.splitOn_eq_singleton noCommaRight]
    rfl
  have first : bindable (slotText key ++ before) = .ok key :=
    bindable_eq_ok_iff.mpr ⟨trim_slotText isKey Text.isBlank_nil front, isKey⟩
  have second : bindable (after ++ slotText value) = .ok value := by
    refine bindable_eq_ok_iff.mpr ⟨?_, isValue⟩
    simpa using trim_slotText isValue back Text.isBlank_nil
  have bindsOne : (key.isNone && value.isNone) = false := by
    simpa [Option.isSome_iff_ne_none, or_iff_not_imp_left] using bindsSome
  rw [pairNames, pieces]
  simp [first, second, bindsOne, bind, Except.bind, pure, Except.pure]

theorem IsPair.isTrimmed (pair : IsPair key value chars) (isKey : IsSlot key)
    (isValue : IsSlot value) : Text.IsTrimmed chars := by
  obtain ⟨before, after, -, -, rfl⟩ := pair
  have bindableKey := isBindable_slotText isKey
  have bindableValue := isBindable_slotText isValue
  refine Text.isTrimmed_of_ends (fun c isFirst => ?_) fun c isLast => ?_
  · rw [List.append_assoc, List.head?_append_of_ne_nil (slotText key) bindableKey.toList_ne_nil]
      at isFirst
    exact bindableKey.isBlank_eq_false c (List.mem_of_mem_head? isFirst)
  · rw [← List.cons_append, ← List.append_assoc, List.getLast?_append_of_ne_nil _
      (show slotText value ≠ [] from bindableValue.toList_ne_nil)] at isLast
    exact bindableValue.isBlank_eq_false c (List.mem_of_mem_getLast? isLast)

theorem IsPair.not_mem (pair : IsPair key value chars) (isKey : IsSlot key)
    (isValue : IsSlot value) : '<' ∉ chars := by
  obtain ⟨before, after, front, back, rfl⟩ := pair
  simpa using ⟨not_mem_slotText isKey (by decide), front.not_mem (by decide),
    back.not_mem (by decide), not_mem_slotText isValue (by decide)⟩

end

/-! ## Arrows -/

section

variable {left : List Char} {text operand : String}

/-- Whether two sides are written with an arrow and blanks between. -/
def IsArrow (left : List Char) (text operand : String) : Prop :=
  ∃ before after, Text.IsBlank before ∧ Text.IsBlank after ∧
    operand.toList = left ++ before ++ '<' :: '-' :: (after ++ text.toList)

/-- What is read from an operand with an arrow. -/
theorem of_arrowSides (read : arrowSides operand = .ok (left, text)) :
    Text.IsTrimmed left ∧ IsArrowOperand text := by
  unfold arrowSides at read
  dsimp only at read
  split at read
  · contradiction
  · next front back split =>
    split at read
    · contradiction
    · next single =>
      obtain ⟨rfl, rfl⟩ : Text.trim front = left ∧ String.ofList (Text.trim back) = text := by
        simpa using read
      obtain ⟨noArrow, isText⟩ : Text.splitFirst ['<', '-'] back = none ∧ Text.trim back ≠ [] := by
        simpa using single
      refine ⟨Text.isTrimmed_trim front, ⟨by simpa using isText, ?_⟩, fun within => ?_⟩
      · rw [String.toList_ofList]
        exact Text.isTrimmed_trim back
      · rw [String.toList_ofList] at within
        exact Text.splitFirst_eq_none_iff.mp noArrow (within.trans (Text.trim_infix back))

/-- Sides that are written are read. -/
theorem IsArrow.arrowSides_eq (arrow : IsArrow left text operand) (trimmed : Text.IsTrimmed left)
    (noMark : '<' ∉ left) (isOperand : IsArrowOperand text) :
    arrowSides operand = .ok (left, text) := by
  obtain ⟨before, after, front, back, whole⟩ := arrow
  obtain ⟨⟨isText, textTrimmed⟩, noArrow⟩ := isOperand
  have single : ¬['<', '-'] <:+: left ++ before ++ ['<'] := fun within => by
    have noFirst : '<' ∉ left ++ before := by simpa using ⟨noMark, front.not_mem (by decide)⟩
    simpa [Text.infix_cons_iff] using Text.infix_of_infix_append_left noFirst within
  have noOther : Text.splitFirst ['<', '-'] (after ++ text.toList) = none :=
    Text.splitFirst_eq_none_iff.mpr fun within =>
      noArrow (Text.infix_of_infix_append_left (back.not_mem (by decide)) within)
  have leftTrimmed : Text.trim (left ++ before) = left :=
    trimmed.trim_append Text.isBlank_nil front
  have rightTrimmed : Text.trim (after ++ text.toList) = text.toList := by
    simpa using textTrimmed.trim_append back Text.isBlank_nil
  rw [arrowSides, whole, Text.splitFirst_append single]
  simp [noOther, leftTrimmed, rightTrimmed, isText]

end

/-- What is read from an operand that must not be empty. -/
theorem required_eq_ok_iff {fault : DirectiveFault} {operand text : String} :
    required fault operand = .ok text ↔ operand = text ∧ text ≠ "" := by
  unfold required
  split
  · next isEmpty =>
    have isEmpty : operand = "" := by simpa using isEmpty
    constructor
    · intro read
      contradiction
    · rintro ⟨rfl, isText⟩
      exact absurd isEmpty isText
  · next isText =>
    have isText : operand ≠ "" := by simpa using isText
    constructor
    · intro read
      obtain rfl := Except.ok.inj read
      exact ⟨rfl, isText⟩
    · rintro ⟨rfl, -⟩
      rfl

end Template
end StaticSite
