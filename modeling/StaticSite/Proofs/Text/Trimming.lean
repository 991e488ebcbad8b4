import Mathlib.Data.List.DropRight
import StaticSite.Text.Taken

/-!
# Trimmed texts and marks

Trimming takes off the blanks around a text and nothing else, so that trimming again changes
nothing.  A mark of two characters splits a text where it first occurs.
-/

namespace StaticSite
namespace Text

variable {chars before after : List Char}

/-! ## Trimming -/

/-- Whether neither the first nor the last character is blank. -/
def IsTrimmed (chars : List Char) : Prop :=
  trim chars = chars

instance : DecidablePred IsTrimmed := fun chars =>
  inferInstanceAs (Decidable (trim chars = chars))

/-- Whether there are only blanks. -/
def IsBlank (chars : List Char) : Prop :=
  ∀ c ∈ chars, isBlank c = true

theorem IsBlank.not_mem {c : Char} (blank : IsBlank chars) (notBlank : isBlank c = false) :
    c ∉ chars := by
  intro member
  rw [blank c member] at notBlank
  contradiction

theorem isBlank_nil : IsBlank [] :=
  List.forall_mem_nil _

theorem isBlank_space : IsBlank [' '] := by
  simp [IsBlank, isBlank]

theorem isBlank_eq_false {c : Char} (above : 32 < c.toNat) (below : c.toNat < 0x85) :
    isBlank c = false := by
  simp only [isBlank, Bool.or_eq_false_iff, Bool.and_eq_false_iff, decide_eq_false_iff_not,
    beq_eq_false_iff_ne]
  omega

theorem trimLeft_append (blank : IsBlank before) :
    trimLeft (before ++ chars) = trimLeft chars :=
  List.dropWhile_append_of_pos blank

theorem trimRight_append (blank : IsBlank after) :
    trimRight (chars ++ after) = trimRight chars := by
  rw [trimRight, List.reverse_append,
    List.dropWhile_append_of_pos fun c member => blank c (List.mem_reverse.mp member)]
  rfl

/-- What is around a text is trimmed off, and nothing else. -/
theorem exists_trim (chars : List Char) :
    ∃ before after, IsBlank before ∧ IsBlank after ∧ chars = before ++ trim chars ++ after := by
  have front : IsBlank (chars.takeWhile isBlank) := fun c member => List.mem_takeWhile_imp member
  have back : IsBlank ((trimLeft chars).rtakeWhile isBlank) :=
    fun c member => List.mem_rtakeWhile_imp member
  refine ⟨_, _, front, back, ?_⟩
  calc
    chars = chars.takeWhile isBlank ++ trimLeft chars := List.takeWhile_append_dropWhile.symm
    _ = chars.takeWhile isBlank ++ (trim chars ++ (trimLeft chars).rtakeWhile isBlank) :=
      congrArg _ List.rdropWhile_append_rtakeWhile.symm
    _ = _ := (List.append_assoc ..).symm

/-- Blanks around a text do not matter. -/
theorem trim_append (front : IsBlank before) (back : IsBlank after) :
    trim (before ++ chars ++ after) = trim chars := by
  rw [trim, List.append_assoc, trimLeft_append front, trim, trimLeft, List.dropWhile_append]
  split
  · next allBlank =>
    -- nothing but blanks is left of the text
    have none : chars.dropWhile isBlank = [] := by simpa using allBlank
    have noneAfter : after.dropWhile isBlank = [] := List.dropWhile_eq_nil_iff.mpr back
    rw [noneAfter, trimLeft, none]
  · exact trimRight_append back

theorem isTrimmed_trim (chars : List Char) : IsTrimmed (trim chars) := by
  obtain ⟨before, after, front, back, whole⟩ := exists_trim chars
  calc
    trim (trim chars) = trim (before ++ trim chars ++ after) := (trim_append front back).symm
    _ = trim chars := by rw [← whole]

theorem IsTrimmed.trim_append (trimmed : IsTrimmed chars) (front : IsBlank before)
    (back : IsBlank after) : trim (before ++ chars ++ after) = chars :=
  (Text.trim_append front back).trans trimmed

theorem trim_infix (chars : List Char) : trim chars <:+: chars := by
  obtain ⟨before, after, -, -, whole⟩ := exists_trim chars
  exact ⟨before, after, whole.symm⟩

/-- A text is trimmed if it neither begins nor ends with a blank. -/
theorem isTrimmed_of_ends (first : ∀ c ∈ chars.head?, isBlank c = false)
    (last : ∀ c ∈ chars.getLast?, isBlank c = false) : IsTrimmed chars := by
  have left : trimLeft chars = chars := by
    cases chars with
    | nil => rfl
    | cons c chars => exact List.dropWhile_cons_of_neg (by simpa using first c rfl)
  have right : chars.rdropWhile isBlank = chars := by
    refine List.rdropWhile_eq_self_iff.mpr fun nonempty => ?_
    simpa using last _ (List.getLast?_eq_some_getLast nonempty)
  rw [IsTrimmed, trim, left]
  exact right

theorem isTrimmed_of_forall (plain : ∀ c ∈ chars, isBlank c = false) : IsTrimmed chars :=
  isTrimmed_of_ends (fun c member => plain c (List.mem_of_mem_head? member))
    fun c member => plain c (List.mem_of_mem_getLast? member)

/-! ## Marks of two characters -/

section

variable {a b : Char}

theorem prefix_cons_iff {c : Char} :
    [a, b] <+: c :: chars ↔ a = c ∧ chars.head? = some b := by
  rw [List.cons_prefix_cons]
  cases chars with
  | nil => simp
  | cons d chars => simp [eq_comm]

theorem infix_cons_iff {c : Char} :
    [a, b] <:+: c :: chars ↔ (a = c ∧ chars.head? = some b) ∨ [a, b] <:+: chars := by
  rw [List.infix_cons_iff, prefix_cons_iff]

theorem infix_concat_iff {c : Char} :
    [a, b] <:+: chars ++ [c] ↔ (b = c ∧ chars.getLast? = some a) ∨ [a, b] <:+: chars := by
  calc
    [a, b] <:+: chars ++ [c] ↔ [b, a] <:+: c :: chars.reverse := by
      rw [← List.reverse_infix]
      simp
    _ ↔ (b = c ∧ chars.reverse.head? = some a) ∨ [b, a] <:+: chars.reverse := infix_cons_iff
    _ ↔ _ := by
      rw [List.head?_reverse, ← List.reverse_infix]
      simp

theorem infix_of_infix_append_left (noFirst : a ∉ before) (within : [a, b] <:+: before ++ chars) :
    [a, b] <:+: chars := by
  induction before with
  | nil => exact within
  | cons c before induction =>
      obtain ⟨differs, noFirst⟩ := List.ne_and_not_mem_of_not_mem_cons noFirst
      rcases infix_cons_iff.mp within with ⟨same, -⟩ | within
      · exact absurd same differs
      · exact induction noFirst within

theorem infix_of_infix_append_right (noLast : b ∉ after) (within : [a, b] <:+: chars ++ after) :
    [a, b] <:+: chars := by
  have reversed : [b, a] <:+: after.reverse ++ chars.reverse := by
    simpa using List.reverse_infix.mpr within
  have inside := infix_of_infix_append_left (by simpa using noLast) reversed
  exact List.reverse_infix.mp (by simpa using inside)

/-- A text is split where the mark first occurs. -/
theorem splitFirst_append (absent : ¬[a, b] <:+: before ++ [a]) :
    splitFirst [a, b] (before ++ a :: b :: after) = some (before, after) := by
  induction before with
  | nil => simp [splitFirst]
  | cons c before induction =>
      rw [List.cons_append, infix_cons_iff, not_or] at absent
      have elsewhere : ¬[a, b] <+: c :: (before ++ a :: b :: after) := by
        rw [prefix_cons_iff]
        cases before <;> exact absent.1
      rw [List.cons_append, splitFirst, if_neg (by simpa using elsewhere), induction absent.2]
      rfl

/-- Where a text is split, the mark stands, for the first time. -/
theorem eq_of_splitFirst (found : splitFirst [a, b] chars = some (before, after)) :
    chars = before ++ a :: b :: after ∧ ¬[a, b] <:+: before ++ [a] := by
  induction chars generalizing before with
  | nil => simp [splitFirst] at found
  | cons c chars induction =>
      rw [splitFirst] at found
      split at found
      · next starts =>
        obtain ⟨rest, whole⟩ := List.isPrefixOf_iff_prefix.mp starts
        obtain ⟨rfl, rfl⟩ : [] = before ∧ (c :: chars).drop 2 = after := by simpa using found
        exact ⟨by rw [← whole]; rfl, by simp [infix_cons_iff]⟩
      · next noStart =>
        obtain ⟨⟨front, back⟩, inner, same⟩ := Option.map_eq_some_iff.mp found
        obtain ⟨rfl, rfl⟩ : c :: front = before ∧ back = after := by simpa using same
        obtain ⟨rfl, absent⟩ := induction inner
        refine ⟨rfl, ?_⟩
        rw [List.cons_append, infix_cons_iff, not_or]
        refine ⟨?_, absent⟩
        refine fun starts => noStart (List.isPrefixOf_iff_prefix.mpr (prefix_cons_iff.mpr ?_))
        cases front <;> exact starts

/-- A text without the mark is not split. -/
theorem splitFirst_eq_none_iff : splitFirst [a, b] chars = none ↔ ¬[a, b] <:+: chars := by
  constructor
  · intro notSplit within
    induction chars with
    | nil => simp at within
    | cons c chars induction =>
        rw [splitFirst] at notSplit
        split at notSplit
        · contradiction
        · next noStart =>
          rcases List.infix_cons_iff.mp within with starts | later
          · exact noStart (List.isPrefixOf_iff_prefix.mpr starts)
          · exact induction (Option.map_eq_none_iff.mp notSplit) later
  · intro absent
    cases split : splitFirst [a, b] chars with
    | none => rfl
    | some sides =>
        obtain ⟨whole, -⟩ := eq_of_splitFirst split
        exact absurd ⟨sides.1, sides.2, by simp [whole]⟩ absent

end

end Text
end StaticSite
