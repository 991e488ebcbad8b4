/-!
# Reading from the front

A reader takes something from the front of a text and leaves the rest.  The rest comes with a
proof that it is shorter, so that readers can call each other without end in sight and still end.

Blanks are the characters with the Unicode property `White_Space`.  Expressions skip them between
tokens, and directive operands are trimmed of them on both sides.
-/

namespace StaticSite
namespace Text

/-- Something read from the front of a list of `size` items, and what is left of the list. -/
structure Taken (item α : Type) (size : Nat) where
  value : α
  rest : List item
  shorter : rest.length < size

namespace Taken

/-- The same reading of a longer list. -/
def weaken {item α : Type} {size larger : Nat} (taken : Taken item α size) (le : size ≤ larger) :
    Taken item α larger :=
  ⟨taken.value, taken.rest, Nat.lt_of_lt_of_le taken.shorter le⟩

/-- Change what was read. -/
def map {item α β : Type} {size : Nat} (change : α → β) (taken : Taken item α size) :
    Taken item β size :=
  ⟨change taken.value, taken.rest, taken.shorter⟩

end Taken

/-- The longest front whose items all pass a test, and the rest. -/
def splitWhile {α : Type} (test : α → Bool) (items : List α) : List α × List α :=
  (items.takeWhile test, items.dropWhile test)

theorem length_dropWhile_le {α : Type} (test : α → Bool) (items : List α) :
    (items.dropWhile test).length ≤ items.length := by
  induction items with
  | nil => simp
  | cons item items ih =>
      simp only [List.dropWhile_cons]
      split
      · exact Nat.le_succ_of_le ih
      · exact Nat.le_refl _

theorem length_splitWhile_le {α : Type} (test : α → Bool) (items : List α) :
    (splitWhile test items).2.length ≤ items.length :=
  length_dropWhile_le test items

theorem splitWhile_append {α : Type} (test : α → Bool) (items : List α) :
    (splitWhile test items).1 ++ (splitWhile test items).2 = items :=
  List.takeWhile_append_dropWhile

/-- What precedes the first occurrence of a mark and what follows it. -/
def splitFirst (mark : List Char) : List Char → Option (List Char × List Char)
  | [] => if mark.isEmpty then some ([], []) else none
  | c :: rest =>
      if mark.isPrefixOf (c :: rest) then some ([], (c :: rest).drop mark.length)
      else (splitFirst mark rest).map fun (before, after) => (c :: before, after)

/-! ## Blank characters -/

/-- Whether a character has the Unicode property `White_Space`. -/
def isBlank (c : Char) : Bool :=
  let code := c.toNat
  (0x09 ≤ code && code ≤ 0x0D) || code == 0x20 || code == 0x85 || code == 0xA0 ||
    code == 0x1680 || (0x2000 ≤ code && code ≤ 0x200A) || code == 0x2028 || code == 0x2029 ||
    code == 0x202F || code == 0x205F || code == 0x3000

/-- The characters from the first that is not blank on. -/
def trimLeft (chars : List Char) : List Char :=
  chars.dropWhile isBlank

/-- The characters up to the last that is not blank. -/
def trimRight (chars : List Char) : List Char :=
  (chars.reverse.dropWhile isBlank).reverse

/-- The characters between the first and the last that are not blank. -/
def trim (chars : List Char) : List Char :=
  trimRight (trimLeft chars)

end Text
end StaticSite
