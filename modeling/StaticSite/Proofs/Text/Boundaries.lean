import Mathlib.Data.Nat.Find
import StaticSite.Text.Bytes

/-!
# Cutting texts

The boundaries of a text are the places at which it is two texts, one put behind the other.  So a
text that is cut to a number of bytes is the longest of its fronts that take no more of them, and
there always is one.
-/

namespace StaticSite
namespace Text

variable {budget size place : Nat} {text front back : String}

/-! ## Boundaries -/

/-- A boundary stands behind a front of the text. -/
theorem isBoundary_iff :
    isBoundary text place = true ↔
      ∃ front back, front ++ back = text ∧ front.utf8ByteSize = place := by
  rw [isBoundary, String.Pos.Raw.isValid_eq_true_iff, String.Pos.Raw.isValid_iff_exists_append]
  simp only [String.Pos.Raw.ext_iff, String.byteIdx_rawEndPos, eq_comm]

theorem isBoundary_append (front back : String) :
    isBoundary (front ++ back) front.utf8ByteSize = true :=
  isBoundary_iff.mpr ⟨front, back, rfl, rfl⟩

/-- Going back byte by byte ends at the greatest boundary on the way. -/
theorem boundaryUpTo_eq_findGreatest (text : String) (place : Nat) :
    boundaryUpTo text place = Nat.findGreatest (isBoundary text · = true) place := by
  induction place with
  | zero => rfl
  | succ place induction => rw [boundaryUpTo, Nat.findGreatest_succ, induction]

theorem boundaryUpTo_le (text : String) (place : Nat) : boundaryUpTo text place ≤ place := by
  rw [boundaryUpTo_eq_findGreatest]
  exact Nat.findGreatest_le place

theorem le_boundaryUpTo (boundary : isBoundary text size = true) (within : size ≤ place) :
    size ≤ boundaryUpTo text place := by
  rw [boundaryUpTo_eq_findGreatest]
  exact Nat.le_findGreatest within boundary

/-! ## Fronts -/

theorem toByteArray_of_front? (found : front? size text = some front) :
    front.toByteArray = text.toByteArray.extract 0 size := by
  obtain ⟨stop, place, rfl⟩ := Option.map_eq_some_iff.mp found
  have offset : stop.offset = ⟨size⟩ := by
    obtain ⟨inner, inside, rfl⟩ := Option.map_eq_some_iff.mp place
    rw [String.Slice.pos?, Option.dite_none_right_eq_some] at inside
    obtain ⟨_, isPlace⟩ := inside
    obtain rfl := Option.some.inj isPlace
    rfl
  show text.toByteArray.extract 0 stop.offset.byteIdx = _
  rw [offset]

theorem front?_append (front back : String) :
    front? front.utf8ByteSize (front ++ back) = some front := by
  obtain ⟨found, isFound⟩ :=
    Option.isSome_iff_exists.mp (isSome_front?_iff.mpr (isBoundary_append front back))
  have bytes : found.toByteArray = front.toByteArray := by
    rw [toByteArray_of_front? isFound, String.toByteArray_append]
    exact ByteArray.extract_append_eq_left String.size_toByteArray.symm
  rw [isFound, String.toByteArray_inj.mp bytes]

/-- Whether a text is the longest front of another one that ends at a boundary and takes no more
bytes than a budget. -/
structure IsLongestWithin (budget : Nat) (front text : String) : Prop where
  stands : ∃ back, front ++ back = text
  ends : isBoundary text front.utf8ByteSize = true
  fits : front.utf8ByteSize ≤ budget
  longest : ∀ other back, other ++ back = text → other.utf8ByteSize ≤ budget →
    other.utf8ByteSize ≤ front.utf8ByteSize

/-- A text that fits is its own longest front. -/
theorem isLongestWithin_self (fits : text.utf8ByteSize ≤ budget) :
    IsLongestWithin budget text text where
  stands := ⟨"", String.append_empty⟩
  ends := isBoundary_iff.mpr ⟨text, "", String.append_empty, rfl⟩
  fits := fits
  longest := by
    rintro other back rfl -
    rw [String.utf8ByteSize_append]
    exact Nat.le_add_right ..

theorem isLongestWithin_of_boundaryUpTo
    (ends : front.utf8ByteSize = boundaryUpTo (front ++ back) budget) :
    IsLongestWithin budget front (front ++ back) where
  stands := ⟨back, rfl⟩
  ends := isBoundary_append front back
  fits := ends ▸ boundaryUpTo_le ..
  longest := fun other rest whole fits =>
    ends ▸ le_boundaryUpTo (isBoundary_iff.mpr ⟨other, rest, whole, rfl⟩) fits

theorem isLongestWithin_of_cut? (isCut : cut? budget text = some front) :
    IsLongestWithin budget front text := by
  rw [cut?] at isCut
  split at isCut
  · next fits =>
    obtain rfl := Option.some.inj isCut
    exact isLongestWithin_self fits
  · -- the front that ends at the boundary is the only one with so many bytes
    obtain ⟨other, back, rfl, ends⟩ :=
      isBoundary_iff.mp (isBoundary_boundaryUpTo text budget)
    rw [← ends, front?_append] at isCut
    obtain rfl := Option.some.inj isCut
    exact isLongestWithin_of_boundaryUpTo ends

/-- A text can be cut to any number of bytes: it is cut at a boundary, and what is left is its
longest front with no more bytes. -/
theorem cut_longest (budget : Nat) (text : String) :
    isBoundary text (boundaryUpTo text budget) = true ∧
      cut? budget text = some (cut budget text) ∧ IsLongestWithin budget (cut budget text) text := by
  have isCut : cut? budget text = some (cut budget text) :=
    (Option.some_get (isSome_cut? budget text)).symm
  exact ⟨isBoundary_boundaryUpTo text budget, isCut, isLongestWithin_of_cut? isCut⟩

/-- A character of three bytes is kept or left out as a whole. -/
example : cut 3 "a你b" = "a" ∧ cut 4 "a你b" = "a你" := by
  decide

end Text
end StaticSite
