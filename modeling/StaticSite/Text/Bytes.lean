/-!
# Texts and their bytes

This file counts the bytes of a text in UTF-8 and cuts a text to a number of bytes.  A cut is made
at a boundary, an end of the text or the first byte of a character, which is sought byte by byte from
the number backwards.
-/

namespace StaticSite
namespace Text

/-- Number of bytes of the UTF-8 form of some characters. -/
def byteLength : List Char → Nat
  | [] => 0
  | c :: rest => c.utf8Size + byteLength rest

@[simp]
theorem byteLength_nil : byteLength [] = 0 := rfl

@[simp]
theorem byteLength_cons (c : Char) (chars : List Char) :
    byteLength (c :: chars) = c.utf8Size + byteLength chars := rfl

@[simp]
theorem byteLength_append (front back : List Char) :
    byteLength (front ++ back) = byteLength front + byteLength back := by
  induction front with
  | nil => simp
  | cons c front induction => simp [induction, Nat.add_assoc]

/-- Whether a place, counted in bytes, is an end of a text or the first byte of a character. -/
def isBoundary (text : String) (place : Nat) : Bool :=
  String.Pos.Raw.isValid text ⟨place⟩

/-- The last boundary that is not behind a place. -/
def boundaryUpTo (text : String) : Nat → Nat
  | 0 => 0
  | place + 1 => if isBoundary text (place + 1) then place + 1 else boundaryUpTo text place

theorem isBoundary_boundaryUpTo (text : String) (place : Nat) :
    isBoundary text (boundaryUpTo text place) = true := by
  induction place with
  | zero => exact String.Pos.Raw.isValid_eq_true_iff.mpr String.Pos.Raw.isValid_zero
  | succ place induction =>
      rw [boundaryUpTo]
      split
      · assumption
      · exact induction

/-- The first bytes of a text, as many as are asked for; none if they do not end at a boundary. -/
def front? (size : Nat) (text : String) : Option String :=
  (text.pos? ⟨size⟩).map fun stop => text.extract text.startPos stop

theorem isSome_front?_iff {size : Nat} {text : String} :
    (front? size text).isSome = true ↔ isBoundary text size = true := by
  rw [front?, Option.isSome_map, String.pos?, Option.isSome_map, String.Slice.pos?, isBoundary]
  split
  · next boundary => simpa using boundary
  · next boundary => simpa using boundary

/-- A text cut to a number of bytes; none if a character would be cut in two. -/
def cut? (budget : Nat) (text : String) : Option String :=
  if text.utf8ByteSize ≤ budget then some text else front? (boundaryUpTo text budget) text

theorem isSome_cut? (budget : Nat) (text : String) : (cut? budget text).isSome = true := by
  rw [cut?]
  split
  · rfl
  · exact isSome_front?_iff.mpr (isBoundary_boundaryUpTo text budget)

/-- A text cut to a number of bytes, which never cuts a character in two. -/
def cut (budget : Nat) (text : String) : String :=
  (cut? budget text).get (isSome_cut? budget text)

end Text
end StaticSite
