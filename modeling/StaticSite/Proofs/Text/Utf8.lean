import Mathlib

/-!
# Texts in UTF-8

The bytes of a text are read back as the text.  They are those of its characters, of which only
the character with the number of a byte below 128 is written with that byte.
-/

namespace StaticSite

theorem fromUTF8?_eq_some_iff {bytes : ByteArray} {text : String} :
    String.fromUTF8? bytes = some text ↔ text.toUTF8 = bytes := by
  unfold String.fromUTF8?
  constructor
  · intro read
    split at read
    · obtain rfl := Option.some.inj read
      rfl
    · contradiction
  · rintro rfl
    exact dif_pos text.isValidUTF8

theorem toList_loop_eq (bytes : ByteArray) (position : Nat) (read : List UInt8) :
    ByteArray.toList.loop bytes position read =
      read.reverse ++ bytes.data.toList.drop position := by
  fun_induction ByteArray.toList.loop bytes position read with
  | case1 position read below induction =>
      have isByte : bytes.get! position = bytes.data.toList[position] := by
        simp [ByteArray.get!, getElem!_pos, below]
      rw [induction, isByte, List.reverse_cons, List.append_assoc, List.singleton_append,
        List.getElem_cons_drop]
  | case2 position read beyond =>
      rw [List.drop_eq_nil_of_le (by simpa using beyond), List.append_nil]

theorem toList_toUTF8 (text : String) :
    text.toUTF8.toList = text.toList.flatMap String.utf8EncodeChar := by
  obtain ⟨chars, rfl⟩ : ∃ chars, text = String.ofList chars := ⟨_, String.ofList_toList.symm⟩
  rw [ByteArray.toList, toList_loop_eq, String.toUTF8, String.toByteArray_ofList, List.utf8Encode]
  simp

theorem toByteArray_toList (bytes : ByteArray) : bytes.toList.toByteArray = bytes := by
  apply ByteArray.ext
  rw [ByteArray.toList, toList_loop_eq, List.data_toByteArray]
  simp

/-- A byte below 128 is written for the character with its number only. -/
theorem toNat_of_mem_utf8EncodeChar {c : Char} {byte : UInt8}
    (member : byte ∈ String.utf8EncodeChar c) (small : byte < 128) : byte.toNat = c.toNat := by
  have small : byte.toNat < 128 := small
  have numeral (value : Nat) : (UInt8.ofNat value).toNat = value % 256 := UInt8.toNat_ofNat
  rw [String.utf8EncodeChar] at member
  split at member
  · next fits =>
    obtain rfl := List.mem_singleton.mp member
    rw [numeral]
    exact Nat.mod_eq_of_lt (by omega)
  · -- every byte of a longer encoding is 128 or more
    exfalso
    split at member
    · simp only [List.mem_cons, List.not_mem_nil, or_false] at member
      rcases member with rfl | rfl <;> · rw [numeral] at small; omega
    · split at member
      · simp only [List.mem_cons, List.not_mem_nil, or_false] at member
        rcases member with rfl | rfl | rfl <;> · rw [numeral] at small; omega
      · simp only [List.mem_cons, List.not_mem_nil, or_false] at member
        rcases member with rfl | rfl | rfl | rfl <;> · rw [numeral] at small; omega

theorem not_mem_utf8EncodeChar {c : Char} {byte : UInt8} (small : byte < 128)
    (differs : c.toNat ≠ byte.toNat) : byte ∉ String.utf8EncodeChar c :=
  fun member => differs (toNat_of_mem_utf8EncodeChar member small).symm

end StaticSite
