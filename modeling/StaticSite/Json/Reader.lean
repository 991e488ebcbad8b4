import StaticSite.Json.Numeral

/-!
# Reading JSON

This file reads JSON texts.  Arrays and objects may be nested up to a depth of 127.  Each reader
leaves a rest that is shorter than what it was given, which is why reading ends.
-/

namespace StaticSite
namespace Json

open Text

/-- The blanks that JSON allows between tokens. -/
def isBlank (c : Char) : Bool :=
  c == ' ' || c == '\n' || c == '\t' || c == '\r'

/-- The first character that is no blank, and what follows it. -/
def first? : (chars : List Char) → Option (Taken Char Char chars.length)
  | [] => none
  | c :: rest =>
      if isBlank c then (first? rest).map (·.weaken (Nat.le_succ _))
      else some ⟨c, rest, Nat.lt_succ_self _⟩

/-- The character that an escape stands for, read after its backslash.  A character beyond sixteen
bits is written as two units. -/
def escaped? : List Char → Option (Char × List Char)
  | '"' :: rest => some ('"', rest)
  | '\\' :: rest => some ('\\', rest)
  | '/' :: rest => some ('/', rest)
  | 'b' :: rest => some ('\x08', rest)
  | 'f' :: rest => some ('\x0c', rest)
  | 'n' :: rest => some ('\n', rest)
  | 'r' :: rest => some ('\r', rest)
  | 't' :: rest => some ('\t', rest)
  | 'u' :: a :: b :: c :: d :: rest =>
      match Decimal.digits? 16 [a, b, c, d] with
      | none => none
      | some unit =>
          if unit < 0xD800 || 0xE000 ≤ unit then some (Char.ofNat unit, rest)
          else if 0xDC00 ≤ unit then none
          else
            match rest with
            | '\\' :: 'u' :: e :: f :: g :: h :: rest =>
                match Decimal.digits? 16 [e, f, g, h] with
                | none => none
                | some low =>
                    if 0xDC00 ≤ low && low < 0xE000 then
                      some (Char.ofNat ((unit - 0xD800) * 0x400 + (low - 0xDC00) + 0x10000), rest)
                    else none
            | _ => none
  | _ => none

theorem length_escaped?_lt {chars rest : List Char} {c : Char}
    (found : escaped? chars = some (c, rest)) : rest.length < chars.length := by
  unfold escaped? at found
  split at found
  all_goals try (simp only [Option.some.injEq, Prod.mk.injEq] at found; simp [← found.2])
  · split at found
    · simp at found
    · split at found
      · simp only [Option.some.injEq, Prod.mk.injEq] at found
        simp only [← found.2, List.length_cons]
        omega
      · split at found
        · simp at found
        · split at found
          · split at found
            · simp at found
            · split at found
              · simp only [Option.some.injEq, Prod.mk.injEq] at found
                simp only [← found.2, List.length_cons]
                omega
              · simp at found
          · simp at found
  · simp at found

/-- The characters up to the closing quote, and what follows it.  Control characters must be
escaped. -/
def string? (chars : List Char) : Option (Taken Char (List Char) chars.length) :=
  match chars with
  | [] => none
  | '"' :: rest => some ⟨[], rest, Nat.lt_succ_self _⟩
  | '\\' :: rest =>
      match found : escaped? rest with
      | none => none
      | some (c, after) =>
          have := length_escaped?_lt found
          (string? after).map fun taken =>
            (taken.map (c :: ·)).weaken (by simp only [List.length_cons]; omega)
  | c :: rest =>
      if c.toNat < 0x20 then none
      else (string? rest).map fun taken => (taken.map (c :: ·)).weaken (Nat.le_succ _)
termination_by chars.length

/-- The name of a member and the colon after it. -/
def name? (chars : List Char) : Option (Taken Char (List Char) chars.length) :=
  match first? chars with
  | some ⟨'"', inner, innerShorter⟩ =>
      match string? inner with
      | none => none
      | some name =>
          match first? name.rest with
          | some ⟨':', after, afterShorter⟩ =>
              some ⟨name.value, after,
                Nat.lt_trans afterShorter (Nat.lt_trans name.shorter innerShorter)⟩
          | _ => none
  | _ => none

/-- Drop a word from the front. -/
def word? (word chars : List Char) : Option (List Char) :=
  if word.isPrefixOf chars then some (chars.drop word.length) else none

theorem length_word?_le {word chars rest : List Char} (found : word? word chars = some rest) :
    rest.length ≤ chars.length := by
  unfold word? at found
  split at found
  · simp only [Option.some.injEq] at found
    simp [← found]
  · simp at found

/-- What follows the comma before an item; the first item has none. -/
def afterSeparator? (isFirst : Bool) (chars : List Char) : Option (List Char) :=
  if isFirst then some chars
  else
    match chars with
    | ',' :: rest => some rest
    | _ => none

theorem length_afterSeparator?_le {isFirst : Bool} {chars rest : List Char}
    (found : afterSeparator? isFirst chars = some rest) : rest.length ≤ chars.length := by
  unfold afterSeparator? at found
  split at found
  · simp only [Option.some.injEq] at found
    simp [found]
  · split at found
    · simp only [Option.some.injEq] at found
      simp [found]
    · simp at found

/-- How deep arrays and objects may be nested, and one more. -/
def depthLimit : Nat := 128

mutual

/-- Read a tree, blanks before it allowed.  `depth` levels of nesting are still allowed, the one
of an empty text of brackets included. -/
def value? (depth : Nat) (chars : List Char) : Option (Taken Char Json chars.length) :=
  match first? chars with
  | none => none
  | some ⟨c, rest, shorter⟩ =>
      let atom (word : List Char) (tree : Json) : Option (Taken Char Json chars.length) :=
        match found : word? word rest with
        | none => none
        | some after =>
            some ⟨tree, after, Nat.lt_of_le_of_lt (length_word?_le found) shorter⟩
      match c with
      | 'n' => atom ['u', 'l', 'l'] null
      | 't' => atom ['r', 'u', 'e'] (boolean true)
      | 'f' => atom ['a', 'l', 's', 'e'] (boolean false)
      | '"' =>
          (string? rest).map fun taken =>
            (taken.map fun chars => string (String.ofList chars)).weaken (Nat.le_of_lt shorter)
      | '[' =>
          if depth ≤ 1 then none
          else
            (items? (depth - 1) true rest).map fun taken =>
              (taken.map array).weaken (Nat.le_of_lt shorter)
      | '\x7b' =>
          if depth ≤ 1 then none
          else
            (members? (depth - 1) true rest).map fun taken =>
              (taken.map fun entries =>
                object (entries.foldl (fun all entry => insertMember entry.1 entry.2 all) [])
                ).weaken (Nat.le_of_lt shorter)
      | '-' =>
          match found : Numeral.read? true rest with
          | none => none
          | some (tree, after) =>
              some ⟨tree, after, Nat.lt_trans (Numeral.length_read?_lt found) shorter⟩
      | c =>
          match found : Numeral.read? false (c :: rest) with
          | none => none
          | some (tree, after) =>
              some ⟨tree, after, by
                have := Numeral.length_read?_lt found
                rw [List.length_cons] at this
                omega⟩
termination_by (chars.length, 0)

/-- Read the items of an array up to its closing bracket, at the first item or after one. -/
def items? (depth : Nat) (isFirst : Bool) (chars : List Char) :
    Option (Taken Char (List Json) chars.length) :=
  match first? chars with
  | none => none
  | some ⟨c, rest, shorter⟩ =>
      if c == ']' then some ⟨[], rest, shorter⟩
      else
        match found : afterSeparator? isFirst (c :: rest) with
        | none => none
        | some next =>
            have notLonger : next.length ≤ chars.length := by
              have := length_afterSeparator?_le found
              rw [List.length_cons] at this
              omega
            match value? depth next with
            | none => none
            | some item =>
                have later : item.rest.length < chars.length :=
                  Nat.lt_of_lt_of_le item.shorter notLonger
                (items? depth false item.rest).map fun more =>
                  (more.map (item.value :: ·)).weaken (Nat.le_of_lt later)
termination_by (chars.length, 1)
decreasing_by
  · rcases Nat.lt_or_eq_of_le notLonger with less | same
    · exact Prod.Lex.left _ _ less
    · exact same ▸ Prod.Lex.right _ Nat.zero_lt_one
  · exact Prod.Lex.left _ _ later

/-- Read the members of an object up to its closing brace, at the first member or after one. -/
def members? (depth : Nat) (isFirst : Bool) (chars : List Char) :
    Option (Taken Char (List (String × Json)) chars.length) :=
  match first? chars with
  | none => none
  | some ⟨c, rest, shorter⟩ =>
      if c == '\x7d' then some ⟨[], rest, shorter⟩
      else
        match found : afterSeparator? isFirst (c :: rest) with
        | none => none
        | some next =>
            have notLonger : next.length ≤ chars.length := by
              have := length_afterSeparator?_le found
              rw [List.length_cons] at this
              omega
            match name? next with
            | none => none
            | some name =>
                have nameShorter : name.rest.length < chars.length :=
                  Nat.lt_of_lt_of_le name.shorter notLonger
                match value? depth name.rest with
                | none => none
                | some value =>
                    have later : value.rest.length < chars.length :=
                      Nat.lt_trans value.shorter nameShorter
                    (members? depth false value.rest).map fun more =>
                      (more.map ((String.ofList name.value, value.value) :: ·)).weaken
                        (Nat.le_of_lt later)
termination_by (chars.length, 1)
decreasing_by
  · exact Prod.Lex.left _ _ nameShorter
  · exact Prod.Lex.left _ _ later

end

/-- Read a whole text: one tree with blanks around it. -/
def parse? (chars : List Char) : Option Json :=
  match value? depthLimit chars with
  | none => none
  | some taken => if taken.rest.all isBlank then some taken.value else none

end Json
end StaticSite
