import StaticSite.Text.Bytes
import StaticSite.Text.Taken

/-!
# Cursors over YAML text

This file gives the places between the characters of a YAML text and the ways to step over what
follows.  A line ends with a line feed, a carriage return, both in this order, or one of three
further break characters.
-/

namespace StaticSite
namespace Yaml

/-- A place in a text: what follows it, and how many bytes, lines, and characters of its line come
before it. -/
structure Cursor where
  rest : List Char
  index : Nat
  line : Nat
  column : Nat

/-- Whether a character may occur in a YAML text. -/
def isAllowed (c : Char) : Bool :=
  let code := c.toNat
  code == 0x09 || code == 0x0A || code == 0x0D || (0x20 ≤ code && code ≤ 0x7E) || code == 0x85 ||
    (0xA0 ≤ code && code ≤ 0xD7FF) || (0xE000 ≤ code && code ≤ 0xFFFD) || 0x10000 ≤ code

def isBreak (c : Char) : Bool :=
  c == '\n' || c == '\r' || c == '\u0085' || c == '\u2028' || c == '\u2029'

def isBlank (c : Char) : Bool :=
  c == ' ' || c == '\t'

/-- Whether a character may be part of an anchor or of the handle of a tag. -/
def isWord (c : Char) : Bool :=
  c.isAlphanum || c == '_' || c == '-'

/-- Whether nothing follows, or a blank or a line break. -/
def endsWord : List Char → Bool
  | [] => true
  | c :: _ => isBlank c || isBreak c

namespace Cursor

/-- The start of a text. -/
def start (text : List Char) : Cursor := ⟨text, 0, 0, 0⟩

/-- Whether a character follows that passes a test. -/
def sees (cursor : Cursor) (test : Char → Bool) : Bool :=
  (cursor.rest.head?.map test).getD false

/-- Step over some characters of the line. -/
def skip (cursor : Cursor) (count : Nat) : Cursor :=
  ⟨cursor.rest.drop count, cursor.index + Text.byteLength (cursor.rest.take count), cursor.line,
    cursor.column + count⟩

/-- Step over the characters of the line that pass a test, and give them. -/
def takeWhile (cursor : Cursor) (test : Char → Bool) : List Char × Cursor :=
  let (taken, rest) := Text.splitWhile test cursor.rest
  (taken,
    ⟨rest, cursor.index + Text.byteLength taken, cursor.line, cursor.column + taken.length⟩)

/-- Step over the characters of the line that pass a test. -/
def skipWhile (cursor : Cursor) (test : Char → Bool) : Cursor :=
  (cursor.takeWhile test).2

/-- Step over what is left of the line. -/
def skipLine (cursor : Cursor) : Cursor :=
  cursor.skipWhile fun c => !isBreak c

/-- Step over a line break, and give the character that it stands for. -/
def takeBreak? (cursor : Cursor) : Option (Char × Cursor) :=
  match cursor.rest with
  | '\r' :: '\n' :: rest => some ('\n', ⟨rest, cursor.index + 2, cursor.line + 1, 0⟩)
  | c :: rest =>
      if isBreak c then
        let kept := if c == '\u2028' || c == '\u2029' then c else '\n'
        some (kept, ⟨rest, cursor.index + c.utf8Size, cursor.line + 1, 0⟩)
      else none
  | [] => none

/-- Step over a byte order mark, if one starts the line. -/
def skipByteOrderMark (cursor : Cursor) : Cursor :=
  if cursor.column == 0 && cursor.sees (· == '\ufeff') then cursor.skip 1 else cursor

/-- Step over a comment, if one follows. -/
def skipComment (cursor : Cursor) : Cursor :=
  if cursor.sees (· == '#') then cursor.skipLine else cursor

/-- Step over blanks, a comment and a line break; none if something else follows. -/
def finishLine? (cursor : Cursor) : Option Cursor :=
  let finish := (cursor.skipWhile isBlank).skipComment
  match finish.takeBreak? with
  | some (_, next) => some next
  | none => if finish.rest.isEmpty then some finish else none

/-- Whether a line starts here that starts or ends a document. -/
def atDocumentMark (cursor : Cursor) : Bool :=
  cursor.column == 0 &&
    (['-', '-', '-'].isPrefixOf cursor.rest || ['.', '.', '.'].isPrefixOf cursor.rest) &&
    endsWord (cursor.rest.drop 3)

theorem length_takeWhile_le (cursor : Cursor) (test : Char → Bool) :
    (cursor.takeWhile test).2.rest.length ≤ cursor.rest.length :=
  Text.length_splitWhile_le test cursor.rest

theorem length_skipWhile_le (cursor : Cursor) (test : Char → Bool) :
    (cursor.skipWhile test).rest.length ≤ cursor.rest.length :=
  cursor.length_takeWhile_le test

theorem length_skipByteOrderMark_le (cursor : Cursor) :
    cursor.skipByteOrderMark.rest.length ≤ cursor.rest.length := by
  unfold skipByteOrderMark
  split
  · simp [skip]
  · exact Nat.le_refl _

theorem length_skipComment_le (cursor : Cursor) :
    cursor.skipComment.rest.length ≤ cursor.rest.length := by
  unfold skipComment
  split
  · exact cursor.length_skipWhile_le _
  · exact Nat.le_refl _

theorem length_takeBreak?_lt {cursor next : Cursor} {c : Char}
    (found : cursor.takeBreak? = some (c, next)) :
    next.rest.length < cursor.rest.length := by
  unfold takeBreak? at found
  split at found
  · next start =>
    simp only [Option.some.injEq, Prod.mk.injEq] at found
    simp only [← found.2, start, List.length_cons]
    omega
  · next start =>
    split at found
    · simp only [Option.some.injEq, Prod.mk.injEq] at found
      simp [← found.2, start]
    · simp at found
  · simp at found

end Cursor
end Yaml
end StaticSite
