import StaticSite.Decimal.Reading
import StaticSite.Yaml.Cursor

/-!
# Tokens of YAML and their properties

This file gives the tokens of a YAML text, and reads the properties that stand in front of nodes and
the directives that stand in front of documents.  Indentation shows only in the tokens that start
and end block collections.
-/

namespace StaticSite
namespace Yaml

/-! ### Tokens -/

abbrev TagText := List UInt8

/-- A tag as it was written: the handle that stands for its front, and the bytes after it. -/
structure TagSpelling where
  handle : TagText
  suffix : TagText
  deriving DecidableEq, Repr

inductive Token where
  | versionDirective (major minor : Nat)
  | tagDirective (handle expansion : TagText)
  | documentStart
  | documentEnd
  | blockSequenceStart
  | blockMappingStart
  | blockEnd
  | flowSequenceStart
  | flowSequenceEnd
  | flowMappingStart
  | flowMappingEnd
  | blockEntry
  | flowEntry
  | key
  | value
  | alias (name : String)
  | anchor (name : String)
  | tag (spelling : TagSpelling)
  /-- A scalar without quotes and not in a block is plain. -/
  | scalar (text : String) (plain : Bool)
  deriving DecidableEq, Repr

/-! ### Anchors, tags and directives -/

/-- The bytes of some ASCII characters. -/
def bytesOf (chars : List Char) : TagText :=
  chars.map fun c => UInt8.ofNat c.toNat

/-- Read the name of an anchor or alias, its mark included.  What follows must not look like part
of the name. -/
def name? (cursor : Cursor) : Option (String × Cursor) :=
  let (name, finish) := (cursor.skip 1).takeWhile isWord
  if name.isEmpty then none
  else if endsWord finish.rest || finish.sees ['?', ':', ',', ']', '\x7d', '%', '@', '\x60'].contains
  then some (String.ofList name, finish)
  else none

/-- Whether a character may stand for itself in a tag; commas and square brackets only where
nothing else ends the tag. -/
def isTagCharacter (delimited : Bool) (c : Char) : Bool :=
  isWord c || ";/?:@&=+$.!~*'()".contains c || (delimited && [',', '[', ']'].contains c)

/-- How many bytes the UTF-8 form of a character has that starts with the given byte. -/
def encodedLength (first : Nat) : Nat :=
  if first < 0x80 then 1
  else if 0xC0 ≤ first && first < 0xE0 then 2
  else if 0xE0 ≤ first && first < 0xF0 then 3
  else if 0xF0 ≤ first && first < 0xF8 then 4
  else 0

/-- Read the escaped bytes of one character; `pending` of them are still to come, none before the
first. -/
def escapedBytes? (pending : Option Nat) (chars : List Char) : Option (TagText × List Char) :=
  match chars with
  | '%' :: high :: low :: rest => do
      let byte ← Decimal.digits? 16 [high, low]
      let following ←
        match pending with
        | none => if encodedLength byte == 0 then none else some (encodedLength byte - 1)
        | some pending => if 0x80 ≤ byte && byte < 0xC0 then some (pending - 1) else none
      if following == 0 then pure ([UInt8.ofNat byte], rest)
      else
        let (more, rest) ← escapedBytes? (some following) rest
        pure (UInt8.ofNat byte :: more, rest)
  | _ => none

/-- Read the characters of a tag.  `steps` bounds their number. -/
def tagBytes? (delimited : Bool) : Nat → List Char → Option (TagText × List Char)
  | 0, _ => none
  | _ + 1, [] => some ([], [])
  | steps + 1, c :: rest =>
      if c == '%' then do
        let (bytes, rest) ← escapedBytes? none (c :: rest)
        let (more, rest) ← tagBytes? delimited steps rest
        pure (bytes ++ more, rest)
      else if isTagCharacter delimited c then do
        let (more, rest) ← tagBytes? delimited steps rest
        pure (UInt8.ofNat c.toNat :: more, rest)
      else some ([], c :: rest)

/-- Read the characters of a tag, at least one if `required`.  A zero byte ends the tag that is
meant. -/
def tagText? (delimited required : Bool) (cursor : Cursor) : Option (TagText × Cursor) := do
  let (bytes, rest) ← tagBytes? delimited (cursor.rest.length + 1) cursor.rest
  let taken := cursor.rest.length - rest.length
  if required && taken == 0 then none
  else pure (bytes.takeWhile (· != 0), cursor.skip taken)

/-- Read a handle: an exclamation mark, and maybe a word and another one. -/
def handle? (cursor : Cursor) : Option (List Char × Cursor) :=
  if cursor.sees (· == '!') then
    let (word, finish) := (cursor.skip 1).takeWhile isWord
    if finish.sees (· == '!') then some ('!' :: word ++ ['!'], finish.skip 1)
    else some ('!' :: word, finish)
  else none

/-- Read a tag: one in angle brackets, one with a handle, or a local one. -/
def tag? (inFlow : Bool) (cursor : Cursor) : Option (TagSpelling × Cursor) := do
  let (spelling, finish) ←
    if (cursor.skip 1).sees (· == '<') then do
      let (suffix, finish) ← tagText? true true (cursor.skip 2)
      if finish.sees (· == '>') then pure (TagSpelling.mk [] suffix, finish.skip 1) else none
    else do
      let (handle, afterHandle) ← handle? cursor
      if 1 < handle.length && handle.getLast? == some '!' then
        let (suffix, finish) ← tagText? false true afterHandle
        pure (TagSpelling.mk (bytesOf handle) suffix, finish)
      else
        let (more, finish) ← tagText? false false afterHandle
        let suffix := bytesOf (handle.drop 1) ++ more
        pure (if suffix.isEmpty then ⟨[], bytesOf ['!']⟩ else ⟨bytesOf ['!'], suffix⟩, finish)
  if endsWord finish.rest || (inFlow && finish.sees (· == ',')) then pure (spelling, finish)
  else none

/-- Read a number of a version, of at most nine digits. -/
def versionNumber? (cursor : Cursor) : Option (Nat × Cursor) :=
  let (digits, finish) := cursor.takeWhile Char.isDigit
  if digits.isEmpty || 9 < digits.length then none else some (Decimal.value digits, finish)

/-- Read a directive with its line break, its mark included. -/
def directive? (cursor : Cursor) : Option (Token × Cursor) := do
  let (name, afterName) := (cursor.skip 1).takeWhile isWord
  if name.isEmpty || !endsWord afterName.rest then none
  else
    let operands := afterName.skipWhile isBlank
    if name == ['Y', 'A', 'M', 'L'] then
      let (major, point) ← versionNumber? operands
      if !point.sees (· == '.') then none
      else
        let (minor, finish) ← versionNumber? (point.skip 1)
        pure (.versionDirective major minor, ← finish.finishLine?)
    else if name == ['T', 'A', 'G'] then
      let (handle, afterHandle) ← handle? operands
      if handle.getLast? != some '!' || !afterHandle.sees isBlank then none
      else
        let (expansion, finish) ← tagText? true true (afterHandle.skipWhile isBlank)
        if endsWord finish.rest then
          pure (.tagDirective (bytesOf handle) expansion, ← finish.finishLine?)
        else none
    else none

end Yaml
end StaticSite
