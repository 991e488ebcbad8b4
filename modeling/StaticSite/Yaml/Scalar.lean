import StaticSite.Decimal.Reading
import StaticSite.Yaml.Cursor

/-!
# Scalars in YAML

This file reads scalars: plain ones, quoted ones, and those that stand as a block below their
header.  Inside plain and quoted scalars a single line break is folded to a space, and further
ones are kept.
-/

namespace StaticSite
namespace Yaml

/-- The blanks before the first line break between two words, and the line breaks. -/
structure Gap where
  blanks : List Char
  breaks : List Char

namespace Gap

def none : Gap := ⟨[], []⟩

def endsLine (gap : Gap) : Bool :=
  !gap.breaks.isEmpty

/-- What a scalar has in place of the gap. -/
def text (gap : Gap) : List Char :=
  match gap.breaks with
  | [] => gap.blanks
  | ['\n'] => [' ']
  | '\n' :: more => more
  | breaks => breaks

end Gap

/-- Step over blanks and line breaks.  After a line break no tab may stand left of the margin. -/
def takeGap? (margin : Nat) (afterBreak : Bool) (cursor : Cursor) : Option (Gap × Cursor) :=
  match found : cursor.takeBreak? with
  | some (c, next) =>
      have := Cursor.length_takeBreak?_lt found
      match takeGap? margin true next with
      | some (gap, last) => some (⟨gap.blanks, c :: gap.breaks⟩, last)
      | none => none
  | none =>
      match start : cursor.rest with
      | [] => some (.none, cursor)
      | c :: _ =>
          if !isBlank c then some (.none, cursor)
          else if afterBreak && c == '\t' && cursor.column < margin then none
          else
            have : (cursor.skip 1).rest.length < cursor.rest.length := by
              simp [Cursor.skip, start]
            match takeGap? margin afterBreak (cursor.skip 1) with
            | some (gap, last) =>
                some (⟨if afterBreak then gap.blanks else c :: gap.blanks, gap.breaks⟩, last)
            | none => none
termination_by cursor.rest.length

/-! ### Quoted scalars -/

/-- The character of a code point with the given number of hexadecimal digits. -/
def coded? (count : Nat) (chars : List Char) : Option Char :=
  if chars.length < count then none
  else
    match Decimal.digits? 16 (chars.take count) with
    | some code => if code.isValidChar then some (Char.ofNat code) else none
    | none => none

/-- The character that an escape stands for, read after its backslash, and the number of
characters that it takes. -/
def escaped? : List Char → Option (Char × Nat)
  | [] => none
  | c :: rest =>
      match c with
      | '0' => some ('\x00', 1)
      | 'a' => some ('\x07', 1)
      | 'b' => some ('\x08', 1)
      | 't' | '\t' => some ('\t', 1)
      | 'n' => some ('\n', 1)
      | 'v' => some ('\x0b', 1)
      | 'f' => some ('\x0c', 1)
      | 'r' => some ('\r', 1)
      | 'e' => some ('\x1b', 1)
      | ' ' | '"' | '/' | '\\' => some (c, 1)
      | 'N' => some ('\u0085', 1)
      | '_' => some ('\u00a0', 1)
      | 'L' => some ('\u2028', 1)
      | 'P' => some ('\u2029', 1)
      | 'x' => (coded? 2 rest).map fun meant => (meant, 3)
      | 'u' => (coded? 4 rest).map fun meant => (meant, 5)
      | 'U' => (coded? 8 rest).map fun meant => (meant, 9)
      | _ => none

/-- What a run of characters in double quotes stands for, and the number of its characters.  It
ends before blanks, line breaks, the closing quote, and a backslash at the end of its line. -/
def doubleQuotedWord? (chars : List Char) : Option (List Char × Nat) :=
  match chars with
  | [] | '"' :: _ => some ([], 0)
  | '\\' :: rest =>
      if (rest.head?.map isBreak).getD false then some ([], 0)
      else
        match escaped? rest with
        | none => none
        | some (c, taken) =>
            match doubleQuotedWord? (rest.drop taken) with
            | some (more, count) => some (c :: more, count + taken + 1)
            | none => none
  | c :: rest =>
      if isBlank c || isBreak c then some ([], 0)
      else
        match doubleQuotedWord? rest with
        | some (more, count) => some (c :: more, count + 1)
        | none => none
termination_by chars.length
decreasing_by all_goals (simp only [List.length_cons, List.length_drop]; omega)

/-- What a run of characters in single quotes stands for, and the number of its characters.  A
quote is written twice. -/
def singleQuotedWord : List Char → List Char × Nat
  | [] => ([], 0)
  | '\'' :: '\'' :: rest =>
      let (more, count) := singleQuotedWord rest
      ('\'' :: more, count + 2)
  | c :: rest =>
      if c == '\'' || isBlank c || isBreak c then ([], 0)
      else
        let (more, count) := singleQuotedWord rest
        (c :: more, count + 1)

/-- Read words and the gaps between them up to the closing quote.  `steps` bounds the words. -/
def quotedFrom (word? : List Char → Option (List Char × Nat)) (quote : Char) :
    Nat → Cursor → Option (List Char × Cursor)
  | 0, _ => none
  | steps + 1, cursor => do
      if cursor.atDocumentMark || cursor.rest.isEmpty then none
      else
        let (word, count) ← word? cursor.rest
        let finish := cursor.skip count
        if finish.sees (· == quote) then pure (word, finish.skip 1)
        else
          let (between, next) ←
            match (finish.skip 1).takeBreak?, finish.sees (· == '\\') with
            | some (_, next), true => do
                let (gap, next) ← takeGap? 0 true next
                pure (gap.breaks, next)
            | _, _ => do
                let (gap, next) ← takeGap? 0 false finish
                pure (gap.text, next)
          let (more, last) ← quotedFrom word? quote steps next
          pure (word ++ between ++ more, last)

/-- Read a quoted scalar from its opening quote on. -/
def quoted? (cursor : Cursor) : Option (List Char × Cursor) :=
  let steps := cursor.rest.length + 1
  if cursor.sees (· == '"') then quotedFrom doubleQuotedWord? '"' steps (cursor.skip 1)
  else quotedFrom (fun chars => some (singleQuotedWord chars)) '\'' steps (cursor.skip 1)

/-! ### Plain scalars -/

/-- Whether a character separates or encloses the items of flow collections. -/
def isFlowIndicator (c : Char) : Bool :=
  [',', '[', ']', '\x7b', '\x7d'].contains c

/-- The run of characters of a plain scalar that comes next.  In flow collections a colon must
not stand right before an indicator. -/
def plainWord? (inFlow : Bool) : List Char → Option (List Char)
  | [] => some []
  | c :: rest =>
      if isBlank c || isBreak c then some []
      else if inFlow && c == ':' &&
          (rest.head?.map fun next => isFlowIndicator next || next == '?').getD false then none
      else if (c == ':' && endsWord rest) || (inFlow && isFlowIndicator c) then some []
      else (plainWord? inFlow rest).map (c :: ·)

/-- Read the gaps and words of a plain scalar that follow a word.  Next to the text stands whether
the line ended behind the last word. -/
def plainFrom (inFlow : Bool) (margin : Nat) :
    Nat → Cursor → Option (List Char × Bool × Cursor)
  | 0, _ => none
  | steps + 1, cursor => do
      let (gap, next) ← takeGap? margin false cursor
      if (!inFlow && next.column < margin) || next.atDocumentMark || next.sees (· == '#') then
        pure ([], gap.endsLine, next)
      else
        let word ← plainWord? inFlow next.rest
        if word.isEmpty then pure ([], gap.endsLine, next)
        else
          let (more, endsLine, last) ← plainFrom inFlow margin steps (next.skip word.length)
          pure (gap.text ++ word ++ more, endsLine, last)

/-- Read a plain scalar.  Its further lines must not start left of the margin. -/
def plain? (inFlow : Bool) (margin : Nat) (cursor : Cursor) :
    Option (List Char × Bool × Cursor) := do
  let word ← plainWord? inFlow cursor.rest
  let (more, endsLine, last) ←
    plainFrom inFlow margin (cursor.rest.length + 1) (cursor.skip word.length)
  pure (word ++ more, endsLine, last)

/-! ### Block scalars -/

/-- What becomes of the line breaks at the end of a block scalar. -/
inductive Chomping where
  | strip
  | clip
  | keep
  deriving DecidableEq, Repr

structure BlockHeader where
  folded : Bool
  chomping : Chomping
  /-- How far the lines are indented against their parent, if the header says so. -/
  increment : Option Nat

/-- Read a sign for the line breaks at the end. -/
def chomping? (cursor : Cursor) : Option (Chomping × Cursor) :=
  if cursor.sees (· == '+') then some (.keep, cursor.skip 1)
  else if cursor.sees (· == '-') then some (.strip, cursor.skip 1)
  else none

/-- Read a digit for the indentation, which must not be zero. -/
def increment? (cursor : Cursor) : Option (Option Nat × Cursor) :=
  match cursor.rest with
  | c :: _ =>
      if !c.isDigit then some (none, cursor)
      else if c == '0' then none
      else some (Decimal.digit? c, cursor.skip 1)
  | [] => some (none, cursor)

/-- Read the header of a block scalar with its line break.  The sign may come on either side of
the digit. -/
def blockHeader? (cursor : Cursor) : Option (BlockHeader × Cursor) := do
  let folded := cursor.sees (· == '>')
  let afterMark := cursor.skip 1
  match chomping? afterMark with
  | some (chomping, afterSign) =>
      let (increment, finish) ← increment? afterSign
      pure (⟨folded, chomping, increment⟩, ← finish.finishLine?)
  | none =>
      let (increment, afterDigit) ← increment? afterMark
      let (chomping, finish) :=
        match increment with
        | none => (Chomping.clip, afterDigit)
        | some _ => (chomping? afterDigit).getD (Chomping.clip, afterDigit)
      pure (⟨folded, chomping, increment⟩, ← finish.finishLine?)

/-- Step over indentation and empty lines up to a line with text.  The indentation is `none` while
it is unknown.  The line breaks are given, and the deepest indentation met. -/
def takeEmptyLines? (indentation : Option Nat) (deepest : Nat) (cursor : Cursor) :
    Option (List Char × Nat × Cursor) :=
  let (spaces, _) := cursor.takeWhile (· == ' ')
  let count :=
    match indentation with
    | none => spaces.length
    | some indentation => min spaces.length (indentation - cursor.column)
  let reached := cursor.skip count
  let deepest := max deepest reached.column
  if indentation.all (fun indentation => reached.column < indentation) && reached.sees (· == '\t') then none
  else
    match found : reached.takeBreak? with
    | some (c, next) =>
        have : next.rest.length < cursor.rest.length := by
          have := Cursor.length_takeBreak?_lt found
          simp only [reached, Cursor.skip, List.length_drop] at this
          omega
        match takeEmptyLines? indentation deepest next with
        | some (breaks, deepest, last) => some (c :: breaks, deepest, last)
        | none => none
    | none => some ([], deepest, reached)
termination_by cursor.rest.length

/-- The lines of a block scalar so far. -/
structure BlockText where
  text : List Char
  /-- The line break after the last line. -/
  lastBreak : List Char
  /-- The line breaks of the empty lines after it. -/
  emptyLines : List Char
  /-- Whether the last line starts with a blank. -/
  startsBlank : Bool

namespace BlockText

/-- What stands between the last line and the next one.  Single line breaks between lines that
start with no blank are folded. -/
def joint (block : BlockText) (folded startsBlank : Bool) : List Char :=
  if folded && block.lastBreak == ['\n'] && !block.startsBlank && !startsBlank then
    if block.emptyLines.isEmpty then [' '] else block.emptyLines
  else block.lastBreak ++ block.emptyLines

/-- The text with what is kept of the line breaks at the end. -/
def chomped (block : BlockText) : Chomping → List Char
  | .strip => block.text
  | .clip => block.text ++ block.lastBreak
  | .keep => block.text ++ block.lastBreak ++ block.emptyLines

end BlockText

/-- Read the lines of a block scalar that have its indentation. -/
def blockLines? (folded : Bool) (indentation : Nat) :
    Nat → BlockText → Cursor → Option (BlockText × Cursor)
  | 0, _, _ => none
  | steps + 1, block, cursor =>
      if cursor.column != indentation || cursor.rest.isEmpty then some (block, cursor)
      else do
        let startsBlank := cursor.sees isBlank
        let (line, finish) := cursor.takeWhile fun c => !isBreak c
        let (lastBreak, next) :=
          match finish.takeBreak? with
          | some (c, next) => ([c], next)
          | none => ([], finish)
        let (emptyLines, _, next) ← takeEmptyLines? (some indentation) 0 next
        let text := block.text ++ block.joint folded startsBlank ++ line
        blockLines? folded indentation steps ⟨text, lastBreak, emptyLines, startsBlank⟩ next

/-- Read a block scalar from its header on.  `parent` is the indentation of the collection around
it, less than zero outside of collections. -/
def block? (parent : Int) (cursor : Cursor) : Option (List Char × Cursor) := do
  let (header, next) ← blockHeader? cursor
  let fixed := header.increment.map fun increment => parent.toNat + increment
  let (emptyLines, deepest, first) ← takeEmptyLines? fixed 0 next
  let indentation := fixed.getD (max deepest (max (parent + 1).toNat 1))
  let (block, last) ←
    blockLines? header.folded indentation (cursor.rest.length + 1) ⟨[], [], emptyLines, false⟩ first
  pure (block.chomped header.chomping, last)

end Yaml
end StaticSite
