import StaticSite.Yaml.Layout
import StaticSite.Yaml.Scalar

/-!
# Cutting YAML into tokens

This file reads the tokens of a YAML text one by one.  What the next characters mean depends on
the column, on whether a flow collection is open, and on whether a key may start.
-/

namespace StaticSite
namespace Yaml

/-- Step over blanks, comments and line breaks up to the next token.  A tab counts as a blank only
where no key may start, and after a line break a key may start outside of flow collections.  A byte
order mark that starts a line is passed over, and what follows it stands one column further. -/
def toToken (inFlow keyAllowed : Bool) (cursor : Cursor) : Bool × Cursor :=
  let isSpace := fun c => c == ' ' || (c == '\t' && (inFlow || !keyAllowed))
  let finish := (cursor.skipByteOrderMark.skipWhile isSpace).skipComment
  match found : finish.takeBreak? with
  | some (_, next) =>
      have : next.rest.length < cursor.rest.length :=
        Nat.lt_of_lt_of_le (Cursor.length_takeBreak?_lt found)
          (Nat.le_trans (Cursor.length_skipComment_le _)
            (Nat.le_trans (Cursor.length_skipWhile_le _ _)
              (Cursor.length_skipByteOrderMark_le _)))
      toToken inFlow (keyAllowed || !inFlow) next
  | none => (keyAllowed, finish)
termination_by cursor.rest.length

/-- Whether a plain scalar may start with the given character, before the others. -/
def startsPlain (inFlow : Bool) (c : Char) (rest : List Char) : Bool :=
  !(isBlank c || isBreak c || "-?:,[]\x7b\x7d#&*!|>'\"%@\x60".contains c) ||
    (c == '-' && !(rest.head?.map isBlank).getD false) ||
    (!inFlow && (c == '?' || c == ':') && !endsWord rest)

/-- Read the token that starts with the given character, before the others. -/
def token? (layout : Layout) (cursor : Cursor) (c : Char) (rest : List Char) :
    Option (Layout × Cursor) := do
  let one := cursor.skip 1
  let inFlow := layout.inFlow
  if cursor.column == 0 && c == '%' then
    let (token, last) ← directive? cursor
    pure (← layout.betweenDocuments? token, last)
  else if cursor.atDocumentMark then
    let token := if c == '-' then Token.documentStart else Token.documentEnd
    pure (← layout.betweenDocuments? token, cursor.skip 3)
  else if c == '[' then pure (← layout.openFlow? cursor .flowSequenceStart, one)
  else if c == '\x7b' then pure (← layout.openFlow? cursor .flowMappingStart, one)
  else if c == ']' then pure (← layout.closeFlow? .flowSequenceEnd, one)
  else if c == '\x7d' then pure (← layout.closeFlow? .flowMappingEnd, one)
  else if c == ',' then pure (((← layout.dropKey?).allowKey true).push .flowEntry, one)
  else if c == '-' && endsWord rest then
    pure (← layout.mark? cursor .blockSequenceStart .blockEntry true, one)
  else if c == '?' && (inFlow || endsWord rest) then
    pure (← layout.mark? cursor .blockMappingStart .key !inFlow, one)
  else if c == ':' && (inFlow || endsWord rest) then pure (← layout.value? cursor, one)
  else if c == '*' then
    let (name, last) ← name? cursor
    pure (← layout.node? cursor (.alias name), last)
  else if c == '&' then
    let (name, last) ← name? cursor
    pure (← layout.node? cursor (.anchor name), last)
  else if c == '!' then
    let (spelling, last) ← tag? inFlow cursor
    pure (← layout.node? cursor (.tag spelling), last)
  else if !inFlow && (c == '|' || c == '>') then
    let (text, last) ← block? layout.indentation cursor
    let dropped ← layout.dropKey?
    pure ((dropped.allowKey true).push (.scalar (String.ofList text) false), last)
  else if c == '\'' || c == '"' then
    let (text, last) ← quoted? cursor
    pure (← layout.node? cursor (.scalar (String.ofList text) false), last)
  else if startsPlain inFlow c rest then
    let margin := (layout.indentation + 1).toNat
    let (text, endsLine, last) ← plain? inFlow margin cursor
    let next ← layout.node? cursor (.scalar (String.ofList text) true)
    pure (if endsLine then next.allowKey true else next, last)
  else none

/-- Read all tokens from a place on.  `steps` bounds their number. -/
def tokensFrom? : Nat → Layout → Cursor → Option (List Token)
  | 0, _, _ => none
  | steps + 1, layout, cursor => do
      let (keyAllowed, here) := toToken layout.inFlow layout.keyAllowed cursor
      let fresh ← (layout.allowKey keyAllowed).dropStaleKeys? here
      let level := fresh.dedent here.column
      match here.rest with
      | [] => level.finish?
      | c :: rest => do
          let (next, last) ← token? level here c rest
          tokensFrom? steps next last

def tokenize? (text : List Char) : Option (List Token) :=
  if text.all isAllowed then tokensFrom? (text.length + 1) .start (Cursor.start text) else none

end Yaml
end StaticSite
