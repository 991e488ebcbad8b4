import StaticSite.Toml.Value

/-!
# TOML documents

This file reads documents line by line: keys with values, headers of tables, comments.  A key is
added to the table of the last header before it.
-/

namespace StaticSite
namespace Toml

/-- The tables so far, and the names of the header that keys belong to. -/
structure Draft where
  entries : Entries
  header : List String

namespace Draft

def empty : Draft := ⟨[], []⟩

/-- Add a value at a key, given by the names before the last one and the last one. -/
def add? (draft : Draft) (path : List String) (name : String) (value : Toml) : Option Draft :=
  (draft.entries.modifyAt? false (fun _ inner => inner.add? path name value)
    draft.header .header).map fun entries => { draft with entries := entries }

/-- Open a table, or one more of several, under its header. -/
def openTable? (draft : Draft) (names : List String) (oneOfMany : Bool) : Option Draft :=
  let name := names.getLast?.getD ""
  let opened :=
    if oneOfMany then draft.entries.openItem? names.dropLast name
    else draft.entries.openTable? names.dropLast name
  opened.map fun entries => ⟨entries, names⟩

end Draft

/-- What follows the end of a line: blanks, maybe a comment, and the line break, if the text goes
on. -/
def endLine? (chars : List Char) : Option (List Char) :=
  let rest := skipBlanks chars
  let rest :=
    match rest with
    | '#' :: comment => comment.dropWhile isText
    | rest => rest
  if rest.isEmpty then some [] else newline? rest

/-- Read a header after its first bracket. -/
def header? (draft : Draft) (chars : List Char) : Option (Draft × List Char) :=
  match chars with
  | '[' :: inner => do
      let (names, rest) ← key? depthLimit inner
      let rest ← after? ']' (← after? ']' rest)
      pure (← draft.openTable? names true, rest)
  | inner => do
      let (names, rest) ← key? depthLimit inner
      let rest ← after? ']' rest
      pure (← draft.openTable? names false, rest)

/-- Read a key with its value. -/
def entry? (draft : Draft) (chars : List Char) : Option (Draft × List Char) := do
  let (names, rest) ← key? depthLimit chars
  let start ← after? '=' rest
  let (value, rest) ← value? depthLimit (skipBlanks start)
  pure (← draft.add? names.dropLast (names.getLast?.getD "") value, rest)

/-- Read lines up to the end of the text.  `steps` bounds their number. -/
def lines? : Nat → Draft → List Char → Option Entries
  | 0, _, _ => none
  | steps + 1, draft, chars =>
      match skipBlanks chars with
      | [] => some draft.entries
      | c :: rest => do
          let (draft, rest) ←
            if c == '[' then header? draft rest
            else if c == '#' || c == '\n' || c == '\r' then some (draft, c :: rest)
            else entry? draft (c :: rest)
          lines? steps draft (← endLine? rest)

/-- The entries of a document.  A byte order mark at its start is passed over. -/
def parse? (text : List Char) : Option Entries :=
  let chars := if text.head? == some '\ufeff' then text.drop 1 else text
  lines? (chars.length + 1) .empty chars

end Toml
end StaticSite
