import StaticSite.Yaml.Property

/-!
# Layout of YAML

This file keeps track of indentation and of keys without a mark of their own.  A token that may
turn out to be such a key is remembered; the colon behind it puts the key token, and the start of
a mapping if the key is indented deeper than what surrounds it, in front of it.
-/

namespace StaticSite
namespace Yaml

/-- A token that is a key if a colon follows it. -/
structure PossibleKey where
  /-- Whether nothing else could stand at its place. -/
  required : Bool
  /-- Number of tokens before it. -/
  number : Nat
  index : Nat
  line : Nat
  column : Nat

/-- The tokens so far, and what they depend on. -/
structure Layout where
  tokens : List Token
  /-- Indentation of the innermost block collection, less than zero outside of all. -/
  indentation : Int
  /-- Indentations of the collections around it, the innermost first. -/
  outer : List Int
  /-- The possible key outside of flow collections. -/
  blockKey : Option PossibleKey
  /-- The possible key of each open flow collection, the innermost first. -/
  flowKeys : List (Option PossibleKey)
  /-- Whether a key may start here without a mark of its own. -/
  keyAllowed : Bool

namespace Layout

def start : Layout where
  tokens := []
  indentation := -1
  outer := []
  blockKey := none
  flowKeys := []
  keyAllowed := true

def inFlow (layout : Layout) : Bool :=
  !layout.flowKeys.isEmpty

/-- The possible key of the innermost collection. -/
def key? (layout : Layout) : Option PossibleKey :=
  match layout.flowKeys with
  | [] => layout.blockKey
  | key :: _ => key

def setKey (layout : Layout) (key : Option PossibleKey) : Layout :=
  match layout.flowKeys with
  | [] => { layout with blockKey := key }
  | _ :: outer => { layout with flowKeys := key :: outer }

def push (layout : Layout) (token : Token) : Layout :=
  { layout with tokens := token :: layout.tokens }

def insert (layout : Layout) (number : Nat) (token : Token) : Layout :=
  let later := layout.tokens.length - number
  { layout with tokens := layout.tokens.take later ++ token :: layout.tokens.drop later }

/-- Say whether a key may start next. -/
def allowKey (layout : Layout) (allowed : Bool) : Layout :=
  { layout with keyAllowed := allowed }

/-- Give up a possible key, if it is not required. -/
def dropped? : Option PossibleKey → Option (Option PossibleKey)
  | some key => if key.required then none else some none
  | none => some none

/-- Give up the possible key of the innermost collection. -/
def dropKey? (layout : Layout) : Option Layout :=
  (dropped? layout.key?).map layout.setKey

/-- A key that may still be one.  Keys end on their line, within 1024 bytes. -/
def fresh? (cursor : Cursor) (key : Option PossibleKey) : Option (Option PossibleKey) :=
  match key with
  | some possible =>
      if possible.line < cursor.line || possible.index + 1024 < cursor.index then dropped? key
      else some key
  | none => some none

/-- Give up all possible keys that have become too long. -/
def dropStaleKeys? (layout : Layout) (cursor : Cursor) : Option Layout := do
  let blockKey ← fresh? cursor layout.blockKey
  let flowKeys ← layout.flowKeys.mapM (fresh? cursor)
  pure { layout with blockKey, flowKeys }

/-- Remember that the next token may be a key. -/
def saveKey? (layout : Layout) (cursor : Cursor) : Option Layout :=
  if layout.keyAllowed then do
    let dropped ← layout.dropKey?
    let required := !layout.inFlow && layout.indentation == cursor.column
    pure (dropped.setKey
      (some ⟨required, layout.tokens.length, cursor.index, cursor.line, cursor.column⟩))
  else some layout

/-- Start a block collection behind the given number of tokens, if its column is deeper than the
current indentation. -/
def indent (layout : Layout) (column number : Nat) (start : Token) : Layout :=
  if !layout.inFlow && layout.indentation < column then
    { layout.insert number start with
      indentation := column
      outer := layout.indentation :: layout.outer }
  else layout

/-- End the block collections that are deeper than the given column. -/
def dedentFrom (layout : Layout) (column : Int) : List Int → Layout
  | [] => layout
  | above :: outer =>
      if column < layout.indentation then
        dedentFrom { layout.push .blockEnd with indentation := above, outer := outer } column outer
      else layout

/-- End the block collections that are deeper than the given column, outside of flow
collections. -/
def dedent (layout : Layout) (column : Int) : Layout :=
  if layout.inFlow then layout else layout.dedentFrom column layout.outer

def openFlow? (layout : Layout) (cursor : Cursor) (token : Token) : Option Layout := do
  let saved ← layout.saveKey? cursor
  pure (({ saved with flowKeys := none :: saved.flowKeys }.allowKey true).push token)

def closeFlow? (layout : Layout) (token : Token) : Option Layout := do
  let dropped ← layout.dropKey?
  pure (({ dropped with flowKeys := dropped.flowKeys.drop 1 }.allowKey false).push token)

/-- A mark that starts an item or a key; outside of flow collections it may start a block
collection. -/
def mark? (layout : Layout) (cursor : Cursor) (collection mark : Token) (allowed : Bool) :
    Option Layout :=
  if !layout.inFlow && !layout.keyAllowed then none
  else do
    let dropped ← (layout.indent cursor.column layout.tokens.length collection).dropKey?
    pure ((dropped.allowKey allowed).push mark)

/-- The colon between a key and its value. -/
def value? (layout : Layout) (cursor : Cursor) : Option Layout :=
  match layout.key? with
  | some key =>
      let marked := layout.insert key.number .key
      let started := marked.indent key.column key.number .blockMappingStart
      some (((started.setKey none).allowKey false).push .value)
  | none =>
      if layout.inFlow then some ((layout.allowKey false).push .value)
      else if layout.keyAllowed then
        let started := layout.indent cursor.column layout.tokens.length .blockMappingStart
        some ((started.allowKey true).push .value)
      else none

/-- A mark between documents, or a directive. -/
def betweenDocuments? (layout : Layout) (token : Token) : Option Layout := do
  let dropped ← (layout.dedent (-1)).dropKey?
  pure ((dropped.allowKey false).push token)

/-- A node that may be a key. -/
def node? (layout : Layout) (cursor : Cursor) (token : Token) : Option Layout := do
  let saved ← layout.saveKey? cursor
  pure ((saved.allowKey false).push token)

def finish? (layout : Layout) : Option (List Token) := do
  let dropped ← (layout.dedent (-1)).dropKey?
  pure dropped.tokens.reverse

end Layout
end Yaml
end StaticSite
