import StaticSite.Yaml.Property

/-!
# Nodes of YAML

This file builds the tree of nodes that tokens describe.  A node that is left out between two
marks is an empty plain scalar.  One text holds one document.
-/

namespace StaticSite
namespace Yaml

/-- What stands in front of a node. -/
structure Properties where
  anchor : Option String
  tag : Option TagText

/-- A node of a document, its aliases given as `reference`. -/
inductive Node (reference : Type) where
  | alias (target : reference)
  | scalar (properties : Properties) (text : String) (plain : Bool)
  | sequence (properties : Properties) (items : List (Node reference))
  | mapping (properties : Properties) (entries : List (Node reference × Node reference))

/-- A node with aliases by name, as it was written. -/
abbrev WrittenNode := Node String

/-- The handles of tags with the texts that they stand for. -/
abbrev Handles := List (TagText × TagText)

def Properties.none : Properties := ⟨.none, .none⟩

/-- What stands for a node that was left out. -/
def omitted : WrittenNode := .scalar .none "" true

/-- The bytes of `!`. -/
def localHandle : TagText := [0x21]

/-- The handles that every document knows: `!` for itself, and `!!` for the tags of YAML. -/
def knownHandles : Handles :=
  [(localHandle, localHandle), ([0x21, 0x21], "tag:yaml.org,2002:".toUTF8.toList)]

/-- The tag that a spelling stands for. -/
def TagSpelling.resolve? (handles : Handles) (spelling : TagSpelling) : Option TagText :=
  if spelling.handle.isEmpty then some spelling.suffix
  else (handles.lookup spelling.handle).map (· ++ spelling.suffix)

/-- Read the anchor and the tag of a node, in either order. -/
def readProperties (tokens : List Token) :
    (Option String × Option TagSpelling) × List Token :=
  match tokens with
  | .anchor name :: .tag tag :: rest | .tag tag :: .anchor name :: rest =>
      ((some name, some tag), rest)
  | .anchor name :: rest => ((some name, none), rest)
  | .tag tag :: rest => ((none, some tag), rest)
  | _ => ((none, none), tokens)

/-- Whether one of some tokens comes next. -/
def comesNext (these : List Token) : List Token → Bool
  | [] => false
  | token :: _ => these.contains token

/-- Where a node stands. -/
structure Position where
  block : Bool
  /-- Whether a sequence may start here without indentation. -/
  flushSequence : Bool

/-- Inside flow collections. -/
def Position.flow : Position := ⟨false, false⟩

mutual

/-- Read a node.  Every reader goes down one step. -/
def node? (handles : Handles) :
    Nat → Position → List Token → Option (WrittenNode × List Token)
  | 0, _, _ => none
  | _ + 1, _, .alias name :: rest => some (.alias name, rest)
  | steps + 1, position, tokens => do
      let ((anchor, spelling), rest) := readProperties tokens
      let tag ← spelling.mapM (TagSpelling.resolve? handles)
      let properties : Properties := ⟨anchor, tag⟩
      if position.flushSequence && comesNext [.blockEntry] rest then
        let (items, rest) ← flushItems? handles steps rest
        pure (.sequence properties items, rest)
      else
        match rest, position.block with
        | .scalar text plain :: rest, _ =>
            pure (.scalar properties text plain, rest)
        | .flowSequenceStart :: rest, _ =>
            let (items, rest) ← flowItems? handles steps true rest
            pure (.sequence properties items, rest)
        | .flowMappingStart :: rest, _ =>
            let (entries, rest) ← flowEntries? handles steps true rest
            pure (.mapping properties entries, rest)
        | .blockSequenceStart :: rest, true =>
            let (items, rest) ← blockItems? handles steps rest
            pure (.sequence properties items, rest)
        | .blockMappingStart :: rest, true =>
            let (entries, rest) ← blockEntries? handles steps rest
            pure (.mapping properties entries, rest)
        | rest, _ =>
            if anchor.isSome || tag.isSome then pure (.scalar properties "" true, rest) else none

/-- Read a node unless one of the given tokens comes next. -/
def nodeBefore? (handles : Handles) :
    Nat → Position → List Token → List Token → Option (WrittenNode × List Token)
  | 0, _, _, _ => none
  | steps + 1, position, stops, tokens =>
      if comesNext stops tokens then some (omitted, tokens)
      else node? handles steps position tokens

/-- Read the value after a key, if there is one. -/
def valueBefore? (handles : Handles) :
    Nat → Position → List Token → List Token → Option (WrittenNode × List Token)
  | 0, _, _, _ => none
  | steps + 1, position, stops, .value :: rest => nodeBefore? handles steps position stops rest
  | _ + 1, _, _, tokens => some (omitted, tokens)

/-- Read the items of a block sequence and its end. -/
def blockItems? (handles : Handles) :
    Nat → List Token → Option (List WrittenNode × List Token)
  | steps + 1, .blockEntry :: rest => do
      let (item, rest) ← nodeBefore? handles steps ⟨true, false⟩ [.blockEntry, .blockEnd] rest
      let (items, rest) ← blockItems? handles steps rest
      pure (item :: items, rest)
  | _ + 1, .blockEnd :: rest => some ([], rest)
  | _, _ => none

/-- Read the items of a sequence without indentation. -/
def flushItems? (handles : Handles) :
    Nat → List Token → Option (List WrittenNode × List Token)
  | 0, _ => none
  | steps + 1, .blockEntry :: rest => do
      let stops := [.blockEntry, .key, .value, .blockEnd]
      let (item, rest) ← nodeBefore? handles steps ⟨true, false⟩ stops rest
      let (items, rest) ← flushItems? handles steps rest
      pure (item :: items, rest)
  | _ + 1, tokens => some ([], tokens)

/-- Read the entries of a block mapping and its end. -/
def blockEntries? (handles : Handles) :
    Nat → List Token → Option (List (WrittenNode × WrittenNode) × List Token)
  | steps + 1, .key :: rest => do
      let stops := [.key, .value, .blockEnd]
      let (key, rest) ← nodeBefore? handles steps ⟨true, true⟩ stops rest
      let (value, rest) ← valueBefore? handles steps ⟨true, true⟩ stops rest
      let (entries, rest) ← blockEntries? handles steps rest
      pure ((key, value) :: entries, rest)
  | _ + 1, .blockEnd :: rest => some ([], rest)
  | _, _ => none

/-- Read the items of a flow sequence and its end, at the first item or after one.  An item with
a key is a mapping of one entry; if its key is left out, the token in its place is passed over. -/
def flowItems? (handles : Handles) :
    Nat → Bool → List Token → Option (List WrittenNode × List Token)
  | 0, _, _ => none
  | _ + 1, _, .flowSequenceEnd :: rest => some ([], rest)
  | steps + 1, first, tokens => do
      let tokens ←
        match first, tokens with
        | true, tokens => some tokens
        | false, .flowEntry :: rest => some rest
        | false, _ => none
      match tokens with
      | .flowSequenceEnd :: rest => pure ([], rest)
      | .key :: rest =>
          let (key, rest) ←
            if comesNext [.value, .flowEntry, .flowSequenceEnd] rest then
              some (omitted, rest.drop 1)
            else node? handles steps .flow rest
          let stops := [.flowEntry, .flowSequenceEnd]
          let (value, rest) ← valueBefore? handles steps .flow stops rest
          let (items, rest) ← flowItems? handles steps false rest
          pure (.mapping .none [(key, value)] :: items, rest)
      | tokens =>
          let (item, rest) ← node? handles steps .flow tokens
          let (items, rest) ← flowItems? handles steps false rest
          pure (item :: items, rest)

/-- Read the entries of a flow mapping and its end, at the first entry or after one. -/
def flowEntries? (handles : Handles) :
    Nat → Bool → List Token → Option (List (WrittenNode × WrittenNode) × List Token)
  | 0, _, _ => none
  | _ + 1, _, .flowMappingEnd :: rest => some ([], rest)
  | steps + 1, first, tokens => do
      let tokens ←
        match first, tokens with
        | true, tokens => some tokens
        | false, .flowEntry :: rest => some rest
        | false, _ => none
      match tokens with
      | .flowMappingEnd :: rest => pure ([], rest)
      | .key :: rest =>
          let (key, rest) ←
            nodeBefore? handles steps .flow [.value, .flowEntry, .flowMappingEnd] rest
          let (value, rest) ← valueBefore? handles steps .flow [.flowEntry, .flowMappingEnd] rest
          let (entries, rest) ← flowEntries? handles steps false rest
          pure ((key, value) :: entries, rest)
      | tokens =>
          let (key, rest) ← node? handles steps .flow tokens
          let (entries, rest) ← flowEntries? handles steps false rest
          pure ((key, omitted) :: entries, rest)

end

/-- Read directives up to the mark that starts the document.  The version may be given once, and
each handle once. -/
def directives? (versioned : Bool) (handles : Handles) :
    List Token → Option (Handles × List Token)
  | .versionDirective major minor :: rest =>
      if versioned || major != 1 || (minor != 1 && minor != 2) then none
      else directives? true handles rest
  | .tagDirective handle expansion :: rest =>
      if (handles.lookup handle).isSome then none
      else directives? versioned (handles ++ [(handle, expansion)]) rest
  | .documentStart :: rest => some (handles, rest)
  | _ => none

/-- Whether the document is started by a mark or a directive. -/
def startsMarked : List Token → Bool
  | .versionDirective .. :: _ | .tagDirective .. :: _ | .documentStart :: _ => true
  | _ => false

/-- Whether the document that was started has no content. -/
def endsAtOnce (tokens : List Token) : Bool :=
  tokens.isEmpty || startsMarked tokens || comesNext [.documentEnd] tokens

/-- The one document of some tokens; an empty text has the same document as a node left out. -/
def document? (tokens : List Token) : Option WrittenNode := do
  let steps := 4 * tokens.length + 4
  let (root, rest) ←
    if tokens.isEmpty then some (omitted, [])
    else if startsMarked tokens then do
      let (handles, rest) ← directives? false [] tokens
      if endsAtOnce rest then some (omitted, rest)
      else node? (handles ++ knownHandles) steps ⟨true, false⟩ rest
    else node? knownHandles steps ⟨true, false⟩ tokens
  if (rest.dropWhile (· == .documentEnd)).isEmpty then some root else none

end Yaml
end StaticSite
