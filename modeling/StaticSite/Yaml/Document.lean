import StaticSite.Yaml.Lexer
import StaticSite.Yaml.Node
import StaticSite.Yaml.Tree

/-!
# YAML documents

This file follows the aliases of a document and gives its nodes their meaning.  Anchors are
numbered by the count of names that were known before; a number that is given twice stands for the
node that got it last, also in the aliases before that node.
-/

namespace StaticSite
namespace Yaml

/-- A node with numbered aliases, or what is left of it without its anchor. -/
abbrev LinkedNode := Node Nat

/-- The names of anchors with their numbers, the latest first. -/
abbrev Anchors := List (String × Nat)

/-- Number the anchor of a node, if it has one. -/
def Anchors.add (anchors : Anchors) (properties : Properties) : Anchors × Option Nat :=
  match properties.anchor with
  | none => (anchors, none)
  | some name =>
      ((name, anchors.length) :: anchors.filter (·.1 != name), some anchors.length)

/-- The nodes of anchors by number, in the order of the text. -/
abbrev Targets := List (Nat × LinkedNode)

/-- The targets with the anchored node itself in front of those inside of it. -/
def Targets.around (number : Option Nat) (node : LinkedNode) (inner : Targets) : Targets :=
  match number with
  | some number => (number, node) :: inner
  | none => inner

mutual

/-- Number the aliases of a node; none if one has no anchor before it. -/
def link? (anchors : Anchors) : WrittenNode → Option (LinkedNode × Anchors × Targets)
  | .alias name => (anchors.lookup name).map fun number => (.alias number, anchors, [])
  | .scalar properties text plain =>
      let (anchors, number) := anchors.add properties
      let node := .scalar properties text plain
      some (node, anchors, Targets.around number node [])
  | .sequence properties items => do
      let (anchors, number) := anchors.add properties
      let (items, anchors, targets) ← linkItems? anchors items
      let node := .sequence properties items
      pure (node, anchors, Targets.around number node targets)
  | .mapping properties entries => do
      let (anchors, number) := anchors.add properties
      let (entries, anchors, targets) ← linkEntries? anchors entries
      let node := .mapping properties entries
      pure (node, anchors, Targets.around number node targets)

/-- Number the aliases of the items of a sequence. -/
def linkItems? (anchors : Anchors) :
    List WrittenNode → Option (List LinkedNode × Anchors × Targets)
  | [] => some ([], anchors, [])
  | item :: rest => do
      let (item, anchors, targets) ← link? anchors item
      let (items, anchors, more) ← linkItems? anchors rest
      pure (item :: items, anchors, targets ++ more)

/-- Number the aliases of the entries of a mapping. -/
def linkEntries? (anchors : Anchors) :
    List (WrittenNode × WrittenNode) →
      Option (List (LinkedNode × LinkedNode) × Anchors × Targets)
  | [] => some ([], anchors, [])
  | (key, value) :: rest => do
      let (key, anchors, inKey) ← link? anchors key
      let (value, anchors, inValue) ← link? anchors value
      let (entries, anchors, more) ← linkEntries? anchors rest
      pure ((key, value) :: entries, anchors, inKey ++ inValue ++ more)

end

mutual

/-- How many events a node stands for: one for each alias and scalar, two for each collection. -/
def eventCount : LinkedNode → Nat
  | .alias _ | .scalar .. => 1
  | .sequence _ items => 2 + itemEvents items
  | .mapping _ entries => 2 + entryEvents entries

def itemEvents : List LinkedNode → Nat
  | [] => 0
  | item :: rest => eventCount item + itemEvents rest

def entryEvents : List (LinkedNode × LinkedNode) → Nat
  | [] => 0
  | (key, value) :: rest => eventCount key + eventCount value + entryEvents rest

end

/-- The tag of one's own that a tag names, if it starts with an exclamation mark. -/
def ownTag? : TagText → Option String
  | 0x21 :: rest => String.fromUTF8? ⟨(if rest.isEmpty then [0x21] else rest).toArray⟩
  | _ => none

/-- The tree of a scalar with a tag of YAML; `none` if it has no such tag. -/
def ofKnownTag? (tag : TagText) (text : String) : Option (Option Yaml) :=
  let isTag (name : String) : Bool := tag == ("tag:yaml.org,2002:" ++ name).toUTF8.toList
  if isTag "bool" then some ((boolean? text).map boolean)
  else if isTag "int" then some ((integer? text.toList).bind ofInteger?)
  else if isTag "float" then some ((float? text.toList).map float)
  else if isTag "null" then some (if isNull text then some null else none)
  else none

/-- The tree of a scalar. -/
def ofScalar? (tag : Option TagText) (text : String) (plain : Bool) : Option Yaml :=
  let untagged := if plain then ofPlain? text else some (string text)
  match tag with
  | none => untagged
  | some tag =>
      match ownTag? tag, ofKnownTag? tag text with
      | some name, _ => untagged.map (tagged name)
      | none, some tree => tree
      | none, none =>
          if tag.head? == some 0x21 then untagged else some (string text)

/-- Put the tag of its own around the tree of a collection. -/
def withTag (tag : Option TagText) (tree : Yaml) : Yaml :=
  match tag.bind ownTag? with
  | some name => tagged name tree
  | none => tree

/-- The node that an alias stands for. -/
def Targets.follow? (targets : Targets) (number : Nat) : Option LinkedNode :=
  targets.reverse.lookup number

/-- The trees of some entries in order; none if two keys are equal. -/
def distinctKeys? (entries : List (Yaml × Yaml)) : Option (List (Yaml × Yaml)) :=
  if entries.Pairwise fun entry other => entry.1.isEqual other.1 = false then some entries
  else none

/-- The node itself, or the one that it is an alias for.  The state counts how many aliases may still
be followed. -/
def followed (targets : Targets) : LinkedNode → StateT Nat Option LinkedNode
  | .alias number => do
      match ← get with
      | 0 => failure
      | left + 1 =>
          set left
          match targets.follow? number with
          | some node => pure node
          | none => failure
  | node => pure node

/-- The tree of a scalar; no collection may be nested any more. -/
def composeLeaf : LinkedNode → StateT Nat Option Yaml
  | .scalar properties text plain => StateT.lift (ofScalar? properties.tag text plain)
  | _ => failure

/-- The tree of a node, given those of the nodes in it. -/
def composeNode (inner : LinkedNode → StateT Nat Option Yaml) : LinkedNode → StateT Nat Option Yaml
  | .sequence properties items => do
      let items ← items.mapM inner
      pure (withTag properties.tag (sequence items))
  | .mapping properties entries => do
      let entries ← entries.mapM fun (key, value) => do
        let key ← inner key
        let value ← inner value
        pure (key, value)
      let entries ← StateT.lift (distinctKeys? entries)
      pure (withTag properties.tag (mapping entries))
  | leaf => composeLeaf leaf

/-- The tree of a node.  `depth` collections may still be nested. -/
def compose (targets : Targets) : Nat → LinkedNode → StateT Nat Option Yaml
  | 0, node => do composeLeaf (← followed targets node)
  | depth + 1, node => do composeNode (compose targets depth) (← followed targets node)

def depthLimit : Nat := 128

/-- The tree of a text. -/
def parse? (text : List Char) : Option Yaml := do
  let written ← document? (← tokenize? text)
  let (root, _, targets) ← link? [] written
  let (tree, _) ← (compose targets depthLimit root).run (100 * eventCount root)
  pure tree

end Yaml
end StaticSite
