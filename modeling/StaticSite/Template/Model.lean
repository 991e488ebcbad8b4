/-!
# Template models

This file gives the tree of scopes that a template's source describes.
-/

namespace StaticSite
namespace Template

mutual

/-- One scope of a template: what it does, its named blocks, and what it renders. -/
inductive Model where
  | mk (shape : Shape) (bindings : List (String × Model)) (children : List Node)

/-- What a scope does with its children. -/
inductive Shape where
  /-- Render them once. -/
  | plain
  /-- Render them with a name bound to a value. -/
  | letIn (name expression : String)
  /-- Render them if the condition holds, or else go on with the next branch.  Only an
  unconditional last branch has no condition. -/
  | conditional (condition : Option String) (next : Option Model)
  /-- Render them for each item of a list. -/
  | listIteration (item iterable : String)
  /-- Render them for each field of a map, with its name or its value or both bound. -/
  | mapIteration (key value : Option String) (map : String)
  /-- Render them with a name bound to another asset. -/
  | importing (name key : String)

/-- Something that a scope renders. -/
inductive Node where
  | literal (text : String)
  /-- The value of an expression; one that is not strict renders nothing if it has none. -/
  | expression (text : String) (strict : Bool)
  /-- Another asset. -/
  | importing (key : String)
  | scope (model : Model)

end

namespace Model

/-- What the scope does. -/
def shape : Model → Shape
  | mk shape _ _ => shape

/-- The named blocks, in order. -/
def bindings : Model → List (String × Model)
  | mk _ bindings _ => bindings

/-- What the scope renders, in order. -/
def children : Model → List Node
  | mk _ _ children => children

/-- A scope without named blocks and children. -/
def ofShape (shape : Shape) : Model :=
  mk shape [] []

/-- The scope with one more child at the end. -/
def append (node : Node) : Model → Model
  | mk shape bindings children => mk shape bindings (children ++ [node])

/-- The scope with one more named block at the end. -/
def appendBinding (name : String) (block : Model) : Model → Model
  | mk shape bindings children => mk shape (bindings ++ [(name, block)]) children

/-- The branch followed by another; scopes that are no branches stay as they are. -/
def followedBy : (branch next : Model) → Model
  | mk (.conditional condition _) bindings children, next =>
      mk (.conditional condition (some next)) bindings children
  | model, _ => model

end Model

instance : Inhabited Model := ⟨.ofShape .plain⟩

end Template
end StaticSite
