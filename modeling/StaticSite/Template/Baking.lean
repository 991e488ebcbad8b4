import StaticSite.Expression.Evaluation
import StaticSite.Template.Model

/-!
# Baking templates

This file bakes a model in a scope: its named blocks are bound, its expressions evaluated and its
iterations run.  What remains is the scope that the model made and the text that it renders.

Baking itself knows no other assets.  Where a model imports one, the baking asks for its value and
tells how it goes on with it; who bakes the model answers.

Each baked scope gets an address, by which it is told from all others that can be named together
with it: the named blocks of a model are counted, and what is nested extends the address.
-/

namespace StaticSite
namespace Template

/-- A result, or an error, with the keys of the assets that were asked for on the way. -/
structure Outcome (α : Type) where
  reached : List String
  result : Except RenderError α

namespace Outcome

/-- A result for which no asset was asked. -/
def ofExcept {α : Type} (result : Except RenderError α) : Outcome α :=
  ⟨[], result⟩

/-- Go on with a result. -/
def andThen {α β : Type} (first : Outcome α) (next : α → Outcome β) : Outcome β :=
  match first.result with
  | .error error => ⟨first.reached, .error error⟩
  | .ok value => ⟨first.reached ++ (next value).reached, (next value).result⟩

/-- Note that an asset was asked for. -/
def reaching {α : Type} (key : String) (outcome : Outcome α) : Outcome α :=
  { outcome with reached := key :: outcome.reached }

/-- Change the error. -/
def mapError {α : Type} (change : RenderError → RenderError) (outcome : Outcome α) : Outcome α :=
  { outcome with result := outcome.result.mapError change }

end Outcome

/-- Answers an import of the asset with the given key into a scope. -/
abbrev Importer := Address → Scope → String → Outcome Value

/-- What is left to do of a baking: it has ended, or it asks for the asset with a key, baked into a
scope, and goes on with its value. -/
inductive Baking (α : Type) where
  | ended (result : Except RenderError α)
  | asking (address : Address) (scope : Scope) (key : String) (resume : Value → Baking α)

namespace Baking

/-- Go on with a result. -/
def andThen {α β : Type} : Baking α → (α → Baking β) → Baking β
  | ended (.error error), _ => ended (.error error)
  | ended (.ok value), next => next value
  | asking address scope key resume, next =>
      asking address scope key fun value => (resume value).andThen next

instance : Monad Baking where
  pure value := ended (.ok value)
  bind := andThen

/-- Ask for an asset. -/
def ask (address : Address) (scope : Scope) (key : String) : Baking Value :=
  asking address scope key fun value => ended (.ok value)

/-- Go on with the answer to an import, unless it is an error. -/
def resumed {α : Type} (resume : Value → Baking α) : Except RenderError Value → Baking α
  | .ok value => resume value
  | .error error => ended (.error error)

/-- The outcome when every import is answered by an importer. -/
def outcome {α : Type} (imports : Importer) : Baking α → Outcome α
  | ended result => .ofExcept result
  | asking address scope key resume =>
      (imports address scope key).andThen fun value => (resume value).outcome imports

/-- An import that is all there is to do has the outcome that the importer gives it. -/
@[simp]
theorem outcome_ask (imports : Importer) (address : Address) (scope : Scope) (key : String) :
    (ask address scope key).outcome imports = imports address scope key := by
  simp only [ask, outcome, Outcome.andThen, Outcome.ofExcept]
  split
  · next failed => rw [← failed]
  · next result => rw [← result, List.append_nil]

/-- Bake something for each item and put the texts in order. -/
def gather {α : Type} (items : List α) (bake : α → Baking (List String)) :
    Baking (List String) :=
  match items with
  | [] => pure []
  | item :: rest => do
      let texts ← bake item
      let more ← gather rest bake
      pure (texts ++ more)

end Baking

/-- A baked scope. -/
structure Baked where
  address : Address
  scope : Scope
  text : String

/-- The baked scope as a value. -/
def Baked.toValue (baked : Baked) : Value :=
  .scope baked.address baked.scope.frames baked.text

/-- Where a model stands: on its own, or as a later branch of a conditional. -/
inductive Standing where
  | alone
  | laterBranch
  deriving DecidableEq, Repr

/-- Whether the condition of a branch holds.  That of the first branch must have a truth value;
a later one without any counts as false. -/
def conditionHolds (standing : Standing) (scope : Scope) :
    Option String → Except RenderError Bool
  | none => .ok true
  | some text =>
      match standing with
      | .alone => do
          let value ← Expression.evaluate scope .boolean text
          pure (value.boolean?.getD false)
      | .laterBranch => .ok ((Expression.evaluate? scope .boolean text).bind Value.boolean? == some true)

/-- The item or character that an iteration visits at a position. -/
def itemAt (list : Value) (position : Nat) : Except RenderError Value := do
  match ← list.index? .any (.ofNat position) with
  | some item => pure item
  | none => throw (.unresolvedReference ("[" ++ toString position ++ "]"))

/-- The names bound while an iteration over a map visits the field with the given name. -/
def fieldBindings (key value : Option String) (map : Value) (field : String) :
    Except RenderError Fields := do
  let keys : Fields :=
    match key with
    | some name => [(name, .string field)]
    | none => []
  match value with
  | none => pure keys
  | some name =>
      match ← map.field? .any field with
      | some found => pure (keys.insert name found)
      | none => throw (.unresolvedReference field)

mutual

/-- Bake a model. -/
def Model.bake (standing : Standing) (address : Address) (ambient : Scope) :
    Model → Baking Baked
  | .mk shape bindings children => do
      let inner := bindings.length :: address
      let scope ← bakeBindings address 0 ambient bindings
      match standing, shape with
      | standing, .conditional condition next =>
          let holds ← Baking.ended (conditionHolds standing scope condition)
          if holds then
            let texts ← bakeNodes inner scope children
            pure ⟨address, scope, String.join texts⟩
          else
            match next with
            | none => pure ⟨address, scope, ""⟩
            | some branch => branch.bake .laterBranch address ambient
      | .laterBranch, _ | .alone, .plain =>
          let texts ← bakeNodes inner scope children
          pure ⟨address, scope, String.join texts⟩
      | .alone, .letIn name text =>
          let value ← Baking.ended (Expression.evaluate scope .any text)
          let texts ← bakeNodes inner (scope.bind name value) children
          pure ⟨address, scope, String.join texts⟩
      | .alone, .listIteration name iterable =>
          let list ← Baking.ended (Expression.evaluate scope .list iterable)
          let texts ← Baking.gather (List.range (list.length?.getD 0)) fun position => do
            let item ← Baking.ended (itemAt list position)
            bakeNodes inner (scope.bind name item) children
          pure ⟨address, scope, String.join texts⟩
      | .alone, .mapIteration key value text =>
          let map ← Baking.ended (Expression.evaluate scope .map text)
          let texts ← Baking.gather map.fieldNames fun field => do
            let names ← Baking.ended (fieldBindings key value map field)
            bakeNodes inner (scope.extend names) children
          pure ⟨address, scope, String.join texts⟩
      | .alone, .importing name key =>
          let value ← Baking.ask ((bindings.length + 1) :: address) scope key
          let texts ← bakeNodes inner (scope.bind name value) children
          pure ⟨address, scope, String.join texts⟩

/-- Bake named blocks, each in the scope of those before it.  `index` counts those before. -/
def bakeBindings (address : Address) (index : Nat) (scope : Scope) :
    List (String × Model) → Baking Scope
  | [] => pure scope
  | (name, block) :: rest => do
      let baked ← block.bake .alone (index :: address) scope
      bakeBindings address (index + 1) (scope.bind name baked.toValue) rest

/-- Bake what a scope renders. -/
def bakeNodes (address : Address) (scope : Scope) : List Node → Baking (List String)
  | [] => pure []
  | node :: rest => do
      let text ← bakeNode address scope node
      let more ← bakeNodes address scope rest
      pure (text :: more)

/-- Bake one thing that a scope renders. -/
def bakeNode (address : Address) (scope : Scope) : Node → Baking String
  | .literal text => pure text
  | .expression text strict =>
      if strict then do
        let value ← Baking.ended (Expression.evaluate scope .any text)
        pure value.text
      else pure (((Expression.evaluate? scope .any text).map Value.text).getD "")
  | .importing key => do
      let value ← Baking.ask address scope key
      pure value.text
  | .scope model => do
      let baked ← model.bake .alone address scope
      pure baked.text

end

/-- Bake a model whose imports are answered by an importer. -/
def bake (imports : Importer) (standing : Standing) (address : Address) (ambient : Scope)
    (model : Model) : Outcome Baked :=
  (model.bake standing address ambient).outcome imports

end Template
end StaticSite
