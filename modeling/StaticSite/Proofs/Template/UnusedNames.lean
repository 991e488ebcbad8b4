import Mathlib
import StaticSite.Proofs.Expression.Alikeness
import StaticSite.Proofs.Template.Imports

/-!
# Names that a template does not use

The text of a template depends on the scope that it is baked in only through the names in its
expressions, as long as it imports nothing and goes over no maps: an asset could use any other name,
and a map iteration sees all names of a baked scope.  Two bakings go on side by side, in scopes that
are alike for these names; so are the scopes that they bind as named blocks.
-/

namespace StaticSite
namespace Template

/-! ## Expressions and map iterations -/

mutual

/-- The texts of all expressions in a model. -/
def Model.expressions : Model → List String
  | .mk shape bindings children =>
      shape.expressions ++ expressionsOfBlocks bindings ++ expressionsOfNodes children

def Shape.expressions : Shape → List String
  | .letIn _ text => [text]
  | .conditional condition (some branch) => condition.toList ++ branch.expressions
  | .conditional condition none => condition.toList
  | .listIteration _ iterable => [iterable]
  | .mapIteration _ _ map => [map]
  | .plain | .importing _ _ => []

def expressionsOfBlocks : List (String × Model) → List String
  | [] => []
  | (_, block) :: rest => block.expressions ++ expressionsOfBlocks rest

def expressionsOfNodes : List Node → List String
  | [] => []
  | node :: rest => node.expressions ++ expressionsOfNodes rest

def Node.expressions : Node → List String
  | .expression text _ => [text]
  | .scope model => model.expressions
  | .literal _ | .importing _ => []

end

mutual

/-- Whether a model goes over a map anywhere. -/
def Model.iteratesMaps : Model → Bool
  | .mk shape bindings children =>
      shape.iteratesMaps || blocksIterateMaps bindings || nodesIterateMaps children

def Shape.iteratesMaps : Shape → Bool
  | .conditional _ (some branch) => branch.iteratesMaps
  | .mapIteration .. => true
  | _ => false

def blocksIterateMaps : List (String × Model) → Bool
  | [] => false
  | (_, block) :: rest => block.iteratesMaps || blocksIterateMaps rest

def nodesIterateMaps : List Node → Bool
  | [] => false
  | node :: rest => node.iteratesMaps || nodesIterateMaps rest

def Node.iteratesMaps : Node → Bool
  | .scope model => model.iteratesMaps
  | _ => false

end

/-- The identifiers in the expressions of a model, and the names of the fields that they ask for. -/
def Model.names (model : Model) : List String :=
  model.expressions.flatMap Expression.names

/-- Whether a part of a model imports nothing, goes over no maps, and has only some names in its
expressions.  The part is given by the keys that it imports, whether it goes over maps, and its
expressions. -/
structure Confined (names imported : List String) (iterates : Bool) (texts : List String) :
    Prop where
  imported : imported = []
  iterates : iterates = false
  names : ∀ text ∈ texts, Expression.names text ⊆ names

variable {names : List String}

theorem Confined.split {imported importedToo texts textsToo : List String} {first second : Bool}
    (confined : Confined names (imported ++ importedToo) (first || second) (texts ++ textsToo)) :
    Confined names imported first texts ∧ Confined names importedToo second textsToo := by
  obtain ⟨noImports, noMaps, within⟩ := confined
  obtain ⟨rfl, rfl⟩ := List.append_eq_nil_iff.mp noImports
  obtain ⟨rfl, rfl⟩ := Bool.or_eq_false_iff.mp noMaps
  obtain ⟨first, second⟩ := List.forall_mem_append.mp within
  exact ⟨⟨rfl, rfl, first⟩, ⟨rfl, rfl, second⟩⟩

/-! ## Bakings side by side -/

/-- Whether two bakings ask for nothing and end in the same error or with related values. -/
inductive Baking.Parallel {α β : Type} (related : α → β → Prop) : Baking α → Baking β → Prop
  | ended {result : Except RenderError α} {other : Except RenderError β}
      (corresponds : Except.Corresponds related result other) :
      Parallel related (.ended result) (.ended other)

namespace Baking.Parallel

variable {α β γ δ : Type} {related : α → β → Prop} {relatedToo : γ → δ → Prop}
  {first : Baking α} {second : Baking β}

theorem pure {value : α} {other : β} (isRelated : related value other) :
    Parallel related (Pure.pure value) (Pure.pure other) :=
  .ended (.ok isRelated)

theorem bind (before : Parallel related first second) {next : α → Baking γ} {other : β → Baking δ}
    (after : ∀ value found, related value found → Parallel relatedToo (next value) (other found)) :
    Parallel relatedToo (first >>= next) (second >>= other) := by
  cases before with
  | ended corresponds =>
      cases corresponds with
      | ok isRelated => exact after _ _ isRelated
      | error error => exact .ended (.error error)

/-- What is baked for each item is put in the same order. -/
theorem gather {item : Type} (items : List item) {bake other : item → Baking (List String)}
    (each : ∀ item, Parallel (· = ·) (bake item) (other item)) :
    Parallel (· = ·) (Baking.gather items bake) (Baking.gather items other) := by
  induction items with
  | nil => exact .pure rfl
  | cons item items induction =>
      exact (each item).bind fun texts found same =>
        induction.bind fun more others sameToo => .pure (by rw [same, sameToo])

end Baking.Parallel

/-- Whether two baked scopes have the same place and text and are alike for some names. -/
structure Baked.Alike (names : List String) (baked other : Baked) : Prop where
  address : baked.address = other.address
  scope : baked.scope.Alike names other.scope
  text : baked.text = other.text

variable {ambient scope other : Scope}

theorem Baked.Alike.toValue {baked other : Baked} (alike : baked.Alike names other) :
    baked.toValue.Alike names other.toValue := by
  obtain ⟨address, scope, text⟩ := baked
  obtain ⟨addressToo, scopeToo, textToo⟩ := other
  obtain ⟨rfl, shown, rfl⟩ := alike
  exact .scope shown

theorem length?_eq {a b : Value} (alike : a.Alike names b) : a.length? = b.length? := by
  cases alike <;> rfl

theorem parallel_itemAt {a b : Value} (alike : a.Alike names b) (position : Nat) :
    Baking.Parallel (Value.Alike names) (.ended (itemAt a position)) (.ended (itemAt b position)) :=
  .ended <| (alike.index? .any (.ofNat position)).bind fun found other same => by
    cases same with
    | none => exact .error _
    | some alike => exact .ok alike

/-- What an expression that may have no value renders is the same. -/
theorem evaluate?_text_eq (alike : scope.Alike names other) {text : String}
    (within : Expression.names text ⊆ names) :
    (Expression.evaluate? scope .any text).map Value.text =
      (Expression.evaluate? other .any text).map Value.text := by
  have results := Expression.corresponds_evaluate alike within .any
  rw [Expression.evaluate?, Expression.evaluate?]
  generalize Expression.evaluate scope .any text = result at results
  generalize Expression.evaluate other .any text = found at results
  cases results with
  | ok alike => exact congrArg some alike.text_eq
  | error error => rfl

/-- A condition holds in both scopes, or in neither, or fails in the same way. -/
theorem conditionHolds_eq (alike : scope.Alike names other) {condition : Option String}
    (within : ∀ text ∈ condition.toList, Expression.names text ⊆ names) (standing : Standing) :
    conditionHolds standing scope condition = conditionHolds standing other condition := by
  cases condition with
  | none => rfl
  | some text =>
      have results := Expression.corresponds_evaluate alike
        (within text (List.mem_singleton_self text)) .boolean
      cases standing with
      | alone =>
          refine Except.Corresponds.eq (results.bind fun a b alike => ?_)
          rw [alike.boolean?_eq]
          exact .ok rfl
      | laterBranch =>
          rw [conditionHolds, conditionHolds, Expression.evaluate?, Expression.evaluate?]
          generalize Expression.evaluate scope .boolean text = result at results
          generalize Expression.evaluate other .boolean text = found at results
          cases results with
          | ok alike =>
              simp only [Except.toOption, Option.bind_some, alike.boolean?_eq]
          | error error => rfl

section

open Baking

mutual

/-- A model baked in alike scopes leaves alike scopes with the same text. -/
theorem Model.parallel_bake : ∀ model : Model,
    Confined names model.importedKeys model.iteratesMaps model.expressions →
    ∀ standing address {ambient other : Scope}, ambient.Alike names other →
    Parallel (Baked.Alike names) (model.bake standing address ambient)
      (model.bake standing address other)
  | .mk shape bindings children, confined, standing, address, ambient, other, alike => by
      simp only [Model.importedKeys, Model.iteratesMaps, Model.expressions] at confined
      obtain ⟨before, ofNodes⟩ := confined.split
      obtain ⟨ofShape, ofBlocks⟩ := before.split
      rw [Model.bake, Model.bake]
      refine (parallel_bakeBindings bindings ofBlocks address 0 alike).bind
        fun scope scopeToo bound => ?_
      have nodes {inner innerToo : Scope} (innerAlike : inner.Alike names innerToo) :=
        parallel_bakeNodes children ofNodes (bindings.length :: address) innerAlike
      -- children may see more than the scope that is left, which has the named blocks only
      have once {inner innerToo : Scope} (innerAlike : inner.Alike names innerToo) :
          Parallel (Baked.Alike names)
            (bakeNodes (bindings.length :: address) inner children >>= fun texts =>
              pure (⟨address, scope, String.join texts⟩ : Baked))
            (bakeNodes (bindings.length :: address) innerToo children >>= fun texts =>
              pure (⟨address, scopeToo, String.join texts⟩ : Baked)) :=
        (nodes innerAlike).bind fun texts others same => .pure ⟨rfl, bound, by rw [same]⟩
      have evaluated (kind : Kind) {text : String} (within : Expression.names text ⊆ names) :
          Parallel (Value.Alike names) (.ended (Expression.evaluate scope kind text))
            (.ended (Expression.evaluate scopeToo kind text)) :=
        .ended (Expression.corresponds_evaluate bound within kind)
      have decided {condition : Option String}
          (within : ∀ text ∈ condition.toList, Expression.names text ⊆ names) :
          Parallel (· = ·) (.ended (conditionHolds standing scope condition))
            (.ended (conditionHolds standing scopeToo condition)) := by
        rw [conditionHolds_eq bound within]
        exact .ended (.refl (fun _ => rfl) _)
      cases shape with
      | conditional condition next =>
          cases next with
          | none =>
              cases standing <;>
              · refine (decided ofShape.names).bind fun holds holdsToo same => ?_
                obtain rfl := same
                cases holds with
                | true => exact once bound
                | false => exact .pure ⟨rfl, bound, rfl⟩
          | some branch =>
              obtain ⟨within, later⟩ := List.forall_mem_append.mp ofShape.names
              have ofBranch : Confined names branch.importedKeys branch.iteratesMaps
                  branch.expressions := ⟨ofShape.imported, ofShape.iterates, later⟩
              cases standing <;>
              · refine (decided within).bind fun holds holdsToo same => ?_
                obtain rfl := same
                cases holds with
                | true => exact once bound
                | false => exact branch.parallel_bake ofBranch .laterBranch address alike
      | plain => cases standing <;> exact once bound
      | letIn name text =>
          cases standing with
          | laterBranch => exact once bound
          | alone =>
              have within := ofShape.names text (List.mem_singleton_self text)
              exact (evaluated .any within).bind fun a b same => once (bound.bind name same)
      | listIteration name iterable =>
          cases standing with
          | laterBranch => exact once bound
          | alone =>
              have within := ofShape.names iterable (List.mem_singleton_self iterable)
              refine (evaluated .list within).bind fun a b same => ?_
              rw [length?_eq same]
              have visits := Parallel.gather (List.range (b.length?.getD 0)) fun position =>
                (parallel_itemAt same position).bind fun item itemToo alike =>
                  nodes (bound.bind name alike)
              exact visits.bind fun texts others same => .pure ⟨rfl, bound, by rw [same]⟩
      | mapIteration key value text => exact absurd ofShape.iterates Bool.true_eq_false.mp
      | importing name key => exact absurd ofShape.imported (List.cons_ne_nil key [])

theorem parallel_bakeBindings : ∀ blocks : List (String × Model),
    Confined names (importedByBlocks blocks) (blocksIterateMaps blocks)
      (expressionsOfBlocks blocks) →
    ∀ address index {scope other : Scope}, scope.Alike names other →
    Parallel (Scope.Alike names) (bakeBindings address index scope blocks)
      (bakeBindings address index other blocks)
  | [], _, _, _, _, _, alike => by
      rw [bakeBindings, bakeBindings]
      exact .pure alike
  | (name, block) :: rest, confined, address, index, scope, other, alike => by
      simp only [importedByBlocks, blocksIterateMaps, expressionsOfBlocks] at confined
      obtain ⟨ofBlock, ofRest⟩ := confined.split
      rw [bakeBindings, bakeBindings]
      exact (block.parallel_bake ofBlock .alone (index :: address) alike).bind
        fun baked bakedToo bound => parallel_bakeBindings rest ofRest address (index + 1)
          (alike.bind name bound.toValue)

theorem parallel_bakeNodes : ∀ nodes : List Node,
    Confined names (importedByNodes nodes) (nodesIterateMaps nodes) (expressionsOfNodes nodes) →
    ∀ address {scope other : Scope}, scope.Alike names other →
    Parallel (· = ·) (bakeNodes address scope nodes) (bakeNodes address other nodes)
  | [], _, _, _, _, _ => .pure rfl
  | node :: rest, confined, address, scope, other, alike => by
      simp only [importedByNodes, nodesIterateMaps, expressionsOfNodes] at confined
      obtain ⟨ofNode, ofRest⟩ := confined.split
      rw [bakeNodes, bakeNodes]
      exact (parallel_bakeNode node ofNode address alike).bind fun text found same =>
        (parallel_bakeNodes rest ofRest address alike).bind fun more others sameToo =>
          .pure (by rw [same, sameToo])

theorem parallel_bakeNode : ∀ node : Node,
    Confined names node.importedKeys node.iteratesMaps node.expressions →
    ∀ address {scope other : Scope}, scope.Alike names other →
    Parallel (· = ·) (bakeNode address scope node) (bakeNode address other node)
  | .literal text, _, _, _, _, _ => .pure rfl
  | .expression text strict, confined, address, scope, other, alike => by
      have within := confined.names text (List.mem_singleton_self text)
      cases strict with
      | true =>
          have evaluated : Parallel (Value.Alike names)
              (.ended (Expression.evaluate scope .any text))
              (.ended (Expression.evaluate other .any text)) :=
            .ended (Expression.corresponds_evaluate alike within .any)
          exact evaluated.bind fun a b alike => .pure alike.text_eq
      | false =>
          exact .pure (by rw [evaluate?_text_eq alike within])
  | .importing key, confined, _, _, _, _ => absurd confined.imported (List.cons_ne_nil key [])
  | .scope model, confined, address, scope, other, alike => by
      rw [bakeNode, bakeNode]
      exact (model.parallel_bake confined .alone address alike).bind fun baked bakedToo bound =>
        .pure bound.text

end

end

/-- The text of a model that imports nothing and goes over no maps depends only on what the names in
its expressions stand for: in two scopes that agree on them it fails with the same error, or renders
the same text. -/
theorem Model.bake_text_of_agree (model : Model) (noImports : model.importedKeys = [])
    (noMaps : model.iteratesMaps = false) (standing : Standing) (address : Address)
    (ambient other : Scope)
    (agree : ∀ name ∈ model.names, ambient.lookup? name = other.lookup? name) :
    ∃ result : Except RenderError String,
      Baked.text <$> model.bake standing address ambient = .ended result ∧
      Baked.text <$> model.bake standing address other = .ended result := by
  have confined : Confined model.names model.importedKeys model.iteratesMaps model.expressions :=
    ⟨noImports, noMaps, fun text member name isName =>
      List.mem_flatMap.mpr ⟨text, member, isName⟩⟩
  have bakings := model.parallel_bake confined standing address (Scope.alike_of_lookup? agree)
  generalize model.bake standing address ambient = baking at bakings
  generalize model.bake standing address other = bakingToo at bakings
  cases bakings with
  | ended corresponds =>
      cases corresponds with
      | @ok baked bakedToo alike => exact ⟨.ok baked.text, rfl, by rw [alike.text]; rfl⟩
      | error error => exact ⟨.error error, rfl, rfl⟩

/-- A named block that is bound to another name, asked for a field, and shown. -/
def cardModel : Model :=
  .mk .plain [("card", .mk .plain [] [.expression "title" true])]
    [.scope (.mk (.letIn "shown" "card") [] [.expression "shown.title + shown" true])]

/-- It renders the same text whatever else is bound, and whatever the title is bound to outside. -/
theorem bake_text_of_agree_card :
    cardModel.importedKeys = [] ∧ cardModel.iteratesMaps = false ∧
      cardModel.names = ["title", "card", "shown", "title", "shown"] ∧
      Baked.text <$> cardModel.bake .alone [] (Scope.root.bind "title" (.string "Home")) =
        .ended (.ok "HomeHome") ∧
      Baked.text <$> cardModel.bake .alone []
          (((Scope.root.bind "title" (.integer 1)).bind "unused" (.boolean true)).bind "title"
            (.string "Home")) =
        .ended (.ok "HomeHome") := by
  have noImports : cardModel.importedKeys = [] := rfl
  have noMaps : cardModel.iteratesMaps = false := rfl
  have names : cardModel.names = ["title", "card", "shown", "title", "shown"] := by cbv
  obtain ⟨result, plain, shadowed⟩ := cardModel.bake_text_of_agree noImports noMaps .alone []
    (Scope.root.bind "title" (.string "Home"))
    (((Scope.root.bind "title" (.integer 1)).bind "unused" (.boolean true)).bind "title"
      (.string "Home"))
    fun name member => by
      rw [names] at member
      simp only [List.mem_cons, List.not_mem_nil, or_false] at member
      rcases member with rfl | rfl | rfl | rfl | rfl <;> rfl
  have rendered : Baked.text <$> cardModel.bake .alone []
      (Scope.root.bind "title" (.string "Home")) = .ended (.ok "HomeHome") := by cbv
  exact ⟨noImports, noMaps, names, rendered, shadowed.trans (plain.symm.trans rendered)⟩

end Template
end StaticSite
