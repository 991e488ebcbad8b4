import StaticSite.Proofs.Expression.Failure

/-!
# Imports of templates

This file lists the keys that a template imports anywhere, replaces imports in place by scopes, and
follows both through the baking of a template.  A relation between bakings that what follows keeps
relates the baking of a template to that of the template with its imports replaced, as soon as it
does so where an asset is asked for.
-/

namespace StaticSite
namespace Template

mutual

/-- The keys of all assets that a model imports, in place or bound to a name. -/
def Model.importedKeys : Model → List String
  | .mk shape bindings children =>
      shape.importedKeys ++ importedByBlocks bindings ++ importedByNodes children

def Shape.importedKeys : Shape → List String
  | .conditional _ (some branch) => branch.importedKeys
  | .importing _ key => [key]
  | _ => []

def importedByBlocks : List (String × Model) → List String
  | [] => []
  | (_, block) :: rest => block.importedKeys ++ importedByBlocks rest

def importedByNodes : List Node → List String
  | [] => []
  | node :: rest => node.importedKeys ++ importedByNodes rest

def Node.importedKeys : Node → List String
  | .importing key => [key]
  | .scope model => model.importedKeys
  | _ => []

end

mutual

/-- The model with each import in place replaced by a scope, if there is one for its key. -/
def Model.replaceImports (expand : String → Option Model) : Model → Model
  | .mk shape bindings children =>
      .mk (shape.replaceImports expand) (replaceInBlocks expand bindings)
        (replaceInNodes expand children)

def Shape.replaceImports (expand : String → Option Model) : Shape → Shape
  | .conditional condition (some branch) =>
      .conditional condition (some (branch.replaceImports expand))
  | shape => shape

def replaceInBlocks (expand : String → Option Model) :
    List (String × Model) → List (String × Model)
  | [] => []
  | (name, block) :: rest => (name, block.replaceImports expand) :: replaceInBlocks expand rest

def replaceInNodes (expand : String → Option Model) : List Node → List Node
  | [] => []
  | node :: rest => node.replaceImports expand :: replaceInNodes expand rest

def Node.replaceImports (expand : String → Option Model) : Node → Node
  | .importing key =>
      match expand key with
      | some model => .scope model
      | none => .importing key
  | .scope model => .scope (model.replaceImports expand)
  | node => node

end

@[simp]
theorem length_replaceInBlocks (expand : String → Option Model)
    (blocks : List (String × Model)) :
    (replaceInBlocks expand blocks).length = blocks.length := by
  induction blocks with
  | nil => rfl
  | cons block rest induction => simp only [replaceInBlocks, List.length_cons, induction]

section

variable {expand other : String → Option Model}

mutual

/-- Only what stands for the keys that a model imports matters. -/
theorem Model.replaceImports_congr : ∀ model : Model,
    (∀ key ∈ model.importedKeys, expand key = other key) →
    model.replaceImports expand = model.replaceImports other
  | .mk shape bindings children, same => by
      simp only [Model.importedKeys, List.mem_append] at same
      rw [Model.replaceImports, Model.replaceImports,
        shape.replaceImports_congr fun key member => same key (.inl (.inl member)),
        replaceInBlocks_congr bindings fun key member => same key (.inl (.inr member)),
        replaceInNodes_congr children fun key member => same key (.inr member)]

theorem Shape.replaceImports_congr : ∀ shape : Shape,
    (∀ key ∈ shape.importedKeys, expand key = other key) →
    shape.replaceImports expand = shape.replaceImports other
  | .conditional condition (some branch), same => by
      rw [Shape.replaceImports, Shape.replaceImports, branch.replaceImports_congr same]
  | .conditional _ none, _ | .plain, _ | .letIn .., _ | .listIteration .., _
  | .mapIteration .., _ | .importing .., _ => rfl

theorem replaceInBlocks_congr : ∀ blocks : List (String × Model),
    (∀ key ∈ importedByBlocks blocks, expand key = other key) →
    replaceInBlocks expand blocks = replaceInBlocks other blocks
  | [], _ => rfl
  | (name, block) :: rest, same => by
      simp only [importedByBlocks, List.mem_append] at same
      rw [replaceInBlocks, replaceInBlocks,
        block.replaceImports_congr fun key member => same key (.inl member),
        replaceInBlocks_congr rest fun key member => same key (.inr member)]

theorem replaceInNodes_congr : ∀ nodes : List Node,
    (∀ key ∈ importedByNodes nodes, expand key = other key) →
    replaceInNodes expand nodes = replaceInNodes other nodes
  | [], _ => rfl
  | node :: rest, same => by
      simp only [importedByNodes, List.mem_append] at same
      rw [replaceInNodes, replaceInNodes,
        node.replaceImports_congr fun key member => same key (.inl member),
        replaceInNodes_congr rest fun key member => same key (.inr member)]

theorem Node.replaceImports_congr : ∀ node : Node,
    (∀ key ∈ node.importedKeys, expand key = other key) →
    node.replaceImports expand = node.replaceImports other
  | .importing key, same => by
      simp only [Node.replaceImports, same key (List.mem_singleton_self key)]
  | .scope model, same => by
      rw [Node.replaceImports, Node.replaceImports, model.replaceImports_congr same]
  | .literal _, _ | .expression .., _ => rfl

end

end

/-! ## Related bakings -/

namespace Baking

/-- Going on twice is going on once with both. -/
theorem bind_assoc {α β γ : Type} (first : Baking α) (second : α → Baking β)
    (third : β → Baking γ) :
    first >>= second >>= third = first >>= fun value => second value >>= third := by
  induction first with
  | ended result => cases result <;> rfl
  | asking address scope key resume induction =>
      exact congrArg (asking address scope key) (funext induction)

/-- A relation between bakings that what follows keeps. -/
structure Congruence (Related : ∀ α : Type, Baking α → Baking α → Prop) : Prop where
  ended : ∀ {α : Type} {result : Except RenderError α}, Expression.OnlyEvaluates result →
    Related α (.ended result) (.ended result)
  bind : ∀ {α β : Type} {first other : Baking α} {next following : α → Baking β},
    Related α first other → (∀ value, Related β (next value) (following value)) →
    Related β (first >>= next) (other >>= following)

/-- Whether asking for an asset is related to asking for it, and also to baking the scope that
stands for it in place. -/
structure Answers (Related : ∀ α : Type, Baking α → Baking α → Prop)
    (expand : String → Option Model) (key : String) : Prop where
  bound : ∀ address scope, Related Value (ask address scope key) (ask address scope key)
  inPlace : ∀ model, expand key = some model → ∀ address scope,
    Related Value (ask address scope key)
      (model.bake .alone address scope >>= fun baked => pure baked.toValue)

variable {Related : ∀ α : Type, Baking α → Baking α → Prop}

theorem Congruence.pure {α : Type} (congruence : Congruence Related) (value : α) :
    Related α (Pure.pure value) (Pure.pure value) :=
  congruence.ended (.ok value)

/-- Related bakings of each item are related when they are put in order. -/
theorem Congruence.gather {α : Type} (congruence : Congruence Related) (items : List α)
    {bake other : α → Baking (List String)}
    (each : ∀ item, Related _ (bake item) (other item)) :
    Related _ (gather items bake) (gather items other) := by
  induction items with
  | nil => exact congruence.pure []
  | cons item rest induction =>
      exact congruence.bind (each item) fun texts =>
        congruence.bind induction fun more => congruence.pure (texts ++ more)

end Baking

section

open Baking

variable {Related : ∀ α : Type, Baking α → Baking α → Prop}
  {expand : String → Option Model}

mutual

/-- The baking of a model is related to that of the model with its imports replaced. -/
theorem Model.related_bake (congruence : Congruence Related) : ∀ model : Model,
    (∀ key ∈ model.importedKeys, Answers Related expand key) →
    ∀ standing address ambient,
    Related Baked (model.bake standing address ambient)
      ((model.replaceImports expand).bake standing address ambient)
  | .mk shape bindings children, answers, standing, address, ambient => by
      simp only [Model.importedKeys, List.mem_append] at answers
      rw [Model.replaceImports, Model.bake, Model.bake, length_replaceInBlocks]
      refine congruence.bind (related_bakeBindings congruence bindings
        (fun key member => answers key (.inl (.inr member))) address 0 ambient) fun scope => ?_
      -- whatever the scope does, its children are baked in the same scopes and related there
      have nodes (scope : Scope) : Related _ (bakeNodes (bindings.length :: address) scope children)
          (bakeNodes (bindings.length :: address) scope (replaceInNodes expand children)) :=
        related_bakeNodes congruence children (fun key member => answers key (.inr member)) _ scope
      have once (inner : Scope) : Related Baked
          (bakeNodes (bindings.length :: address) inner children >>= fun texts =>
            pure ⟨address, scope, String.join texts⟩)
          (bakeNodes (bindings.length :: address) inner (replaceInNodes expand children) >>=
            fun texts => pure ⟨address, scope, String.join texts⟩) :=
        congruence.bind (nodes inner) fun texts => congruence.pure _
      cases shape with
      | conditional condition next =>
          cases next with
          | none =>
              cases standing <;>
              · refine congruence.bind (congruence.ended
                  (onlyEvaluates_conditionHolds _ scope condition)) fun holds => ?_
                cases holds with
                | true => exact once scope
                | false => exact congruence.pure _
          | some branch =>
              have later := branch.related_bake congruence
                (fun key member => answers key (.inl (.inl member))) .laterBranch address ambient
              cases standing <;>
              · refine congruence.bind (congruence.ended
                  (onlyEvaluates_conditionHolds _ scope condition)) fun holds => ?_
                cases holds with
                | true => exact once scope
                | false => exact later
      | plain => cases standing <;> exact once scope
      | letIn name text =>
          cases standing with
          | laterBranch => exact once scope
          | alone =>
              exact congruence.bind (congruence.ended (Expression.onlyEvaluates_evaluate _ _ _))
                fun value => once (scope.bind name value)
      | listIteration name iterable =>
          cases standing with
          | laterBranch => exact once scope
          | alone =>
              exact congruence.bind (congruence.ended (Expression.onlyEvaluates_evaluate _ _ _))
                fun list => congruence.bind (congruence.gather _ fun position =>
                  congruence.bind (congruence.ended (onlyEvaluates_itemAt list position))
                    fun item => nodes (scope.bind name item)) fun texts => congruence.pure _
      | mapIteration key value text =>
          cases standing with
          | laterBranch => exact once scope
          | alone =>
              exact congruence.bind (congruence.ended (Expression.onlyEvaluates_evaluate _ _ _))
                fun map => congruence.bind (congruence.gather map.fieldNames fun field =>
                  congruence.bind
                    (congruence.ended (onlyEvaluates_fieldBindings key value map field))
                    fun names => nodes (scope.extend names)) fun texts => congruence.pure _
      | importing name key =>
          cases standing with
          | laterBranch => exact once scope
          | alone =>
              exact congruence.bind
                ((answers key (.inl (.inl (List.mem_singleton_self key)))).bound _ scope)
                fun value => once (scope.bind name value)

theorem related_bakeBindings (congruence : Congruence Related) :
    ∀ blocks : List (String × Model),
    (∀ key ∈ importedByBlocks blocks, Answers Related expand key) →
    ∀ address index scope,
    Related Scope (bakeBindings address index scope blocks)
      (bakeBindings address index scope (replaceInBlocks expand blocks))
  | [], _, _, _, scope => congruence.pure scope
  | (name, block) :: rest, answers, address, index, scope => by
      simp only [importedByBlocks, List.mem_append] at answers
      rw [replaceInBlocks, bakeBindings, bakeBindings]
      exact congruence.bind (block.related_bake congruence
        (fun key member => answers key (.inl member)) .alone (index :: address) scope)
        fun baked => related_bakeBindings congruence rest
          (fun key member => answers key (.inr member)) address (index + 1) _

theorem related_bakeNodes (congruence : Congruence Related) :
    ∀ nodes : List Node, (∀ key ∈ importedByNodes nodes, Answers Related expand key) →
    ∀ address scope,
    Related (List String) (bakeNodes address scope nodes)
      (bakeNodes address scope (replaceInNodes expand nodes))
  | [], _, _, _ => congruence.pure []
  | node :: rest, answers, address, scope => by
      simp only [importedByNodes, List.mem_append] at answers
      rw [replaceInNodes, bakeNodes, bakeNodes]
      exact congruence.bind (related_bakeNode congruence node
        (fun key member => answers key (.inl member)) address scope)
        fun text => congruence.bind (related_bakeNodes congruence rest
          (fun key member => answers key (.inr member)) address scope)
          fun more => congruence.pure (text :: more)

theorem related_bakeNode (congruence : Congruence Related) :
    ∀ node : Node, (∀ key ∈ node.importedKeys, Answers Related expand key) →
    ∀ address scope,
    Related String (bakeNode address scope node)
      (bakeNode address scope (node.replaceImports expand))
  | .literal text, _, _, _ => congruence.pure text
  | .expression text strict, _, address, scope => by
      cases strict with
      | true =>
          exact congruence.bind (congruence.ended (Expression.onlyEvaluates_evaluate _ _ _))
            fun value => congruence.pure value.text
      | false => exact congruence.pure _
  | .scope model, answers, address, scope =>
      congruence.bind (model.related_bake congruence answers .alone address scope)
        fun baked => congruence.pure baked.text
  | .importing key, answers, address, scope => by
      have answer := answers key (List.mem_singleton_self key)
      rw [Node.replaceImports]
      cases expanded : expand key with
      | none =>
          exact congruence.bind (answer.bound address scope) fun value => congruence.pure value.text
      | some model =>
          have inPlace := congruence.bind (answer.inPlace model expanded address scope)
            fun value => congruence.pure value.text
          rwa [Baking.bind_assoc] at inPlace

end

end

/-! ## What a baking asks for -/

/-- Whether a baking asks only for certain assets, and fails of itself only as expressions do. -/
inductive Baking.Within (asked : String → Prop) {α : Type} : Baking α → Prop
  | ended {result : Except RenderError α} (evaluates : Expression.OnlyEvaluates result) :
      Within asked (.ended result)
  | asking {address : Address} {scope : Scope} {key : String} {resume : Value → Baking α}
      (isAsked : asked key) (rest : ∀ value, Within asked (resume value)) :
      Within asked (.asking address scope key resume)

theorem Baking.Within.bind {asked : String → Prop} {α β : Type} {first : Baking α}
    {next : α → Baking β} (before : first.Within asked)
    (after : ∀ value, (next value).Within asked) : (first >>= next).Within asked := by
  induction before with
  | @ended result evaluates =>
      cases result with
      | error error => exact .ended (.error (evaluates error rfl))
      | ok value => exact after value
  | asking isAsked _ induction => exact .asking isAsked induction

theorem Baking.Within.mono {asked wanted : String → Prop} {α : Type} {baking : Baking α}
    (within : baking.Within asked) (implies : ∀ key, asked key → wanted key) :
    baking.Within wanted := by
  induction within with
  | ended evaluates => exact .ended evaluates
  | asking isAsked _ induction => exact .asking (implies _ isAsked) induction

theorem Baking.congruence_within (asked : String → Prop) :
    Congruence fun _ first _ => first.Within asked where
  ended evaluates := .ended evaluates
  bind before after := before.bind after

/-- A template asks only for what it imports. -/
theorem Model.within_bake (model : Model) (standing : Standing) (address : Address)
    (ambient : Scope) :
    (model.bake standing address ambient).Within (· ∈ model.importedKeys) := by
  have answers (key : String) (member : key ∈ model.importedKeys) :
      Baking.Answers (fun _ first _ => first.Within (· ∈ model.importedKeys)) (fun _ => none) key :=
    ⟨fun address scope => .asking member fun value => .ended (.ok value),
      fun _ isSome => nomatch isSome⟩
  exact model.related_bake (Baking.congruence_within _) answers standing address ambient

end Template
end StaticSite
