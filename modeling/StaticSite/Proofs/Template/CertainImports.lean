import StaticSite.Proofs.Template.Imports

/-!
# Imports that cannot be passed over

What a template imports outside of conditionals and iterations is asked for whenever the template is
baked to its end.  So are the imports in its named blocks, which are baked before anything else.
-/

namespace StaticSite
namespace Template

/-- The keys that a scope imports in any case, when its children import some. -/
def Shape.certainKeys (children : List String) : Shape → List String
  | .plain | .letIn .. => children
  | .importing _ key => key :: children
  | .conditional .. | .listIteration .. | .mapIteration .. => []

mutual

/-- The keys of the assets that a model imports outside of conditionals and iterations, in place or
bound to a name. -/
def Model.certainKeys : Model → List String
  | .mk shape bindings children =>
      certainInBlocks bindings ++ shape.certainKeys (certainInNodes children)

def certainInBlocks : List (String × Model) → List String
  | [] => []
  | (_, block) :: rest => block.certainKeys ++ certainInBlocks rest

def certainInNodes : List Node → List String
  | [] => []
  | node :: rest => node.certainKeys ++ certainInNodes rest

def Node.certainKeys : Node → List String
  | .importing key => [key]
  | .scope model => model.certainKeys
  | .literal _ | .expression .. => []

end

/-- Whether a baking asks for an asset on every way to its end, unless it fails. -/
inductive Baking.Requires (key : String) {α : Type} : Baking α → Prop
  | failed (error : RenderError) : Requires key (.ended (.error error))
  | asked (address : Address) (scope : Scope) (resume : Value → Baking α) :
      Requires key (.asking address scope key resume)
  | later {address : Address} {scope : Scope} {other : String} {resume : Value → Baking α}
      (rest : ∀ value, Requires key (resume value)) :
      Requires key (.asking address scope other resume)

namespace Baking

variable {α β : Type} {key : String} {first : Baking α} {next : α → Baking β}

theorem Requires.bind (requires : first.Requires key) : (first >>= next).Requires key := by
  induction requires with
  | failed error => exact .failed error
  | asked address scope resume => exact .asked address scope _
  | later _ induction => exact .later induction

/-- What follows may ask as well. -/
theorem requires_bind (requires : ∀ value, (next value).Requires key) :
    (first >>= next).Requires key := by
  induction first with
  | ended result =>
      cases result with
      | error error => exact .failed error
      | ok value => exact requires value
  | asking address scope other resume induction => exact .later induction

end Baking

section

variable {key : String}

mutual

theorem Model.requires_bake : ∀ model : Model, key ∈ model.certainKeys →
    ∀ address ambient, (model.bake .alone address ambient).Requires key
  | .mk shape bindings children, member, address, ambient => by
      rw [Model.certainKeys, List.mem_append] at member
      rw [Model.bake]
      rcases member with inBlocks | inShape
      · exact (requires_bakeBindings bindings inBlocks address 0 ambient).bind
      · refine Baking.requires_bind fun scope => ?_
        cases shape with
        | plain => exact (requires_bakeNodes children inShape _ scope).bind
        | letIn name text =>
            exact Baking.requires_bind fun value =>
              (requires_bakeNodes children inShape _ (scope.bind name value)).bind
        | importing name other =>
            rcases List.mem_cons.mp inShape with rfl | inChildren
            · exact (Baking.Requires.asked _ scope _).bind
            · exact Baking.requires_bind fun value =>
                (requires_bakeNodes children inChildren _ (scope.bind name value)).bind
        | conditional | listIteration | mapIteration => contradiction

theorem requires_bakeBindings : ∀ blocks : List (String × Model), key ∈ certainInBlocks blocks →
    ∀ address index scope, (bakeBindings address index scope blocks).Requires key
  | (name, block) :: rest, member, address, index, scope => by
      rw [certainInBlocks, List.mem_append] at member
      rw [bakeBindings]
      rcases member with inBlock | inRest
      · exact (block.requires_bake inBlock (index :: address) scope).bind
      · exact Baking.requires_bind fun baked => requires_bakeBindings rest inRest _ _ _

theorem requires_bakeNodes : ∀ nodes : List Node, key ∈ certainInNodes nodes →
    ∀ address scope, (bakeNodes address scope nodes).Requires key
  | node :: rest, member, address, scope => by
      rw [certainInNodes, List.mem_append] at member
      rw [bakeNodes]
      rcases member with inNode | inRest
      · exact (requires_bakeNode node inNode address scope).bind
      · exact Baking.requires_bind fun text => (requires_bakeNodes rest inRest address scope).bind

theorem requires_bakeNode : ∀ node : Node, key ∈ node.certainKeys →
    ∀ address scope, (bakeNode address scope node).Requires key
  | .importing other, member, address, scope => by
      obtain rfl : key = other := List.mem_singleton.mp member
      exact (Baking.Requires.asked address scope _).bind
  | .scope model, member, address, scope =>
      (model.requires_bake member .. ).bind

end

end

end Template
end StaticSite
