import StaticSite.Proofs.Asset.Unrolling
import StaticSite.Proofs.Template.Chains
import StaticSite.Proofs.Value.Evaluated

/-!
# Visiting fields

An iteration over what is like a map bakes its children once for each name that there is a field
for, in order, each time on the graph that was left by the time before.
-/

namespace StaticSite

open Template (Model Node Baking Baked Importer Outcome bakeBindings bakeNodes fieldBindings)
open Expression (evaluate)

namespace Template

/-! ## Scopes of named blocks -/

/-- Whether a baking ends, if it ends well, with what has a property, whatever imports are answered
with. -/
def Baking.Ends {α : Type} (property : α → Prop) (baking : Baking α) : Prop :=
  ∀ (imports : Importer) (value : α), (baking.outcome imports).result = .ok value → property value

namespace Baking.Ends

variable {α β : Type} {property : α → Prop} {other : β → Prop}

theorem pure {value : α} (holds : property value) : Ends property (Pure.pure value) := by
  intro imports found isFound
  exact Except.ok.inj isFound ▸ holds

theorem bind {first : Baking α} {next : α → Baking β} (before : first.Ends property)
    (after : ∀ value, property value → (next value).Ends other) : (first >>= next).Ends other := by
  intro imports last ends
  rw [Baking.result_outcome_bind] at ends
  obtain ⟨value, begins, ends⟩ := Except.bind_eq_ok_iff.mp ends
  exact after value (before imports value begins) imports last ends

/-- What only the rest decides. -/
theorem after {first : Baking α} {next : α → Baking β}
    (each : ∀ value, (next value).Ends other) : (first >>= next).Ends other := by
  have anything : first.Ends fun _ => True := fun _ _ _ => trivial
  exact anything.bind fun value _ => each value

end Baking.Ends

mutual

/-- A scope that is baked in one that binds no name twice does not either: it only adds its named
blocks, one frame for each. -/
theorem Model.ends_bake : ∀ (model : Model) (standing : Standing) (address : Address)
    (ambient : Scope), ambient.Distinct →
    (model.bake standing address ambient).Ends fun baked => baked.scope.Distinct
  | .mk shape bindings children, standing, address, ambient, distinct => by
      rw [Model.bake]
      refine (ends_bakeBindings bindings address 0 ambient distinct).bind fun scope bound => ?_
      cases shape with
      | conditional condition next =>
          have later (branch : Model) (isNext : next = some branch) :
              (branch.bake .laterBranch address ambient).Ends fun baked =>
                baked.scope.Distinct := by
            subst isNext
            exact branch.ends_bake .laterBranch address ambient distinct
          cases standing <;>
          · refine .after fun holds => ?_
            cases holds with
            | true => exact .after fun texts => .pure bound
            | false =>
                cases next with
                | none => exact .pure bound
                | some branch => exact later branch rfl
      | _ =>
        cases standing with
        | laterBranch => exact .after fun texts => .pure bound
        | alone => first
          | exact .after fun texts => .pure bound
          | exact .after fun value => .after fun texts => .pure bound

theorem ends_bakeBindings : ∀ (bindings : List (String × Model)) (address : Address)
    (index : Nat) (scope : Scope), scope.Distinct →
    (bakeBindings address index scope bindings).Ends Scope.Distinct
  | [], _, _, _, distinct => by
      rw [bakeBindings]
      exact .pure distinct
  | (name, block) :: rest, address, index, scope, distinct => by
      rw [bakeBindings]
      refine (block.ends_bake .alone (index :: address) scope distinct).bind fun baked bound => ?_
      exact ends_bakeBindings rest address (index + 1) _
        (distinct.bind name (Value.distinct_scope_iff.mpr bound))

end

/-! ## What is bound to visit a field -/

/-- The names that are bound to visit a field: the key stands for the name of the field, the value
for what is in it.  One name for both is the value. -/
def visitBindings (key value : Option String) (name : String) (own : Value) : Fields :=
  Fields.ofEntries ((key.map fun bound => (bound, .string name)).toList ++
    (value.map fun bound => (bound, own)).toList)

theorem fieldBindings_eq_ok {map own : Value} {name : String}
    (found : map.field? .any name = .ok (some own)) (key value : Option String) :
    fieldBindings key value map name = .ok (visitBindings key value name own) := by
  cases value with
  | none => cases key <;> rfl
  | some bound =>
      have here : fieldBindings key (some bound) map name = map.field? .any name >>= _ := rfl
      rw [here, found]
      cases key <;> rfl

/-- The baking of what a scope renders, as a text. -/
def bakeText (address : Address) (scope : Scope) (nodes : List Node) : Baking Value := do
  let texts ← bakeNodes address scope nodes
  pure (.string (String.join texts))

theorem Baking.gather_congr {α : Type} {items : List α} {bake other : α → Baking (List String)}
    (same : ∀ item ∈ items, bake item = other item) : gather items bake = gather items other := by
  induction items with
  | nil => rfl
  | cons item items induction =>
      obtain ⟨first, others⟩ := List.forall_mem_cons.mp same
      rw [gather, gather, first, induction others]

/-- What an iteration over what is like a map does once its blocks are bound. -/
theorem outcome_bake_mapIteration {imports : Importer} {address : Address} {ambient scope : Scope}
    {text : String} {bindings : List (String × Model)}
    {keys : List String} {map : Value} {own : String → Value}
    (blocks : (bakeBindings address 0 ambient bindings).outcome imports = ⟨keys, .ok scope⟩)
    (evaluates : evaluate scope .map text = .ok map)
    (found : ∀ name ∈ map.fieldNames, map.field? .any name = .ok (some (own name)))
    (key value : Option String) (children : List Node) :
    ((Model.mk (.mapIteration key value text) bindings children).bake .alone address
        ambient).outcome imports =
      (((Baking.gather map.fieldNames fun name => bakeNodes (bindings.length :: address)
        (scope.extend (visitBindings key value name (own name))) children).outcome imports).map
          fun texts => ⟨address, scope, String.join texts⟩).behind keys := by
  have visits : (Baking.gather map.fieldNames fun name => do
        let names ← Baking.ended (fieldBindings key value map name)
        bakeNodes (bindings.length :: address) (scope.extend names) children) =
      Baking.gather map.fieldNames fun name => bakeNodes (bindings.length :: address)
        (scope.extend (visitBindings key value name (own name))) children := by
    refine Baking.gather_congr fun name member => ?_
    rw [fieldBindings_eq_ok (found name member)]
    rfl
  rw [Model.bake, Baking.outcome_bind, blocks, Outcome.andThen_ok]
  refine congrArg (Outcome.behind keys) ?_
  change (Baking.ended (evaluate scope .map text) >>= _).outcome imports = _
  rw [evaluates, ← visits]
  exact Baking.outcome_bind_pure ..

end Template

/-! ## Runs one after the other -/

namespace Run

variable {files : FileTree} {library : Library}

/-- The end of a run of a single asset, on a graph that has the assets of a library. -/
theorem finish_eq_of_yields (graph : Graph) (yields : graph.Yields files library)
    (current : Baking Value) :
    let outcome := current.outcome (library.importer graph.stack)
    finish files ⟨graph, current, []⟩ = (graph.keep library outcome.reached, outcome.result) := by
  have reach := reaches_outcome graph yields current []
  rw [finish_of_reaches reach]
  exact finish_of_next_eq_finished rfl

end Run

namespace Graph

/-- Bake something for each of some items, each on the graph that is left by those before it, up to
the first that fails. -/
def visit {α : Type} (files : FileTree) (each : α → Baking Value) (graph : Graph) :
    List α → Graph × Except RenderError (List String)
  | [] => (graph, .ok [])
  | item :: rest =>
      match Run.finish files ⟨graph, each item, []⟩ with
      | (later, .error error) => (later, .error error)
      | (later, .ok value) =>
          let others := later.visit files each rest
          (others.1, (value.text :: ·) <$> others.2)

/-- Visiting items one by one comes to the same as baking something for each of them at once. -/
theorem visit_eq {α : Type} {files : FileTree} {library : Library} {stack : List String}
    (bake : α → Baking (List String)) (items : List α) (graph : Graph)
    (yields : graph.Yields files library) (sameStack : graph.stack = stack) :
    let visits := graph.visit files
      (fun item => bake item >>= fun texts => pure (.string (String.join texts))) items
    let outcome := (Baking.gather items bake).outcome (library.importer stack)
    visits.1 = graph.keep library outcome.reached ∧
      String.join <$> visits.2 = String.join <$> outcome.result := by
  subst sameStack
  induction items generalizing graph with
  | nil => exact ⟨rfl, rfl⟩
  | cons item items induction =>
      have ended := Run.finish_eq_of_yields graph yields
        (bake item >>= fun texts => pure (.string (String.join texts)))
      rw [Baking.outcome_bind_pure] at ended
      rw [Baking.gather, Baking.outcome_bind, visit]
      cases first : (bake item).outcome (library.importer graph.stack) with
      | mk keys result =>
          rw [first] at ended
          cases result with
          | error error =>
              have failed : Run.finish files _ = (graph.keep library keys, .error error) := ended
              rw [failed]
              exact ⟨rfl, rfl⟩
          | ok texts =>
              have baked : Run.finish files _ =
                (graph.keep library keys, .ok (.string (String.join texts))) := ended
              rw [baked]
              obtain ⟨graphs, others⟩ := induction (graph.keep library keys) (yields.keep keys)
              rw [keep_stack] at graphs others
              rw [Outcome.andThen_ok, Baking.outcome_bind_pure]
              refine ⟨graphs.trans (keep_append ..).symm, ?_⟩
              calc
                String.join <$> (String.join texts :: ·) <$> _
                  = (String.join texts ++ ·) <$> String.join <$> _ :=
                    Template.join_map_cons _ _
                _ = (String.join texts ++ ·) <$> String.join <$> _ := by rw [others]
                _ = _ := (Template.join_map_append texts _).symm

/-- A run of an iteration over what is like a map goes on from where its blocks are bound by
visiting each name that there is a field for. -/
theorem finish_mapIteration {graph blocksGraph : Graph} {files : FileTree} {address : Address}
    {ambient scope : Scope} {key value : Option String} {text : String}
    {bindings : List (String × Model)} {map : Value} {own : String → Value}
    (ran : (graph.templateRun address ambient (.mk .plain bindings [])).finish files =
      (blocksGraph, .ok (.scope address scope.frames "")))
    (evaluates : evaluate scope .map text = .ok map)
    (found : ∀ name ∈ map.fieldNames, map.field? .any name = .ok (some (own name)))
    (children : List Node) :
    let visits := blocksGraph.visit files (fun name =>
      Template.bakeText (bindings.length :: address)
        (scope.extend (Template.visitBindings key value name (own name))) children) map.fieldNames
    let iteration := (graph.templateRun address ambient
      (.mk (.mapIteration key value text) bindings children)).finish files
    iteration.1 = visits.1 ∧ Value.text <$> iteration.2 = String.join <$> visits.2 := by
  rw [templateRun, Run.finish_eq, Template.outcome_bake_blocks] at ran
  cases blocks : (bakeBindings address 0 ambient bindings).outcome
      ((graph.library files).importer graph.stack) with
  | mk keys result =>
      rw [blocks] at ran
      obtain ⟨rfl, bound⟩ := Prod.mk.inj ran
      obtain ⟨⟨frames⟩, rfl, same⟩ := Except.map_eq_ok_iff.mp bound
      obtain ⟨-, rfl, -⟩ := Value.scope.inj same
      obtain ⟨graphs, texts⟩ := visit_eq (fun name => bakeNodes (bindings.length :: address)
        (scope.extend (Template.visitBindings key value name (own name))) children) map.fieldNames
        (graph.keep (graph.library files) keys) ((graph.yields_library files).keep keys) rfl
      have baked := Template.outcome_bake_mapIteration blocks evaluates found key value children
      simp only [templateRun, Run.finish_eq, Asset.bake, Baking.outcome_bind_pure]
      rw [baked]
      refine ⟨(keep_append ..).trans graphs.symm, ?_⟩
      refine Eq.trans ?_ texts.symm
      change Value.text <$> Baked.toValue <$>
        (fun texts => (⟨address, scope, String.join texts⟩ : Baked)) <$> _ = _
      rw [Functor.map_map, Functor.map_map]
      rfl

/-- An iteration over what is like a map visits each name once that there is a field for.

A value that is like a map tells no name twice, and asking for a field finds something for just the
names that it tells: what a map has there, or the innermost of the frames that bind the name, or a
length.  A scope tells the visible names, those of the innermost frame first.

So an iteration bakes its children once for each name in order, each time on the graph that was left
by the time before, with the name and what is in the field bound as it asks.  There always is a
field of the name. -/
theorem templateRun_mapIteration :
    (∀ value : Value, value.Distinct → value.kind.conformsTo .map = true →
      value.fieldNames.Nodup ∧
        (∀ name, ∃ found, value.field? .any name = .ok found ∧
          (found.isSome = true ↔ name ∈ value.fieldNames)) ∧
        (∀ name found, value.field? .any name = .ok (some found) ↔ value.HasField name found) ∧
        ∀ address frames text, value = .scope address frames text →
          value.fieldNames = Scope.visibleNames frames) ∧
      ∀ (graph blocksGraph : Graph) (files : FileTree) (address : Address) (ambient scope : Scope)
        (key value : Option String) (text : String) (bindings : List (String × Model))
        (children : List Node) (map : Value),
        ambient.Distinct →
        (graph.templateRun address ambient (.mk .plain bindings [])).finish files =
          (blocksGraph, .ok (.scope address scope.frames "")) →
        evaluate scope .map text = .ok map →
        map.Distinct ∧ map.kind.conformsTo .map = true ∧
          ∃ own : String → Value,
            (∀ name ∈ map.fieldNames, map.HasField name (own name) ∧
              fieldBindings key value map name =
                .ok (Template.visitBindings key value name (own name))) ∧
            let visits := blocksGraph.visit files (fun name =>
              Template.bakeText (bindings.length :: address)
                (scope.extend (Template.visitBindings key value name (own name))) children)
              map.fieldNames
            let iteration := (graph.templateRun address ambient
              (.mk (.mapIteration key value text) bindings children)).finish files
            iteration.1 = visits.1 ∧ Value.text <$> iteration.2 = String.join <$> visits.2 := by
  refine ⟨fun value distinct mapLike => ⟨Value.nodup_fieldNames distinct, ?_, ?_, ?_⟩, ?_⟩
  · exact fun name => Value.field?_any_eq_ok mapLike name
  · exact fun name found => Value.field?_any_eq_ok_some_iff distinct mapLike
  · rintro address frames text rfl
    cases distinct with
    | scope names _ => exact Scope.names_eq_visibleNames names
  · intro graph blocksGraph files address ambient scope key value text bindings children map
      ambientDistinct ran evaluates
    have scopeDistinct : scope.Distinct := by
      rw [templateRun, Run.finish_eq, Template.outcome_bake_blocks] at ran
      obtain ⟨⟨frames⟩, bound, same⟩ := Except.map_eq_ok_iff.mp (Prod.mk.inj ran).2
      obtain ⟨-, rfl, -⟩ := Value.scope.inj same
      exact Template.ends_bakeBindings bindings address 0 ambient ambientDistinct _ _ bound
    have mapDistinct := Expression.givesDistinct_evaluate scopeDistinct .map text map evaluates
    have mapLike := Expression.admits_evaluate scope .map text map evaluates
    -- names without a field are given any value, which nothing asks for
    have holds (name : String) : ∃ own, name ∈ map.fieldNames →
        map.field? .any name = .ok (some own) := by
      obtain ⟨found, isFound, present⟩ := Value.field?_any_eq_ok mapLike name
      cases found with
      | none => exact ⟨default, fun member => by simpa using present.mpr member⟩
      | some own => exact ⟨own, fun _ => isFound⟩
    choose own found using holds
    refine ⟨mapDistinct, mapLike, own, fun name member => ⟨?_, ?_⟩, ?_⟩
    · exact (Value.field?_any_eq_ok_some_iff mapDistinct mapLike).mp (found name member)
    · exact Template.fieldBindings_eq_ok (found name member) key value
    · exact finish_mapIteration ran evaluates found children

/-- Two frames of which the inner one hides a name of the outer one. -/
def petFrames : List Fields :=
  [[("cat", .string "Tom")], [("dog", .string "Rex"), ("cat", .string "Ino")]]

def petScope : Scope :=
  Scope.root.bind "pets" (.scope [7] petFrames "")

/-- What renders the name and the value that are bound. -/
def petNodes : List Node :=
  [.expression "kind" true, .literal ": ", .expression "name" true, .literal "; "]

theorem distinct_petScope : petScope.Distinct := by
  refine Scope.distinct_root.bind "pets" (.scope (by decide) ?_)
  simp only [petFrames, List.forall_mem_cons]
  exact ⟨⟨.string _, by simp⟩, ⟨.string _, .string _, by simp⟩, by simp⟩

/-- Each name comes out once with what the innermost frame binds it to. -/
theorem templateRun_mapIteration_pets :
    (Value.scope [7] petFrames "").fieldNames = ["cat", "dog"] ∧
      bareGraph.rendered ⟨[], []⟩ [] petScope
        (.mk (.mapIteration (some "kind") (some "name") "pets") [] petNodes) =
        .ok "cat: Tom; dog: Rex; " := by
  obtain ⟨ofValues, ofRuns⟩ := templateRun_mapIteration
  have ran : (bareGraph.templateRun [] petScope (.mk .plain [] [])).finish ⟨[], []⟩ =
      (bareGraph, .ok (.scope [] petScope.frames "")) := by
    rw [templateRun, Run.finish_eq]
    rfl
  have evaluates : evaluate petScope .map "pets" = .ok (.scope [7] petFrames "") := by
    cbv
  obtain ⟨distinct, mapLike, own, each, -, texts⟩ := ofRuns bareGraph bareGraph ⟨[], []⟩ []
    petScope petScope (some "kind") (some "name") "pets" [] petNodes _ distinct_petScope ran
    evaluates
  obtain ⟨-, -, fields, names⟩ := ofValues _ distinct mapLike
  have told : (Value.scope [7] petFrames "").fieldNames = ["cat", "dog"] := names _ _ _ rfl
  have isOwn {name : String} {found : Value} (member : name ∈ ["cat", "dog"])
      (finds : (Value.scope [7] petFrames "").field? .any name = .ok (some found)) :
      own name = found := by
    have finds' := (fields name (own name)).mpr (each name (told ▸ member)).1
    exact Option.some.inj (Except.ok.inj (finds'.symm.trans finds))
  have cat : own "cat" = .string "Tom" := isOwn (by simp) (by cbv)
  have dog : own "dog" = .string "Rex" := isOwn (by simp) (by cbv)
  refine ⟨told, texts.trans ?_⟩
  rw [told]
  simp only [visit, cat, dog, Run.finish_eq]
  cbv

end Graph
end StaticSite
