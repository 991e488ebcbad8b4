import Mathlib
import StaticSite.Asset.Graph
import StaticSite.Proofs.Asset.Imports

/-!
# Inlining

Where no asset imports itself through others, baking a template comes to the same as baking it with
the templates that it imports in place written out.  The two go different ways: the one through the
graph, its stack and the wrappers of errors, the other straight on.
-/

namespace StaticSite

open Template (Model Baking Importer Outcome)

/-! ## Results up to wrappers -/

/-- Whether two results are the same value, or errors with the same root cause. -/
def Concur {α : Type} (result other : Except RenderError α) : Prop :=
  result.mapError RenderError.rootCause = other.mapError RenderError.rootCause

namespace Concur

variable {α β : Type} {result other third : Except RenderError α}

theorem refl (result : Except RenderError α) : Concur result result := rfl

theorem symm (concur : Concur result other) : Concur other result := Eq.symm concur

theorem trans (first : Concur result other) (second : Concur other third) :
    Concur result third := Eq.trans first second

theorem cases (concur : Concur result other) :
    (∃ value, result = .ok value ∧ other = .ok value) ∨
      ∃ error wrapped, result = .error error ∧ other = .error wrapped ∧
        error.rootCause = wrapped.rootCause := by
  cases result with
  | error error =>
      cases other with
      | error wrapped => exact .inr ⟨error, wrapped, rfl, rfl, Except.error.inj concur⟩
      | ok value => contradiction
  | ok value =>
      cases other with
      | error error => contradiction
      | ok _ => exact .inl ⟨value, rfl, congrArg Except.ok (Except.ok.inj concur).symm⟩

theorem bind (before : Concur result other) {next following : α → Except RenderError β}
    (rest : ∀ value, Concur (next value) (following value)) :
    Concur (result >>= next) (other >>= following) := by
  obtain ⟨value, rfl, rfl⟩ | ⟨error, wrapped, rfl, rfl, same⟩ := before.cases
  · exact rest value
  · exact congrArg Except.error same

end Concur

@[simp]
theorem RenderError.rootCause_inAsset (key : String) (location : Option Location)
    (error : RenderError) : (error.inAsset key location).rootCause = error.rootCause := by
  cases error with
  | parsingFailed inner place source =>
      by_cases same : inner = key
      · simp [inAsset, same]
      · simp [inAsset, same, rootCause]
  | _ => rfl

/-- Wrapping an error does not change its cause. -/
theorem concur_mapError_inAsset {α : Type} (result : Except RenderError α) (key : String) :
    Concur (result.mapError (·.inAsset key none)) result := by
  cases result with
  | error error => exact congrArg Except.error (error.rootCause_inAsset key none)
  | ok value => rfl

/-! ## Answers to imports -/

namespace Template

/-- What is baked first and what follows it are answered in turn. -/
theorem Baking.result_outcome_bind {α β : Type} (imports : Importer) (first : Baking α)
    (next : α → Baking β) :
    ((first >>= next).outcome imports).result =
      (first.outcome imports).result >>= fun value => ((next value).outcome imports).result := by
  induction first with
  | ended result => cases result <;> rfl
  | asking address scope key resume induction =>
      have onward : (asking address scope key resume >>= next) =
          asking address scope key fun value => resume value >>= next := rfl
      rw [onward, outcome, outcome, Outcome.andThen, Outcome.andThen]
      cases (imports address scope key).result with
      | error error => rfl
      | ok value => exact induction value

/-- Results of bakings under two importers that concur are kept by what follows. -/
theorem Baking.congruence_concur (imports other : Importer) :
    Baking.Congruence fun _ first second =>
      Concur (first.outcome imports).result (second.outcome other).result where
  ended _ := .refl _
  bind before rest := by
    rw [result_outcome_bind, result_outcome_bind]
    exact before.bind rest

end Template

namespace Library

variable {library : Library}

/-- Whether no key on a stack is imported by the asset with a key, directly or through others. -/
def Clears (library : Library) (key : String) (stack : List String) : Prop :=
  ∀ opened ∈ stack, ¬ Relation.ReflTransGen library.Imports key opened

theorem Clears.not_mem {key : String} {stack : List String} (clears : library.Clears key stack) :
    key ∉ stack :=
  fun member => clears key member .refl

/-- What an asset imports stays clear of the stack on which its key is put. -/
theorem Clears.push (acyclic : library.Acyclic) {key other : String} {stack : List String}
    (clears : library.Clears key stack) (step : library.Imports key other) :
    library.Clears other (stack ++ [key]) := by
  intro opened member reached
  rcases List.mem_append.mp member with before | isKey
  · exact clears opened before (.head step reached)
  · obtain rfl := List.mem_singleton.mp isKey
    exact acyclic opened (.head' step reached)

theorem Clears.imported {key other : String} {stack : List String}
    (clears : library.Clears key stack) (step : library.Imports key other) :
    library.Clears other stack :=
  fun opened member reached => clears opened member (.head step reached)

/-- What stands for the import of a key once templates are written out: the root model of the
template with that key, or else the import itself. -/
def standIn (library : Library) (acyclic : library.Acyclic) (address : Address) (scope : Scope)
    (key : String) : Baking Value :=
  match library.inlined? acyclic key with
  | some model => (Asset.template model).bake address scope
  | none => Baking.ask address scope key

/-- Where imports and what stands for them concur, so do a template and the template with its
imports written out. -/
theorem concur_inline {acyclic : library.Acyclic} {imports other : Importer} (model : Model)
    (bound : ∀ key ∈ model.importedKeys, ∀ address scope,
      Concur (imports address scope key).result (other address scope key).result)
    (inPlace : ∀ key ∈ model.importedKeys, ∀ address scope,
      Concur (imports address scope key).result
        ((library.standIn acyclic address scope key).outcome other).result)
    (address : Address) (scope : Scope) :
    Concur (((Asset.template model).bake address scope).outcome imports).result
      (((Asset.template (library.inline acyclic model)).bake address scope).outcome
        other).result := by
  have congruence := Baking.congruence_concur imports other
  refine congruence.bind (model.related_bake congruence (fun key member => ?_) .alone address scope)
    fun baked => congruence.pure baked.toValue
  refine ⟨fun address scope => ?_, fun root expanded address scope => ?_⟩
  · simpa only [Baking.outcome_ask] using bound key member address scope
  · have answer := inPlace key member address scope
    rw [standIn, expanded] at answer
    rwa [Baking.outcome_ask]

/-- An import is answered as what stands for it, whatever is being baked, as long as nothing that
is being baked is imported again.  The induction is on the key, along its imports. -/
theorem concur_importer (acyclic : library.Acyclic) (key : String) {stack opened : List String}
    (clears : library.Clears key stack) (other : library.Clears key opened) (address : Address)
    (scope : Scope) :
    Concur (library.importer stack address scope key).result
      ((library.standIn acyclic address scope key).outcome (library.importer opened)).result := by
  induction key using acyclic.wellFounded.induction generalizing stack opened address scope with
  | _ key induction =>
  cases found : library.resolve key with
  | error error =>
      rw [standIn, inlined?_of_error acyclic found, Baking.outcome_ask, importer_of_error found,
        importer_of_error found]
      exact .refl _
  | ok asset =>
      rw [importer_of_not_mem found clears.not_mem]
      refine (concur_mapError_inAsset _ key).trans ?_
      cases asset with
      | data value =>
          rw [standIn, inlined?_of_data acyclic found, Baking.outcome_ask,
            importer_of_not_mem found other.not_mem]
          exact .refl _
      | template model =>
          rw [standIn, inlined?_of_template acyclic found]
          have step {name : String} (named : name ∈ model.importedKeys) :
              library.Imports key name := ⟨model, found, named⟩
          refine concur_inline model (fun name named address scope => ?_)
            (fun name named address scope => ?_) address scope
          · -- both stacks are clear, so both answers concur with what stands for the import
            have onward := induction name (step named) (clears.push acyclic (step named))
              (other.imported (step named)) address scope
            have again := induction name (step named) (other.imported (step named))
              (other.imported (step named)) address scope
            exact onward.trans again.symm
          · exact induction name (step named) (clears.push acyclic (step named))
              (other.imported (step named)) address scope

end Library

namespace Graph

/-- The run that bakes a template in a scope. -/
def templateRun (graph : Graph) (address : Address) (scope : Scope) (model : Model) : Run :=
  ⟨graph, (Asset.template model).bake address scope, []⟩

/-- On a graph whose assets do not import each other in circles, baking a template comes to the
same as baking it with the templates that it imports in place written out: both give the same
value, and so the same text, or both fail for the same cause below all wrappers.  What is being
baked at that time must not be imported again. -/
theorem templateRun_inline (graph : Graph) (files : FileTree)
    (acyclic : (graph.library files).Acyclic) (model : Model)
    (clears : ∀ key ∈ model.importedKeys, (graph.library files).Clears key graph.stack)
    (address : Address) (scope : Scope) :
    let imported := (graph.templateRun address scope model).finish files
    let inlined := (graph.templateRun address scope
      ((graph.library files).inline acyclic model)).finish files
    (∃ value, imported.2 = .ok value ∧ inlined.2 = .ok value) ∨
      ∃ error other, imported.2 = .error error ∧ inlined.2 = .error other ∧
        error.rootCause = other.rootCause := by
  have importing := @Run.finish_eq files graph ((Asset.template model).bake address scope)
  have writtenOut := @Run.finish_eq files graph
    ((Asset.template ((graph.library files).inline acyclic model)).bake address scope)
  simp only [templateRun, importing, writtenOut]
  refine (Library.concur_inline model (fun key member address scope => .refl _)
    (fun key member address scope => ?_) address scope).cases
  exact Library.concur_importer acyclic key (clears key member) (clears key member) address scope

/-- Two templates, of which one imports the other in place. -/
def nestedFiles : FileTree :=
  ⟨[(["outer.html"], .file "<{{+ inner.html }}>".toUTF8),
    (["inner.html"], .file "{{= name }}".toUTF8)], []⟩

/-- A graph on which these templates are registered. -/
def nestedGraph : Graph where
  formats := Format.all
  paths := [("outer.html", ⟨"/outer.html"⟩), ("inner.html", ⟨"/inner.html"⟩)]
  pages := []
  decoded := []
  stack := []

/-- A template that imports the outer of these templates where a name is bound. -/
def nestedModel : Model :=
  .mk .plain [] [.scope (.mk (.letIn "name" "\"two\"") [] [.importing "outer.html"])]

/-- The same with the scopes of these templates written into each other. -/
def nestedInline : Model :=
  .mk .plain [] [.scope (.mk (.letIn "name" "\"two\"") [] [.scope (.mk .plain []
    [.literal "<", .scope (.mk .plain [] [.expression "name" true]), .literal ">"])])]

theorem resolve_outer : (nestedGraph.library nestedFiles).resolve "outer.html" =
    .ok (.template (.mk .plain [] [.literal "<", .importing "inner.html", .literal ">"])) := by
  cbv

theorem resolve_inner : (nestedGraph.library nestedFiles).resolve "inner.html" =
    .ok (.template (.mk .plain [] [.expression "name" true])) := by
  cbv

theorem acyclic_nested : (nestedGraph.library nestedFiles).Acyclic := by
  refine Library.acyclic_of_rank (fun key => if key = "outer.html" then 1 else 0) ?_
  rintro key other ⟨model, found, named⟩
  have known := Library.mem_keys_of_resolve found
  obtain rfl | rfl : key = "outer.html" ∨ key = "inner.html" := by
    simpa [library, nestedGraph] using known
  · obtain rfl := Asset.template.inj (Except.ok.inj (resolve_outer.symm.trans found))
    obtain rfl : other = "inner.html" := by
      simpa [Model.importedKeys, Template.Shape.importedKeys, Template.importedByBlocks,
        Template.importedByNodes, Template.Node.importedKeys] using named
    decide
  · obtain rfl := Asset.template.inj (Except.ok.inj (resolve_inner.symm.trans found))
    contradiction

/-- Baking the template that imports a template that imports a template and baking the scopes
written into each other both come out, with the same text. -/
theorem templateRun_inline_nested :
    (nestedGraph.library nestedFiles).inline acyclic_nested nestedModel = nestedInline ∧
      ∃ value,
        ((nestedGraph.templateRun [] .root nestedModel).finish nestedFiles).2 = .ok value ∧
        ((nestedGraph.templateRun [] .root nestedInline).finish nestedFiles).2 = .ok value ∧
        value.text = "<two>" := by
  have isInline : (nestedGraph.library nestedFiles).inline acyclic_nested nestedModel =
      nestedInline := by
    simp [Library.inline, nestedModel, nestedInline, Model.replaceImports,
      Template.Shape.replaceImports, Template.replaceInBlocks, Template.replaceInNodes,
      Template.Node.replaceImports, Library.inlined?_of_template acyclic_nested resolve_outer,
      Library.inlined?_of_template acyclic_nested resolve_inner]
  have comesOut : ((nestedGraph.templateRun [] .root nestedInline).finish nestedFiles).2 =
      .ok (.scope [] Scope.root.frames "<two>") := by
    -- nothing is imported, so it does not matter how imports are answered
    rw [templateRun, Run.finish_eq]
    generalize (nestedGraph.library nestedFiles).importer nestedGraph.stack = imports
    cbv
  have same := nestedGraph.templateRun_inline nestedFiles acyclic_nested nestedModel
    (fun key _ opened member => absurd member List.not_mem_nil) [] .root
  simp only [isInline, comesOut] at same
  obtain ⟨value, imported, isValue⟩ | ⟨error, other, -, fails, -⟩ := same
  · exact ⟨isInline, value, imported, comesOut.trans isValue, by
      rw [← Except.ok.inj isValue]
      rfl⟩
  · contradiction

end Graph
end StaticSite
