import Mathlib.Logic.Relation
import StaticSite.Asset.Library
import StaticSite.Proofs.Template.Imports

/-!
# Imports among assets

A template imports the keys that its tags name, whether or not they are reached when it is baked.
Where no asset imports itself through others, following imports comes to an end, and the templates
that are imported in place can be written out into those that import them.
-/

namespace StaticSite

open Template (Model)

namespace Library

/-- Whether the asset with a key is a template that imports another key. -/
def Imports (library : Library) (key other : String) : Prop :=
  ∃ model, library.resolve key = .ok (.template model) ∧ other ∈ model.importedKeys

/-- Whether no asset imports itself, directly or through others. -/
def Acyclic (library : Library) : Prop :=
  ∀ key, ¬ Relation.TransGen library.Imports key key

variable {library : Library}

/-- Imports that fall in rank do not go in a circle. -/
theorem acyclic_of_rank (rank : String → Nat)
    (falls : ∀ key other, library.Imports key other → rank other < rank key) :
    library.Acyclic := by
  intro key circle
  have lower {last : String} (path : Relation.TransGen library.Imports key last) :
      rank last < rank key := by
    induction path with
    | single step => exact falls _ _ step
    | tail _ step induction => exact Nat.lt_trans (falls _ _ step) induction
  exact Nat.lt_irrefl _ (lower circle)

/-- An import leads to an asset from which fewer assets can be reached. -/
theorem Acyclic.wellFounded (acyclic : library.Acyclic) :
    WellFounded fun other key => library.Imports key other := by
  classical
  let reachable (key : String) : List String := (library.map Prod.fst).filter fun other =>
    decide (Relation.ReflTransGen library.Imports key other)
  refine Subrelation.wf ?_ (measure fun key => (reachable key).length).wf
  intro other key step
  obtain ⟨model, found, named⟩ := id step
  refine length_filter_lt (mem_keys_of_resolve found) ?_ ?_ fun last reached => ?_
  · exact decide_eq_true .refl
  · exact decide_eq_false fun back => acyclic key (.head' step back)
  · exact decide_eq_true (.head step (of_decide_eq_true reached))

/-- The root model of the template with a key, with the templates that it imports in place written
out.  There is none for data, nor for what is no asset. -/
def inlined? (library : Library) (acyclic : library.Acyclic) (key : String) : Option Model :=
  match found : library.resolve key with
  | .ok (.template model) =>
      some <| model.replaceImports fun other =>
        if named : other ∈ model.importedKeys then
          have _ : library.Imports key other := ⟨model, found, named⟩
          library.inlined? acyclic other
        else none
  | _ => none
termination_by acyclic.wellFounded.wrap key
decreasing_by assumption

/-- A model with the templates that it imports in place written out: each such import is replaced
by a scope that holds the root model of the template, in which the same has been done. -/
def inline (library : Library) (acyclic : library.Acyclic) (model : Model) : Model :=
  model.replaceImports (library.inlined? acyclic)

theorem inlined?_of_template (acyclic : library.Acyclic) {key : String} {model : Model}
    (found : library.resolve key = .ok (.template model)) :
    library.inlined? acyclic key = some (library.inline acyclic model) := by
  rw [inlined?]
  split
  · next other isFound =>
    obtain rfl : other = model := by
      rw [found] at isFound
      exact (Asset.template.inj (Except.ok.inj isFound)).symm
    refine congrArg some (other.replaceImports_congr fun name named => ?_)
    rw [dif_pos named]
  · next others => exact absurd found (others model)

theorem inlined?_of_data (acyclic : library.Acyclic) {key : String} {value : Value}
    (found : library.resolve key = .ok (.data value)) :
    library.inlined? acyclic key = none := by
  rw [inlined?]
  split
  · next model isFound =>
    rw [found] at isFound
    cases isFound
  · rfl

theorem inlined?_of_error (acyclic : library.Acyclic) {key : String} {error : RenderError}
    (missing : library.resolve key = .error error) : library.inlined? acyclic key = none := by
  rw [inlined?]
  split
  · next model isFound =>
    rw [missing] at isFound
    cases isFound
  · rfl

end Library
end StaticSite
