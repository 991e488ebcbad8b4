import Mathlib.Data.List.Perm.Subperm
import StaticSite.Proofs.Asset.History

/-!
# The stack of a run

While a page is rendered the stack holds the keys of the assets being baked.  They are registered,
decoded and pairwise distinct, so that imports are never nested deeper than there are assets.
An import fails for going in a circle exactly when its key is on the stack, and at once.
-/

namespace StaticSite

open Template (Baking)

namespace Run

/-- What holds of the stack at every point of a run on a graph with the given keys. -/
structure WellStacked (keys : List String) (run : Run) : Prop where
  same_keys : run.graph.keys = keys
  known : run.graph.KeepsRegistered
  /-- The stack holds the keys of the assets that are being baked. -/
  stack_eq : run.graph.stack = (run.frames.map Frame.key).reverse
  distinct : run.graph.stack.Nodup
  decoded : ∀ key ∈ run.graph.stack, ∃ asset, run.graph.decoded.lookup key = some asset

/-- How a run goes on where it imports an asset. -/
structure RefusesCircles (files : FileTree) (run : Run) : Prop where
  /-- The import of a key on the stack is refused in one step. -/
  refused : ∀ address scope key resume, run.current = .asking address scope key resume →
    key ∈ run.graph.stack →
    run.next files = .continues ⟨run.graph,
      .ended (.error (.circularDependency (run.graph.stack ++ [key]))), run.frames⟩
  /-- The refusal shows the stack and then the key. -/
  message_eq : ∀ key ∈ run.graph.stack,
    (RenderError.circularDependency (run.graph.stack ++ [key])).message =
      "circular dependency: " ++ (String.intercalate " -> " run.graph.stack ++ " -> " ++ key)
  /-- The import of another asset is answered, and not by that refusal. -/
  answered : ∀ address scope key resume asset, run.current = .asking address scope key resume →
    key ∉ run.graph.stack → (run.graph.resolve files key).2 = .ok asset →
    ∃ graph answer, (run.graph.assetRun address scope key).finish files = (graph, answer) ∧
      run.Reaches files ⟨graph, .resumed resume answer, run.frames⟩ ∧
      ∀ keys, answer ≠ .error (.circularDependency keys)

variable {files : FileTree} {keys : List String}

/-- Keeping assets leaves the stack in order. -/
theorem WellStacked.keep {graph : Graph} {current : Baking Value} {frames : List Frame}
    (ordered : WellStacked keys ⟨graph, current, frames⟩) (names : List String)
    (other : Baking Value) :
    WellStacked keys ⟨graph.keep (graph.library files) names, other, frames⟩ where
  same_keys := ordered.same_keys
  known := ordered.known.keep files names
  stack_eq := ordered.stack_eq
  distinct := ordered.distinct
  decoded key member := by
    obtain ⟨asset, found⟩ := ordered.decoded key member
    exact ⟨asset, Graph.lookup_keep_of_some found names⟩

/-- Leaving an asset takes its key off the stack. -/
theorem WellStacked.leave {graph : Graph} {current : Baking Value} {frame : Frame}
    {frames : List Frame} (ordered : WellStacked keys ⟨graph, current, frame :: frames⟩)
    (result : Except RenderError Value) :
    WellStacked keys (leave graph result frame frames) := by
  have stack_eq : graph.stack = (frames.map Frame.key).reverse ++ [frame.key] := by
    simpa using ordered.stack_eq
  have popped : graph.pop.stack.Sublist graph.stack := List.dropLast_sublist _
  exact
    { same_keys := ordered.same_keys
      known := ordered.known
      stack_eq := by simp [Run.leave, Graph.pop, stack_eq]
      distinct := ordered.distinct.sublist popped
      decoded := fun key member => ordered.decoded key (popped.subset member) }

/-- Entering an asset puts its key on the stack, unless it is there. -/
theorem WellStacked.enter {graph : Graph} {current : Baking Value} {frames : List Frame}
    (ordered : WellStacked keys ⟨graph, current, frames⟩) {key : String} {asset : Asset}
    (kept : graph.decoded.lookup key = some asset) (address : Address) (scope : Scope)
    (resume : Value → Baking Value) :
    WellStacked keys (enter graph key asset address scope resume frames) := by
  unfold Run.enter
  split
  · exact ⟨ordered.same_keys, ordered.known, ordered.stack_eq, ordered.distinct,
      ordered.decoded⟩
  · next off =>
    refine ⟨ordered.same_keys, ordered.known, ?_, ?_, fun name member => ?_⟩
    · simpa using ordered.stack_eq
    · refine List.nodup_append.mpr ⟨ordered.distinct, by simp, fun name member other isKey => ?_⟩
      rw [List.mem_singleton.mp isKey]
      rintro rfl
      exact off member
    · rcases List.mem_append.mp member with before | isKey
      · exact ordered.decoded name before
      · exact ⟨asset, by rwa [List.mem_singleton.mp isKey]⟩

/-- One step keeps the stack in order. -/
theorem WellStacked.next {run later : Run} (ordered : run.WellStacked keys)
    (step : run.next files = .continues later) : later.WellStacked keys := by
  obtain ⟨graph, current, frames⟩ := run
  cases current with
  | ended result =>
      cases frames with
      | nil => simp [Run.next] at step
      | cons frame frames =>
          obtain rfl := Progress.continues.inj step
          exact ordered.leave result
  | asking address scope key resume =>
      simp only [Run.next, Graph.resolve_eq] at step
      cases found : (graph.library files).resolve key with
      | error error =>
          rw [found] at step
          obtain rfl := Progress.continues.inj step
          exact ordered.keep _ _
      | ok asset =>
          rw [found] at step
          obtain rfl := Progress.continues.inj step
          exact (ordered.keep [key] (.asking address scope key resume)).enter
            (Graph.lookup_keep_of_resolve found) address scope resume

/-- What stands on the stack is registered. -/
theorem WellStacked.stack_subset {run : Run} (ordered : run.WellStacked keys) :
    run.graph.stack ⊆ keys := by
  intro key member
  obtain ⟨asset, kept⟩ := ordered.decoded key member
  exact ordered.same_keys ▸ ordered.known key asset kept

/-- Distinct registered keys are no more than there are assets. -/
theorem WellStacked.length_stack_le {run : Run} (ordered : run.WellStacked keys) :
    run.graph.stack.length ≤ keys.length :=
  (ordered.distinct.subperm ordered.stack_subset).length_le

/-- An import in the midst of a run is answered as on its own. -/
theorem reaches_finish_assetRun (graph : Graph) (address : Address) (scope : Scope) (key : String)
    (resume : Value → Baking Value) (frames : List Frame) :
    let final := (graph.assetRun address scope key).finish files
    Reaches files ⟨graph, .asking address scope key resume, frames⟩
      ⟨final.1, .resumed resume final.2, frames⟩ := by
  have yields := graph.yields_library files
  have ends := @finish_eq files graph (Baking.ask address scope key)
  simp only [Baking.outcome_ask] at ends
  rw [Graph.assetRun, ends]
  exact reaches_answer graph yields address scope key resume frames
    fun asset _ _ inner frames _ deeper => reaches_outcome inner deeper _ frames

/-- The answer to an import of a key that is not on the stack is no bare refusal: what fails
within the imported asset is wrapped with its key. -/
theorem finish_assetRun_ne_circular {graph : Graph} {key : String} {asset : Asset}
    (off : key ∉ graph.stack) (found : (graph.resolve files key).2 = .ok asset)
    (address : Address) (scope : Scope) (circle : List String) :
    ((graph.assetRun address scope key).finish files).2 ≠
      .error (.circularDependency circle) := by
  have ends := @finish_eq files graph (Baking.ask address scope key)
  rw [Graph.resolve_eq] at found
  simp only [Baking.outcome_ask, Library.importer_of_not_mem found off] at ends
  rw [Graph.assetRun, ends]
  simp only [Template.Outcome.reaching, Template.Outcome.mapError]
  cases (Baking.outcome _ (asset.bake address scope)).result with
  | ok value => simp [Except.mapError]
  | error error =>
      obtain ⟨place, source, wrapped⟩ := error.exists_inAsset_eq key none
      simp [Except.mapError, wrapped]

/-- A run whose stack is in order imports every asset as it should. -/
theorem WellStacked.refusesCircles {run : Run} (ordered : run.WellStacked keys) :
    run.RefusesCircles files := by
  obtain ⟨graph, current, frames⟩ := run
  constructor
  case refused =>
    rintro address scope key resume rfl onStack
    obtain ⟨asset, kept⟩ := ordered.decoded key onStack
    simp only at onStack
    simp only [Run.next, Graph.resolve_of_kept kept, Run.enter, onStack, ↓reduceIte]
  case message_eq =>
    intro key onStack
    exact RenderError.message_circularDependency_append (List.ne_nil_of_mem onStack) key
  case answered =>
    rintro address scope key resume asset rfl off found
    exact ⟨_, _, rfl, reaches_finish_assetRun graph address scope key resume frames,
      finish_assetRun_ne_circular off found address scope⟩

end Run
end StaticSite
