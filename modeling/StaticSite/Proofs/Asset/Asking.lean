import StaticSite.Proofs.Asset.Bookkeeping
import StaticSite.Proofs.Asset.Trail
import StaticSite.Proofs.Template.CertainImports

/-!
# What runs ask for

A run asks for the assets whose imports it executes, at any depth.  A run that succeeds has been
given all of them, asks for nothing that its first asset does not import, directly or through
others, and asks for what that asset imports in any case.
-/

namespace StaticSite

open Template (Baking)

namespace Template.Baking

/-- Whether a baking asks only for certain assets, however it ends. -/
inductive AsksOnly (asked : String → Prop) {α : Type} : Baking α → Prop
  | ended (result : Except RenderError α) : AsksOnly asked (.ended result)
  | asking {address : Address} {scope : Scope} {key : String} {resume : Value → Baking α}
      (isAsked : asked key) (rest : ∀ value, AsksOnly asked (resume value)) :
      AsksOnly asked (.asking address scope key resume)

variable {asked : String → Prop} {α : Type}

theorem Within.asksOnly {baking : Baking α} (within : baking.Within asked) :
    baking.AsksOnly asked := by
  induction within with
  | ended _ => exact .ended _
  | asking isAsked _ induction => exact .asking isAsked induction

theorem AsksOnly.asking_inv {address : Address} {scope : Scope} {key : String}
    {resume : Value → Baking α} (only : (Baking.asking address scope key resume).AsksOnly asked) :
    asked key ∧ ∀ value, (resume value).AsksOnly asked := by
  cases only with
  | asking isAsked rest => exact ⟨isAsked, rest⟩

end Template.Baking

namespace Run

variable {files : FileTree} {run later : Run} {graph : Graph} {key : String}
  {current : Baking Value} {frames : List Frame}

/-- Whether a run executes an import of the asset with a key. -/
def Asks (files : FileTree) (run : Run) (key : String) : Prop :=
  ∃ graph address scope resume frames,
    run.Reaches files ⟨graph, .asking address scope key resume, frames⟩

theorem Asks.of_reaches (reach : run.Reaches files later) (asks : later.Asks files key) :
    run.Asks files key := by
  obtain ⟨graph, address, scope, resume, frames, onward⟩ := asks
  exact ⟨graph, address, scope, resume, frames, reach.trans onward⟩

/-! ## Runs that succeed -/

/-- An error goes through all assets that wait for a value. -/
theorem finish_of_error (graph : Graph) (error : RenderError) (frames : List Frame) :
    ∃ last, (finish files ⟨graph, .ended (.error error), frames⟩).2 = .error last := by
  induction frames generalizing graph error with
  | nil => exact ⟨error, congrArg Prod.snd (finish_of_next_eq_finished rfl)⟩
  | cons frame frames induction =>
      rw [finish_of_reaches (.head rfl (.refl _))]
      exact induction graph.pop (error.inAsset frame.key none)

/-- A run that succeeds is given what it asks for. -/
theorem Asks.resolves {value : Value} (asks : run.Asks files key)
    (succeeds : (run.finish files).2 = .ok value) :
    ∃ asset, run.Resolves files key (.ok asset) := by
  obtain ⟨graph, address, scope, resume, frames, reach⟩ := asks
  cases given : graph.resolve files key with
  | mk later result =>
      cases result with
      | ok asset => exact ⟨asset, graph, address, scope, resume, frames, reach, by rw [given]⟩
      | error error =>
          have step : next files ⟨graph, .asking address scope key resume, frames⟩ =
              .continues ⟨later, .ended (.error error), frames⟩ := by
            simp only [next, given]
          obtain ⟨last, fails⟩ := @finish_of_error files later error frames
          rw [finish_of_reaches (reach.trans (.head step (.refl _))), fails] at succeeds
          contradiction

/-- What a run that succeeds has decoded at its end is what was decoded before and what it has asked
for. -/
theorem isSome_finish_iff {value : Value} (succeeds : (run.finish files).2 = .ok value) :
    ((run.finish files).1.decoded.lookup key).isSome ↔
      (run.graph.decoded.lookup key).isSome ∨ run.Asks files key := by
  simp only [Option.isSome_iff_exists, lookup_finish_iff, exists_or]
  refine or_congr_right ⟨?_, fun asks => asks.resolves succeeds⟩
  rintro ⟨asset, graph, address, scope, resume, frames, reach, -⟩
  exact ⟨graph, address, scope, resume, frames, reach⟩

/-! ## What can be asked for -/

/-- Whether all that a run may still ask for, as far as the assets that are being baked tell, is
among certain keys. -/
structure AsksOnly (asked : String → Prop) (run : Run) : Prop where
  current : run.current.AsksOnly asked
  frames : ∀ frame ∈ run.frames, ∀ value, (frame.resume value).AsksOnly asked

section

variable {asked : String → Prop} {library : Library}
  (closed : ∀ key other, asked key → library.Imports key other → asked other)
include closed

theorem AsksOnly.enter {asset : Asset} {address : Address} {scope : Scope}
    {resume : Value → Baking Value} (isAsked : asked key) (found : library.resolve key = .ok asset)
    (rest : ∀ value, (resume value).AsksOnly asked)
    (others : ∀ frame ∈ frames, ∀ value, (frame.resume value).AsksOnly asked) :
    (enter graph key asset address scope resume frames).AsksOnly asked := by
  unfold Run.enter
  split
  · exact ⟨.ended _, others⟩
  · have within := (Library.within_bake found address scope).mono (closed key · isAsked)
    refine ⟨within.asksOnly, fun frame member => ?_⟩
    rcases List.mem_cons.mp member with rfl | isOther
    · exact rest
    · exact others frame isOther

theorem AsksOnly.next (only : run.AsksOnly asked) (yields : run.graph.Yields files library)
    (step : run.next files = .continues later) : later.AsksOnly asked := by
  obtain ⟨graph, current, frames⟩ := run
  obtain ⟨isCurrent, others⟩ := only
  cases current with
  | ended result =>
      cases frames with
      | nil => simp [Run.next] at step
      | cons frame frames =>
          obtain rfl := Progress.continues.inj step
          obtain ⟨isFrame, others⟩ := List.forall_mem_cons.mp others
          refine ⟨?_, others⟩
          cases result with
          | error error => exact .ended _
          | ok value => exact isFrame value
  | asking address scope key resume =>
      obtain ⟨isAsked, rest⟩ := isCurrent.asking_inv
      simp only [Run.next, yields.resolve key] at step
      cases found : library.resolve key with
      | error error =>
          rw [found] at step
          obtain rfl := Progress.continues.inj step
          exact ⟨.ended _, others⟩
      | ok asset =>
          rw [found] at step
          obtain rfl := Progress.continues.inj step
          exact AsksOnly.enter closed isAsked found rest others

/-- A run asks only for what the assets that are being baked import, directly or through others. -/
theorem AsksOnly.of_asks (only : run.AsksOnly asked) (yields : run.graph.Yields files library)
    (asks : run.Asks files key) : asked key := by
  obtain ⟨graph, address, scope, resume, frames, reach⟩ := asks
  have onward := reach.induction
    (motive := fun point => run.Reaches files point ∧ point.AsksOnly asked) ⟨.refl run, only⟩
    fun point later step ⟨toPoint, only⟩ =>
      ⟨toPoint.trans (.head step (.refl later)),
        only.next closed (yields_of_reaches toPoint yields) step⟩
  exact onward.2.current.asking_inv.1

end

/-! ## What is asked for in any case -/

/-- A run that succeeds asks for what its innermost asset asks for on every way to its end. -/
theorem asks_of_requires (requires : current.Requires key) {value : Value}
    (succeeds : (finish files ⟨graph, current, frames⟩).2 = .ok value) :
    Asks files ⟨graph, current, frames⟩ key := by
  induction requires generalizing graph with
  | failed error =>
      obtain ⟨last, fails⟩ := @finish_of_error files graph error frames
      rw [fails] at succeeds
      contradiction
  | asked address scope resume => exact ⟨graph, address, scope, resume, frames, .refl _⟩
  | @later address scope other resume _ induction =>
      have reach := @reaches_finish_assetRun files graph address scope other resume frames
      dsimp only at reach
      rw [finish_of_reaches reach] at succeeds
      cases answer : ((graph.assetRun address scope other).finish files).2 with
      | error error =>
          obtain ⟨last, fails⟩ := @finish_of_error files
            ((graph.assetRun address scope other).finish files).1 error frames
          rw [answer, Baking.resumed, fails] at succeeds
          contradiction
      | ok given =>
          rw [answer] at succeeds reach
          exact (induction given succeeds).of_reaches reach

end Run

namespace Graph

variable {files : FileTree} {graph : Graph} {page : Page} {key : String} {library : Library}

/-- A page asks only for what it imports, directly or through others. -/
theorem reflTransGen_of_asks (yields : graph.Yields files library)
    (found : library.resolve page.key = .ok page.asset)
    (asks : (graph.pageRun page).Asks files key) :
    Relation.ReflTransGen library.Imports page.key key := by
  have only : (graph.pageRun page).AsksOnly (Relation.ReflTransGen library.Imports page.key) :=
    Run.AsksOnly.enter (fun _ _ path step => .tail path step) .refl found (fun _ => .ended _)
      (by simp)
  refine only.of_asks (fun _ _ path step => .tail path step) ?_ asks
  intro other
  rw [library_pageRun]
  exact yields other

/-- A page that is rendered asks for what it imports outside of conditionals and iterations. -/
theorem asks_of_mem_certainKeys {model : Template.Model} (isModel : page.asset = .template model)
    (member : key ∈ model.certainKeys) {text : String}
    (rendered : (graph.renderPage files page).2 = .ok text) :
    (graph.pageRun page).Asks files key := by
  have ends : (graph.renderPage files page).2 =
      ((graph.pageRun page).finish files).2.map Value.text := rfl
  cases finished : ((graph.pageRun page).finish files).2 with
  | error error =>
      rw [ends, finished] at rendered
      contradiction
  | ok value =>
      unfold pageRun Run.enter at finished ⊢
      split
      · next onStack =>
        rw [if_pos onStack] at finished
        obtain ⟨last, fails⟩ := @Run.finish_of_error files graph
          (.circularDependency (graph.stack ++ [page.key])) []
        rw [fails] at finished
        contradiction
      · next off =>
        rw [if_neg off] at finished
        refine Run.asks_of_requires ?_ finished
        rw [isModel]
        exact (model.requires_bake member [] .root).bind

end Graph
end StaticSite
