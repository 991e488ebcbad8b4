import StaticSite.Asset.Graph.Basic

/-!
# Runs

This file bakes on a graph, step by step.  A run holds the graph, what is left to do of the asset
being baked, and the assets that wait for its value, the innermost first.  An import that the graph
can answer puts its key on the stack; when the imported asset has been baked, with success or not,
its key is taken off and the importing asset goes on.

A run reaches the outcome that the library of its graph gives, and so it ends.
-/

namespace StaticSite

open Template (Baking Outcome)

/-- An asset being baked, and how the one that imports it goes on with its value. -/
structure Frame where
  key : String
  resume : Value → Baking Value

/-- The state of a graph while it bakes. -/
structure Run where
  graph : Graph
  /-- What is left to do of the innermost asset. -/
  current : Baking Value
  /-- The assets being baked, the innermost first. -/
  frames : List Frame

/-- What a step of a run leads to. -/
inductive Progress where
  | finished (graph : Graph) (result : Except RenderError Value)
  | continues (later : Run)

namespace Run

/-- Begin to bake an asset, unless its key is on the stack. -/
def enter (graph : Graph) (key : String) (asset : Asset) (address : Address) (scope : Scope)
    (resume : Value → Baking Value) (frames : List Frame) : Run :=
  if key ∈ graph.stack then
    ⟨graph, .ended (.error (.circularDependency (graph.stack ++ [key]))), frames⟩
  else ⟨graph.push key, asset.bake address scope, ⟨key, resume⟩ :: frames⟩

/-- Leave an asset that has been baked.  An error in it is wrapped with its key. -/
def leave (graph : Graph) (result : Except RenderError Value) (frame : Frame)
    (frames : List Frame) : Run :=
  ⟨graph.pop, .resumed frame.resume (result.mapError (·.inAsset frame.key none)), frames⟩

/-- One step. -/
def next (files : FileTree) : Run → Progress
  | ⟨graph, .ended result, []⟩ => .finished graph result
  | ⟨graph, .ended result, frame :: frames⟩ => .continues (leave graph result frame frames)
  | ⟨graph, .asking address scope key resume, frames⟩ =>
      match graph.resolve files key with
      | (graph, .error error) => .continues ⟨graph, .ended (.error error), frames⟩
      | (graph, .ok asset) => .continues (enter graph key asset address scope resume frames)

/-- The run after some steps, none if it has finished before. -/
def after (files : FileTree) : Nat → Run → Option Run
  | 0, run => some run
  | steps + 1, run =>
      match run.next files with
      | .finished .. => none
      | .continues later => after files steps later

/-- Whether a run comes to another in some number of steps. -/
def Reaches (files : FileTree) (run later : Run) : Prop :=
  ∃ steps, run.after files steps = some later

variable {files : FileTree}

theorem Reaches.refl (run : Run) : run.Reaches files run :=
  ⟨0, rfl⟩

theorem Reaches.head {run later last : Run} (step : run.next files = .continues later)
    (rest : later.Reaches files last) : run.Reaches files last := by
  obtain ⟨steps, reached⟩ := rest
  exact ⟨steps + 1, by simpa only [after, step] using reached⟩

/-- What every step keeps, from a run on, holds of every run it reaches. -/
theorem Reaches.induction {motive : Run → Prop} {run later : Run}
    (reach : run.Reaches files later) (start : motive run)
    (step : ∀ run later, run.next files = .continues later → motive run → motive later) :
    motive later := by
  obtain ⟨steps, reached⟩ := reach
  induction steps generalizing run with
  | zero =>
      have same : run = later := by simpa [after] using reached
      exact same ▸ start
  | succ steps induction =>
      cases progress : run.next files with
      | finished graph result => simp [after, progress] at reached
      | continues following =>
          refine induction (step run following progress start) ?_
          simpa only [after, progress] using reached

theorem Reaches.trans {run middle last : Run} (first : run.Reaches files middle)
    (second : middle.Reaches files last) : run.Reaches files last := by
  obtain ⟨steps, reached⟩ := first
  induction steps generalizing run with
  | zero =>
      have same : run = middle := by simpa [after] using reached
      exact same ▸ second
  | succ steps induction =>
      cases progress : run.next files with
      | finished graph result => simp [after, progress] at reached
      | continues later =>
          exact .head progress (induction (by simpa only [after, progress] using reached))

/-- An import is answered as by the library of the graph, if that holds of what the imported asset
asks for. -/
theorem reaches_answer {library : Library} (graph : Graph)
    (yields : graph.Yields files library) (address : Address) (scope : Scope) (key : String)
    (resume : Value → Baking Value) (frames : List Frame)
    (deeper : ∀ asset, key ∉ graph.stack → library.resolve key = .ok asset →
      ∀ (inner : Graph) (frames : List Frame), inner.stack = graph.stack ++ [key] →
        inner.Yields files library →
        let outcome := (asset.bake address scope).outcome (library.importer inner.stack)
        Reaches files ⟨inner, asset.bake address scope, frames⟩
          ⟨inner.keep library outcome.reached, .ended outcome.result, frames⟩) :
    let answer := library.importer graph.stack address scope key
    Reaches files ⟨graph, .asking address scope key resume, frames⟩
      ⟨graph.keep library answer.reached, .resumed resume answer.result, frames⟩ := by
  have resolved := yields.resolve key
  cases found : library.resolve key with
  | error error =>
      have step : next files ⟨graph, .asking address scope key resume, frames⟩ =
          .continues ⟨graph.keep library [key], .ended (.error error), frames⟩ := by
        simp [next, resolved, found]
      rw [Library.importer_of_error found]
      exact .head step (.refl _)
  | ok asset =>
      have step : next files ⟨graph, .asking address scope key resume, frames⟩ =
          .continues (enter (graph.keep library [key]) key asset address scope resume frames) := by
        simp [next, resolved, found]
      refine .head step ?_
      by_cases onStack : key ∈ graph.stack
      · rw [Library.importer_of_mem found onStack]
        simp only [enter, Graph.keep_stack, onStack, ↓reduceIte]
        exact .refl _
      · rw [Library.importer_of_not_mem found onStack]
        simp only [enter, Graph.keep_stack, onStack, ↓reduceIte]
        have inside := deeper asset onStack found ((graph.keep library [key]).push key)
          (⟨key, resume⟩ :: frames) rfl ((yields.keep [key]).push key)
        refine inside.trans (.head rfl ?_)
        simp only [leave, Graph.keep_push, Graph.pop_push]
        exact .refl _

/-- A run ends what is current with the outcome that the library of its graph gives.  The outer
induction is on the keys that are not on the stack, the inner one on what is left to do. -/
theorem reaches_outcome {library : Library} (graph : Graph) (yields : graph.Yields files library)
    (current : Baking Value) (frames : List Frame) :
    let outcome := current.outcome (library.importer graph.stack)
    Reaches files ⟨graph, current, frames⟩
      ⟨graph.keep library outcome.reached, .ended outcome.result, frames⟩ := by
  induction bound : (library.keysOff graph.stack).length using Nat.strongRecOn
    generalizing graph current frames with
  | ind size outer =>
      induction current generalizing graph with
      | ended result => exact .refl _
      | asking address scope key resume inner =>
          have answered := reaches_answer graph yields address scope key resume frames
            fun asset off found deep frames stack deepYields => by
              refine outer _ ?_ deep deepYields _ frames rfl
              rw [stack, ← bound]
              exact Library.length_keysOff_lt (Library.mem_keys_of_resolve found) off
          simp only [Baking.outcome, Outcome.andThen] at answered ⊢
          cases answer : (library.importer graph.stack address scope key).result with
          | error error => simpa only [answer, Baking.resumed] using answered
          | ok value =>
              rw [answer] at answered
              have rest := inner value (graph.keep library
                (library.importer graph.stack address scope key).reached) (yields.keep _) bound
              rw [Graph.keep_stack] at rest
              rw [Graph.keep_append]
              exact answered.trans rest

/-- Every run finishes. -/
theorem finishes (files : FileTree) (run : Run) :
    ∃ last graph result, run.Reaches files last ∧ last.next files = .finished graph result := by
  obtain ⟨graph, current, frames⟩ := run
  induction frames generalizing graph current with
  | nil =>
      have reach := reaches_outcome graph (graph.yields_library files) current []
      exact ⟨_, _, _, reach, rfl⟩
  | cons frame frames induction =>
      have reach := reaches_outcome graph (graph.yields_library files) current (frame :: frames)
      obtain ⟨last, final, result, rest, finished⟩ := induction _ _
      exact ⟨last, final, result, reach.trans (.head rfl rest), finished⟩

/-- The order in which the runs that follow a run come before it. -/
def Follows (files : FileTree) (later run : Run) : Prop :=
  run.next files = .continues later

/-- Runs go on for finitely many steps only. -/
theorem wellFounded_follows (files : FileTree) : WellFounded (Follows files) := by
  refine ⟨fun run => ?_⟩
  obtain ⟨last, graph, result, ⟨steps, reached⟩, finished⟩ := run.finishes files
  induction steps generalizing run with
  | zero =>
      have same : run = last := by simpa [after] using reached
      refine ⟨run, fun later follows => ?_⟩
      rw [Follows, same, finished] at follows
      contradiction
  | succ steps induction =>
      refine ⟨run, fun later follows => induction later ?_⟩
      rw [Follows] at follows
      simpa only [after, follows] using reached

/-- Go on to the end. -/
def finish (files : FileTree) (run : Run) : Graph × Except RenderError Value :=
  match progress : run.next files with
  | .finished graph result => (graph, result)
  | .continues later =>
      have _ : Follows files later run := progress
      finish files later
termination_by (wellFounded_follows files).wrap run
decreasing_by assumption

theorem finish_of_next_eq_finished {run : Run} {graph : Graph}
    {result : Except RenderError Value} (last : run.next files = .finished graph result) :
    run.finish files = (graph, result) := by
  rw [finish]
  split <;> simp_all

theorem finish_of_reaches {run later : Run} (reach : run.Reaches files later) :
    run.finish files = later.finish files := by
  refine reach.induction (motive := fun later => run.finish files = later.finish files) rfl ?_
  intro middle later step same
  rw [same, finish]
  split <;> simp_all

/-- The end of a run of a single asset. -/
theorem finish_eq (graph : Graph) (current : Baking Value) :
    let outcome := current.outcome ((graph.library files).importer graph.stack)
    finish files ⟨graph, current, []⟩ =
      (graph.keep (graph.library files) outcome.reached, outcome.result) := by
  have reach := reaches_outcome graph (graph.yields_library files) current []
  rw [finish_of_reaches reach]
  exact finish_of_next_eq_finished rfl

end Run
end StaticSite
