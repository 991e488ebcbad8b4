import Mathlib
import StaticSite.Proofs.Watch.Directories
import StaticSite.Proofs.Watch.Noticing

/-!
# Runs of the watcher

The loop does nothing to its debouncer but to add events that touch the sources and to take changes
that are complete, and nothing to the active directories but to go through rounds of requests.  So
what holds of debouncers and of rounds holds all along a run.  A change of a source that is reported
stays pending until the site is rendered for it, and it is rendered at the latest when nothing was
reported for as long as the loop waits.
-/

namespace StaticSite
namespace Watch

/-! ## What a turn does -/

/-- The event that a turn adds to the debouncer. -/
def Turn.added? (turn : Turn) (config : Config) : Option Event :=
  match turn.reception with
  | .event event => if event.isRelevant && event.touchesSources config then some event else none
  | .failure _ | .timeout => none

/-- The round of requests that a turn goes through. -/
def Turn.round? (turn : Turn) : Option Round :=
  match turn.reception with
  | .event event => if event.isRelevant then some ⟨turn.files, turn.refuses⟩ else none
  | .failure _ | .timeout => none

/-- The rounds of requests that some turns go through. -/
def roundsOf (turns : List Turn) : List Round :=
  turns.filterMap Turn.round?

/-- The active directories after one more round. -/
def activeOn (config : Config) (active : List Path) (round : Round) : List Path :=
  (round.watch config active).active

namespace Watcher

/-- The debouncer at the moment to which the loop has come. -/
def gathering (watcher : Watcher) : Gathering :=
  ⟨watcher.debouncer, watcher.now⟩

/-- Whether the site is rendered in a turn. -/
def renders (watcher : Watcher) (turn : Turn) : Bool :=
  decide (turn.reception = .timeout) && watcher.debouncer.isReady (watcher.now + turn.waited)

/-- What a turn does to the debouncer. -/
def actions (config : Config) (watcher : Watcher) (turn : Turn) : List Action :=
  .wait turn.waited :: ((turn.added? config).toList.map Action.add ++
    if watcher.renders turn then [.take] else [])

/-- What a turn makes of a watcher. -/
structure Makes (config : Config) (watcher : Watcher) (turn : Turn) (later : Watcher) : Prop where
  gathering : later.gathering = watcher.gathering.run (watcher.actions config turn)
  active : later.active = turn.round?.elim watcher.active (activeOn config watcher.active)
  requests : later.requests = watcher.requests ++
    turn.round?.elim [] fun round => (round.watch config watcher.active).requests
  /-- The site is rendered from the files that are there, for all changes that are pending. -/
  rendered : watcher.renders turn = true → later.workspace =
    renderChanges config watcher.debouncer.pending { watcher.workspace with files := turn.files }
  /-- No other turn changes files. -/
  files : watcher.renders turn = false → later.workspace.files = turn.files

theorem makes_step (config : Config) (watcher : Watcher) (turn : Turn) :
    Makes config watcher turn (watcher.step config turn) := by
  obtain ⟨waited, files, refuses, cause, reception⟩ := turn
  cases reception with
  | event event =>
      cases relevant : event.isRelevant <;> cases touches : event.touchesSources config <;>
        constructor <;>
        simp [step, relevant, touches, actions, renders, Turn.added?, Turn.round?, gathering,
          Gathering.run, Gathering.step, activeOn, Round.watch]
  | failure message =>
      constructor <;>
        simp [step, actions, renders, Turn.added?, Turn.round?, gathering, Gathering.run,
          Gathering.step, Workspace.tell]
  | timeout =>
      cases ready : watcher.debouncer.isReady (watcher.now + waited) <;> constructor <;>
        simp [step, ready, actions, renders, Turn.added?, Turn.round?, gathering, Gathering.run,
          Gathering.step, Debouncer.take]

/-! ## Runs -/

/-- What some turns do to the debouncer, one after the other. -/
def actionsAlong (config : Config) (watcher : Watcher) : List Turn → List Action
  | [] => []
  | turn :: turns =>
      watcher.actions config turn ++ (watcher.step config turn).actionsAlong config turns

theorem run_append (config : Config) (watcher : Watcher) (turns later : List Turn) :
    watcher.run config (turns ++ later) = (watcher.run config turns).run config later :=
  List.foldl_append

theorem gathering_run (config : Config) (watcher : Watcher) (turns : List Turn) :
    (watcher.run config turns).gathering =
      watcher.gathering.run (watcher.actionsAlong config turns) := by
  induction turns generalizing watcher with
  | nil => rfl
  | cons turn turns induction =>
      have rest := induction (watcher.step config turn)
      rw [(makes_step config watcher turn).gathering] at rest
      rw [actionsAlong, Gathering.run, List.foldl_append]
      exact rest

theorem active_run (config : Config) (watcher : Watcher) (turns : List Turn) :
    (watcher.run config turns).active =
      (roundsOf turns).foldl (activeOn config) watcher.active := by
  induction turns generalizing watcher with
  | nil => rfl
  | cons turn turns induction =>
      have rest := induction (watcher.step config turn)
      rw [(makes_step config watcher turn).active] at rest
      rw [roundsOf, List.filterMap_cons]
      cases round : turn.round? <;> simpa [run, roundsOf, round] using rest

/-! ## What is watched -/

section

variable {config : Config} {workspace : Workspace} {refuses : Path → Bool}
  (accepted : (watchAll config workspace.files refuses).refusal = none) (cause : String)
  (turns : List Turn)

include accepted

/-- The loop begins with a first round of requests, and what is active later is what rounds leave
that are made one after the other. -/
theorem active_eq_activeAfter :
    ((start config refuses cause workspace).run config turns).active =
      activeAfter config (⟨workspace.files, refuses⟩ :: roundsOf turns) := by
  have first : (start config refuses cause workspace).active =
      activeOn config [] ⟨workspace.files, refuses⟩ := by
    rw [start, ask_active]
    rw [watchAll] at accepted ⊢
    split at accepted
    · contradiction
    · next granted => rw [if_neg granted]; rfl
  rw [active_run, first]
  rfl

/-- After an event for which no request is refused the active directories are the source directories
that are there, and those that were not active before have been asked for, each once. -/
theorem watches_run {turn : Turn} {round : Round} (isRound : turn.round? = some round)
    (notRefused : (round.watch config
      ((start config refuses cause workspace).run config turns).active).refusal = none) :
    let watcher := (start config refuses cause workspace).run config turns
    let later := watcher.step config turn
    Path.ListsOnce later.active (sourcesThere config round.files) ∧
      ∃ asked, later.requests = watcher.requests ++ asked.map everything ∧
        Path.ListsOnce asked ((sourcesThere config round.files).filter fun directory =>
          !watcher.active.any directory.same) := by
  intro watcher later
  have makes : Makes config watcher turn later := makes_step config watcher turn
  have isSet : IsWatchSet config watcher.active :=
    active_eq_activeAfter accepted cause turns ▸ isWatchSet_activeAfter config _
  obtain ⟨asked, requests, asksOnce⟩ := isSet.listsOnce_requests notRefused
  rw [makes.active, makes.requests, isRound]
  exact ⟨isSet.listsOnce_active notRefused, asked,
    congrArg (watcher.requests ++ ·) requests, asksOnce⟩

end

/-! ## What is rendered -/

variable {config : Config} {watcher : Watcher} {turn : Turn} {path : Path} {event : Event}

theorem follows_run (config : Config) (refuses : Path → Bool) (cause : String)
    (workspace : Workspace) (turns : List Turn) :
    ((start config refuses cause workspace).run config turns).gathering.Follows
      ((start config refuses cause workspace).actionsAlong config turns) := by
  rw [gathering_run]
  exact Gathering.follows_run 0 _

/-- What is rendered are the changes since the site was rendered last, each once. -/
theorem listsOnce_pending_run (config : Config) (refuses : Path → Bool) (cause : String)
    (workspace : Workspace) (turns : List Turn) :
    let begun := start config refuses cause workspace
    Path.ListsOnce (begun.run config turns).debouncer.pending
      (changesOf (sinceTake (begun.actionsAlong config turns))) :=
  (follows_run config refuses cause workspace turns).listsOnce_pending

/-- When nothing was reported for as long as the loop waits, the site is rendered if there are
changes. -/
theorem renders_timeout_iff {actions : List Action} (follows : watcher.gathering.Follows actions)
    (timesOut : turn.reception = .timeout) (waits : watcher.debouncer.timeout ≤ turn.waited) :
    watcher.renders turn = true ↔ watcher.debouncer.pending ≠ [] := by
  have empty := follows.isEmpty_pending
  simp only [renders, timesOut, decide_true, Bool.true_and, Debouncer.isReady, Bool.and_eq_true,
    Bool.not_eq_true', List.isEmpty_eq_false_iff]
  refine and_iff_left_of_imp fun held => ?_
  have added : changesOf (sinceTake actions) ≠ [] := by
    intro none
    rw [none] at empty
    exact held (List.isEmpty_iff.mp empty)
  obtain ⟨last, isLast⟩ := Option.isSome_iff_exists.mp (follows.isTimed added)
  have isLast : watcher.debouncer.lastEvent = some last := isLast
  have reached : watcher.now = last + _ := follows.now_eq last isLast
  rw [Debouncer.timeout, if_neg (by simpa using held)] at waits
  rw [isLast, Option.any_some, decide_eq_true_eq]
  omega

theorem pending_step_of_not_renders (passes : watcher.renders turn = false) :
    (watcher.step config turn).debouncer.pending =
      ((turn.added? config).elim watcher.debouncer fun event =>
        watcher.debouncer.add (watcher.now + turn.waited) event).pending := by
  have debouncer := congrArg Gathering.debouncer (makes_step config watcher turn).gathering
  rw [actions, passes] at debouncer
  have pending := congrArg Debouncer.pending debouncer
  cases added : turn.added? config <;>
    simpa [added, gathering, Gathering.run, Gathering.step] using pending

/-- A pending change stays pending in a turn that does not render. -/
theorem isIn_pending_step (pending : path.IsIn watcher.debouncer.pending)
    (passes : watcher.renders turn = false) :
    path.IsIn (watcher.step config turn).debouncer.pending := by
  rw [pending_step_of_not_renders passes]
  cases turn.added? config with
  | none => exact pending
  | some event => exact isIn_foldl_insertPath.mpr (.inl pending)

/-- A turn in which an event is added does not render. -/
theorem not_renders_of_added? (added : turn.added? config = some event) :
    watcher.renders turn = false := by
  have noTimeout : turn.reception ≠ .timeout := by
    intro timesOut
    simp [Turn.added?, timesOut] at added
  simp [renders, noTimeout]

/-- What an added event is about is pending, but for temporary files. -/
theorem isIn_pending_of_added? (added : turn.added? config = some event)
    (about : path ∈ event.paths) (lasting : isTemporary path = false) :
    path.IsIn (watcher.step config turn).debouncer.pending := by
  rw [pending_step_of_not_renders (not_renders_of_added? added), added]
  exact (isIn_pending_add about).mpr (.inr lasting)

/-- A pending change is still pending after some turns, or one of them has rendered the site when it
was. -/
theorem pending_or_rendered (pending : path.IsIn watcher.debouncer.pending) (turns : List Turn) :
    path.IsIn (watcher.run config turns).debouncer.pending ∨
      ∃ front turn back, turns = front ++ turn :: back ∧
        (watcher.run config front).renders turn = true ∧
        path.IsIn (watcher.run config front).debouncer.pending := by
  induction turns generalizing watcher with
  | nil => exact .inl pending
  | cons turn turns induction =>
      cases renders : watcher.renders turn with
      | true => exact .inr ⟨[], turn, turns, rfl, renders, pending⟩
      | false =>
          rcases induction (isIn_pending_step pending renders) with still |
            ⟨front, rendering, back, rfl, rendered, held⟩
          · exact .inl still
          · exact .inr ⟨turn :: front, rendering, back, rfl, rendered, held⟩

/-- The loop is entered when the first requests are accepted, and it ends when its turns do. -/
theorem watchSources_eq {refuses : Path → Bool} {workspace : Workspace}
    (accepted : (watchAll config workspace.files refuses).refusal = none) (cause : String)
    (turns : List Turn) :
    watchSources config refuses cause turns workspace =
      ((start config refuses cause workspace).run config turns).workspace := by
  rw [watchSources, accepted]
  rfl

/-- A reported change of a source is rendered, unless the source has the name of a temporary file:
in one of the turns that follow, or when nothing is reported then for as long as the loop waits. -/
theorem renders_source {files : FileTree} (wellFormed : files.WellFormed) {directory : Path}
    {key : String} (isSource : directory ∈ config.sourceDirectories)
    (keyed : (key, path) ∈ Site.keyedFiles files directory)
    (changes : event.kind = .create ∨ event.kind = .modify ∨ event.kind = .remove)
    (about : path ∈ event.paths) (lasting : isTemporary path = false)
    {refuses : Path → Bool} {cause : String} {workspace : Workspace}
    (accepted : (watchAll config workspace.files refuses).refusal = none)
    {before later : List Turn} {last : Turn} (isEvent : turn.reception = .event event)
    (timesOut : last.reception = .timeout)
    (waits : ((start config refuses cause workspace).run config
      (before ++ turn :: later)).debouncer.timeout ≤ last.waited) :
    ∃ front rendering back, later ++ [last] = front ++ rendering :: back ∧
      let watcher := (start config refuses cause workspace).run config (before ++ turn :: front)
      watcher.renders rendering = true ∧ path.IsIn watcher.debouncer.pending ∧
        watchSources config refuses cause (before ++ turn :: (front ++ [rendering])) workspace =
          renderChanges config watcher.debouncer.pending
            { watcher.workspace with files := rendering.files } := by
  let noted := ((start config refuses cause workspace).run config before).step config turn
  have run_eq (turns : List Turn) : (start config refuses cause workspace).run config
      (before ++ turn :: turns) = noted.run config turns := run_append ..
  obtain ⟨relevant, touches, -⟩ := concerns_source wellFormed isSource keyed changes about
  have added : turn.added? config = some event := by simp [Turn.added?, isEvent, relevant, touches]
  have pending : path.IsIn noted.debouncer.pending := isIn_pending_of_added? added about lasting
  suffices rendered : ∃ front rendering back, later ++ [last] = front ++ rendering :: back ∧
      (noted.run config front).renders rendering = true ∧
        path.IsIn (noted.run config front).debouncer.pending by
    obtain ⟨front, rendering, back, whole, renders, held⟩ := rendered
    refine ⟨front, rendering, back, whole, ?_⟩
    rw [watchSources_eq accepted, run_eq, run_eq, run_append]
    exact ⟨renders, held, (makes_step config _ rendering).rendered renders⟩
  rcases pending_or_rendered pending later with still |
    ⟨front, rendering, back, rfl, renders, held⟩
  · -- the change waits until the loop has waited in vain
    obtain ⟨other, member, same⟩ := still
    have follows := follows_run config refuses cause workspace (before ++ turn :: later)
    have renders := (renders_timeout_iff follows timesOut waits).mpr
      (run_eq later ▸ List.ne_nil_of_mem member)
    exact ⟨later, last, [], rfl, run_eq later ▸ renders, other, member, same⟩
  · exact ⟨front, rendering, back ++ [last], by simp, renders, held⟩

/-- A page that is written twice is rendered when it has been left alone for long enough. -/
example :
    let turn (waited : Nat) (reception : Reception) : Turn :=
      ⟨waited, notesFiles, fun _ => false, "", reception⟩
    let written := (start notesConfig (fun _ => false) "" ⟨notesFiles, []⟩).run notesConfig
      [turn 0 (.event pageEvent), turn 200 (.event pageEvent)]
    written.renders (turn 299 .timeout) = false ∧ written.renders (turn 300 .timeout) = true := by
  cbv

end Watcher
end Watch
end StaticSite
