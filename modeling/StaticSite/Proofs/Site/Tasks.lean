import StaticSite.Proofs.Files.Growth

/-!
# What holds after tasks

This file follows a task step by step: what holds of the files before it leads to what holds of
them afterwards, with the value of the task if it succeeds and with its error if it fails.
-/

namespace StaticSite
namespace Task

/-- One thing after the other. -/
theorem perform_bind {α β : Type} (first : Task α) (next : α → Task β) (start : Workspace) :
    (first >>= next).perform start =
      match first.perform start with
      | (.ok value, later) => (next value).perform later
      | (.error error, later) => (.error error, later) := by
  simp only [perform, ExceptT.run_bind, StateT.run_bind]
  cases StateT.run (ExceptT.run first) start with
  | mk result later => cases result <;> rfl

theorem perform_files (start : Workspace) : files.perform start = (.ok start.files, start) := rfl

theorem perform_tell (topic message : String) (start : Workspace) :
    (tell topic message).perform start = (.ok (), start.tell topic message) := rfl

theorem perform_ofExcept_ok {ε α : Type} (wrap : ε → SiteError) (value : α) (start : Workspace) :
    (ofExcept wrap (.ok value)).perform start = (.ok value, start) := rfl

theorem perform_change (act : FileTree → Except FileFault FileTree) (wrap : FileFault → SiteError)
    (start : FileTree) (log : List LogLine) :
    (change act wrap).perform ⟨start, log⟩ =
      match act start with
      | .ok later => (.ok (), ⟨later, log⟩)
      | .error fault => (.error (wrap fault), ⟨start, log⟩) := by
  rw [change, perform_bind, perform_files]
  dsimp only
  rw [perform_bind]
  cases act start <;> rfl

theorem perform_attempt (act : FileTree → Attempt) (wrap : FileFault → SiteError)
    (start : FileTree) (log : List LogLine) :
    (attempt act wrap).perform ⟨start, log⟩ =
      match (act start).fault with
      | none => (.ok (), ⟨(act start).files, log⟩)
      | some fault => (.error (wrap fault), ⟨(act start).files, log⟩) := by
  rw [attempt, perform_bind, perform_files]
  dsimp only
  rw [perform_bind]
  cases (act start).fault <;> rfl

/-- What holds of the value or the error of a task and of the files that it leaves, whatever was
told before. -/
structure Gives {α : Type} (task : Task α) (start : FileTree) (done : α → FileTree → Prop)
    (failed : SiteError → FileTree → Prop) : Prop where
  ended : ∀ log, match task.perform ⟨start, log⟩ with
    | (.ok value, later) => done value later.files
    | (.error error, later) => failed error later.files

/-- Whether a task succeeds, and turns files into others. -/
def Turns (task : Task Unit) (start later : FileTree) : Prop :=
  ∃ log last, task.perform ⟨start, log⟩ = (.ok (), last) ∧ last.files = later

namespace Gives

variable {α β : Type} {start : FileTree} {failed : SiteError → FileTree → Prop}

theorem pure {done : α → FileTree → Prop} {value : α} (holds : done value start) :
    (Pure.pure value : Task α).Gives start done failed :=
  ⟨fun _ => holds⟩

theorem bind {first : Task α} {next : α → Task β} {middle : α → FileTree → Prop}
    {done : β → FileTree → Prop} (before : first.Gives start middle failed)
    (after : ∀ value later, middle value later → (next value).Gives later done failed) :
    (first >>= next).Gives start done failed := by
  refine ⟨fun log => ?_⟩
  have before := before.ended log
  rw [perform_bind]
  cases performed : first.perform ⟨start, log⟩ with
  | mk result later =>
      rw [performed] at before
      cases result with
      | error error => exact before
      | ok value => exact (after value later.files before).ended later.log

theorem of_perform_eq {task other : Task α} {next : FileTree} {done : α → FileTree → Prop}
    (same : ∀ log, task.perform ⟨start, log⟩ = other.perform ⟨next, log⟩)
    (gives : other.Gives next done failed) : task.Gives start done failed := by
  refine ⟨fun log => ?_⟩
  rw [same log]
  exact gives.ended log

theorem mono {task : Task α} {done other : α → FileTree → Prop}
    {failedOther : SiteError → FileTree → Prop} (gives : task.Gives start done failed)
    (onDone : ∀ value later, done value later → other value later)
    (onFailed : ∀ error later, failed error later → failedOther error later) :
    task.Gives start other failedOther := by
  refine ⟨fun log => ?_⟩
  have gives := gives.ended log
  cases performed : task.perform ⟨start, log⟩ with
  | mk result later =>
      rw [performed] at gives
      cases result with
      | error error => exact onFailed error later.files gives
      | ok value => exact onDone value later.files gives

/-- What holds whether a task succeeds or not. -/
theorem always {task : Task α} {holds : FileTree → Prop}
    (gives : task.Gives start (fun _ => holds) fun _ => holds) (log : List LogLine) :
    holds (task.perform ⟨start, log⟩).2.files := by
  have gives := gives.ended log
  cases performed : task.perform ⟨start, log⟩ with
  | mk result later =>
      rw [performed] at gives
      cases result with
      | ok value => exact gives
      | error error => exact gives

theorem tell {topic message : String} {done : Unit → FileTree → Prop} (holds : done () start) :
    (Task.tell topic message).Gives start done failed :=
  ⟨fun _ => holds⟩

theorem ofExcept {ε : Type} {wrap : ε → SiteError} {result : Except ε α}
    {done : α → FileTree → Prop} (onDone : ∀ value, result = .ok value → done value start)
    (onFailed : ∀ error, result = .error error → failed (wrap error) start) :
    (Task.ofExcept wrap result).Gives start done failed := by
  refine ⟨fun log => ?_⟩
  cases result with
  | ok value => exact onDone value rfl
  | error error => exact onFailed error rfl

theorem change {act : FileTree → Except FileFault FileTree} {wrap : FileFault → SiteError}
    {done : Unit → FileTree → Prop} (onDone : ∀ later, act start = .ok later → done () later)
    (onFailed : ∀ fault, act start = .error fault → failed (wrap fault) start) :
    (Task.change act wrap).Gives start done failed := by
  refine ⟨fun log => ?_⟩
  rw [perform_change]
  cases acted : act start with
  | ok later => exact onDone later acted
  | error fault => exact onFailed fault acted

theorem attempt {act : FileTree → Attempt} {wrap : FileFault → SiteError}
    {done : Unit → FileTree → Prop}
    (onDone : (act start).fault = none → done () (act start).files)
    (onFailed : ∀ fault, (act start).fault = some fault → failed (wrap fault) (act start).files) :
    (Task.attempt act wrap).Gives start done failed := by
  refine ⟨fun log => ?_⟩
  rw [perform_attempt]
  cases acted : (act start).fault with
  | none => exact onDone acted
  | some fault => exact onFailed fault acted

theorem turns (task : Task Unit) (start : FileTree) :
    task.Gives start (fun _ later => task.Turns start later) fun _ _ => True := by
  refine ⟨fun log => ?_⟩
  cases performed : task.perform ⟨start, log⟩ with
  | mk result last =>
      cases result with
      | ok value => exact ⟨log, last, performed, rfl⟩
      | error error => trivial

theorem done_of_turns {task : Task Unit} {later : FileTree} {done : Unit → FileTree → Prop}
    (gives : task.Gives start done failed) (turns : task.Turns start later) : done () later := by
  obtain ⟨log, last, performed, rfl⟩ := turns
  have gives := gives.ended log
  rwa [performed] at gives

/-! ### Steps that leave files alone -/

theorem files_then {next : FileTree → Task β} {done : β → FileTree → Prop}
    (after : (next start).Gives start done failed) :
    (Task.files >>= next).Gives start done failed := by
  refine .of_perform_eq (fun log => ?_) after
  rw [perform_bind, perform_files]

theorem tell_then {topic message : String} {next : Unit → Task β} {done : β → FileTree → Prop}
    (after : (next ()).Gives start done failed) :
    (Task.tell topic message >>= next).Gives start done failed := by
  have told : (Task.tell topic message).Gives start (fun _ later => later = start) failed :=
    tell rfl
  refine told.bind ?_
  rintro _ _ rfl
  exact after

theorem ofExcept_then {ε : Type} {wrap : ε → SiteError} {result : Except ε α}
    {next : α → Task β} {done : β → FileTree → Prop}
    (after : ∀ value, result = .ok value → (next value).Gives start done failed)
    (onFailed : ∀ error, result = .error error → failed (wrap error) start) :
    (Task.ofExcept wrap result >>= next).Gives start done failed := by
  have given : (Task.ofExcept wrap result).Gives start
      (fun value later => result = .ok value ∧ later = start) failed :=
    ofExcept (fun value isValue => ⟨isValue, rfl⟩) onFailed
  refine given.bind ?_
  rintro value _ ⟨isValue, rfl⟩
  exact after value isValue

/-- What each item keeps in its turn is kept by all of them. -/
theorem forM {act : α → Task Unit} {holds : List α → FileTree → Prop} (items : List α)
    (begins : holds [] start)
    (step : ∀ before item after, items = before ++ item :: after → ∀ later, holds before later →
      (act item).Gives later (fun _ last => holds (before ++ [item]) last) failed) :
    (items.forM act).Gives start (fun _ last => holds items last) failed := by
  have onward (rest before : List α) (later : FileTree) (whole : items = before ++ rest)
      (kept : holds before later) :
      (rest.forM act).Gives later (fun _ last => holds items last) failed := by
    induction rest generalizing before later with
    | nil =>
        rw [List.append_nil] at whole
        exact pure (whole ▸ kept)
    | cons item rest induction =>
        refine (step before item rest whole later kept).bind fun _ last kept => ?_
        exact induction (before ++ [item]) last (by simpa using whole) kept
  exact onward items [] start rfl begins

end Gives
end Task
end StaticSite
