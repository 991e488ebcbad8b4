import Mathlib
import StaticSite.Watch
import StaticSite.Proofs.Files.Components

/-!
# Gathering changes

What a debouncer holds is told by the events since changes were last taken, and whether it is ready
by the time since the last event.  No change is lost or given twice.  An event of temporary files
adds no change, but the quiet time starts anew with it, so that it puts off changes that were
gathered before.
-/

namespace StaticSite
namespace Watch

/-! ## Runs -/

/-- What happens to a debouncer. -/
inductive Action where
  | add (event : Event)
  | take
  /-- A number of milliseconds goes by. -/
  | wait (duration : Nat)
  deriving DecidableEq, Repr

namespace Action

def isAdd : Action → Bool
  | add _ => true
  | take | wait _ => false

def isTake : Action → Bool
  | take => true
  | add _ | wait _ => false

/-- The paths that an event adds: those that are no temporary files. -/
def changes : Action → List Path
  | add event => event.paths.filter fun path => !isTemporary path
  | take | wait _ => []

def duration : Action → Nat
  | wait duration => duration
  | add _ | take => 0

/-- Whether an event is added that is about temporary files only. -/
def isIgnored : Action → Bool
  | add event => event.paths.all isTemporary
  | take | wait _ => false

end Action

/-- The paths that events add. -/
def changesOf (actions : List Action) : List Path :=
  actions.flatMap Action.changes

/-- Number of milliseconds that go by. -/
def timeOf (actions : List Action) : Nat :=
  (actions.map Action.duration).sum

/-- The actions since changes were last taken, or all of them. -/
def sinceTake (actions : List Action) : List Action :=
  actions.rtakeWhile fun action => !action.isTake

/-- The actions since the last event, or all of them. -/
def sinceEvent (actions : List Action) : List Action :=
  actions.rtakeWhile fun action => !action.isAdd

/-- A debouncer and the moment to which it has come. -/
structure Gathering where
  debouncer : Debouncer
  now : Nat

namespace Gathering

def start (now : Nat) : Gathering := ⟨.empty, now⟩

def step (gathering : Gathering) : Action → Gathering
  | .add event => { gathering with debouncer := gathering.debouncer.add gathering.now event }
  | .take => { gathering with debouncer := gathering.debouncer.take.2 }
  | .wait duration => { gathering with now := gathering.now + duration }

def run (gathering : Gathering) (actions : List Action) : Gathering :=
  actions.foldl step gathering

/-- The answer of a debouncer at its moment. -/
def isReady (gathering : Gathering) : Bool :=
  gathering.debouncer.isReady gathering.now

theorem run_concat (gathering : Gathering) (actions : List Action) (action : Action) :
    gathering.run (actions ++ [action]) = (gathering.run actions).step action := by
  rw [run, List.foldl_append]
  rfl

end Gathering

/-! ## What actions tell -/

theorem changesOf_concat (actions : List Action) (action : Action) :
    changesOf (actions ++ [action]) = changesOf actions ++ action.changes := by
  simp [changesOf]

theorem timeOf_concat (actions : List Action) (action : Action) :
    timeOf (actions ++ [action]) = timeOf actions + action.duration := by
  simp [timeOf]

theorem sinceTake_concat {action : Action} (noTake : action.isTake = false)
    (actions : List Action) : sinceTake (actions ++ [action]) = sinceTake actions ++ [action] :=
  List.rtakeWhile_concat_pos _ _ _ (by simp [noTake])

theorem sinceTake_take (actions : List Action) : sinceTake (actions ++ [.take]) = [] :=
  List.rtakeWhile_concat_neg _ _ _ (by decide)

theorem sinceEvent_concat {action : Action} (noAdd : action.isAdd = false)
    (actions : List Action) : sinceEvent (actions ++ [action]) = sinceEvent actions ++ [action] :=
  List.rtakeWhile_concat_pos _ _ _ (by simp [noAdd])

theorem sinceEvent_add (actions : List Action) (event : Event) :
    sinceEvent (actions ++ [.add event]) = [] :=
  List.rtakeWhile_concat_neg _ _ _ (by simp [Action.isAdd])

/-- Actions without an event after an event are those since the last event. -/
theorem sinceEvent_append {later : List Action} (noAdd : ∀ action ∈ later, action.isAdd = false)
    (earlier : List Action) (event : Event) :
    sinceEvent (earlier ++ .add event :: later) = later := by
  induction later using List.reverseRecOn with
  | nil => exact sinceEvent_add earlier event
  | append_singleton later action induction =>
      obtain ⟨others, last⟩ := List.forall_mem_append.mp noAdd
      have split : earlier ++ .add event :: (later ++ [action]) =
          earlier ++ .add event :: later ++ [action] := by simp
      rw [split, sinceEvent_concat (last action List.mem_cons_self), induction others]

/-- Before the actions since the last event there is that event. -/
theorem exists_sinceEvent {actions : List Action} (added : changesOf (sinceTake actions) ≠ []) :
    ∃ earlier event, actions = earlier ++ .add event :: sinceEvent actions := by
  have split := List.rdropWhile_append_rtakeWhile (p := fun action => !action.isAdd) (l := actions)
  rcases List.eq_nil_or_concat (actions.rdropWhile fun action => !action.isAdd) with
    none | ⟨earlier, last, whole⟩
  · -- without an event nothing was added
    refine absurd (List.flatMap_eq_nil_iff.mpr fun action member => ?_) added
    have noAdd := List.rdropWhile_eq_nil_iff.mp none action
      ((List.rtakeWhile_suffix _ _).subset member)
    cases action with
    | add event => simp [Action.isAdd] at noAdd
    | take => rfl
    | wait duration => rfl
  · have isAdd := List.rdropWhile_last_not (fun action : Action => !action.isAdd) actions
      (by simp [whole])
    simp only [whole, List.concat_eq_append, List.getLast_concat] at isAdd
    cases last with
    | take => simp [Action.isAdd] at isAdd
    | wait duration => simp [Action.isAdd] at isAdd
    | add event =>
        refine ⟨earlier, event, ?_⟩
        rw [whole, List.concat_eq_append, List.append_assoc] at split
        exact split.symm

/-! ## Sets of changes -/

theorem insertPath_cases (paths : List Path) (path : Path) :
    path.IsIn paths ∧ insertPath paths path = paths ∨
      ¬path.IsIn paths ∧ insertPath paths path = paths ++ [path] := by
  rw [insertPath, Path.isIn_iff_any]
  cases paths.any path.same <;> simp

theorem isIn_insertPath {paths : List Path} {path other : Path} :
    other.IsIn (insertPath paths path) ↔ other.IsIn paths ∨ path.same other = true := by
  rcases insertPath_cases paths path with ⟨⟨found, member, same⟩, inserted⟩ | ⟨-, inserted⟩
  · rw [inserted]
    refine (or_iff_left_of_imp fun isSame => ⟨found, member, ?_⟩).symm
    exact Path.same_iff.mpr ((Path.same_iff.mp same).trans (Path.same_iff.mp isSame))
  · rw [inserted, Path.isIn_append, Path.isIn_singleton]

theorem isIn_foldl_insertPath {paths more : List Path} {path : Path} :
    path.IsIn (more.foldl insertPath paths) ↔ path.IsIn paths ∨ path.IsIn more := by
  induction more using List.reverseRecOn with
  | nil => simp [Path.IsIn]
  | append_singleton more last induction =>
      rw [List.foldl_append, List.foldl_cons, List.foldl_nil, isIn_insertPath, induction,
        Path.isIn_append, Path.isIn_singleton, or_assoc]

theorem listsOnce_insertPath {listed paths : List Path} (lists : Path.ListsOnce listed paths)
    (path : Path) : Path.ListsOnce (insertPath listed path) (paths ++ [path]) := by
  have covers (other : Path) (member : other ∈ paths ++ [path]) :
      other.IsIn (insertPath listed path) := by
    refine isIn_insertPath.mpr ?_
    rcases List.mem_append.mp member with before | isLast
    · exact .inl (lists.covers other before)
    · exact .inr (Path.same_iff.mpr (congrArg _ (List.mem_singleton.mp isLast).symm))
  rcases insertPath_cases listed path with ⟨-, inserted⟩ | ⟨isNew, inserted⟩
  · rw [inserted] at covers ⊢
    exact ⟨fun path member => List.mem_append_left _ (lists.subset path member), covers, lists.once⟩
  · rw [inserted] at covers ⊢
    refine ⟨fun other member => ?_, covers,
      List.pairwise_append.mpr ⟨lists.once, List.pairwise_singleton _ _, ?_⟩⟩
    · rcases List.mem_append.mp member with before | isLast
      · exact List.mem_append_left _ (lists.subset other before)
      · exact List.mem_append_right _ isLast
    · intro other member last isLast
      obtain rfl := List.mem_singleton.mp isLast
      exact Bool.eq_false_iff.mpr fun same => isNew ⟨other, member, same⟩

theorem listsOnce_foldl_insertPath (paths : List Path) :
    Path.ListsOnce (paths.foldl insertPath []) paths := by
  induction paths using List.reverseRecOn with
  | nil => exact ⟨by simp, by simp, .nil⟩
  | append_singleton paths path induction =>
      rw [List.foldl_append]
      exact listsOnce_insertPath induction path

/-! ## What a debouncer holds -/

namespace Gathering

/-- Whether a debouncer is as some actions leave it. -/
structure Follows (gathering : Gathering) (actions : List Action) : Prop where
  pending_eq : gathering.debouncer.pending = (changesOf (sinceTake actions)).foldl insertPath []
  isTimed : changesOf (sinceTake actions) ≠ [] → gathering.debouncer.lastEvent.isSome
  now_eq : ∀ last, gathering.debouncer.lastEvent = some last →
    gathering.now = last + timeOf (sinceEvent actions)

variable {gathering : Gathering} {actions : List Action}

theorem follows_start (now : Nat) : (start now).Follows [] :=
  ⟨rfl, fun added => absurd rfl added, fun _ isLast => nomatch isLast⟩

theorem Follows.step (follows : gathering.Follows actions) (action : Action) :
    (gathering.step action).Follows (actions ++ [action]) := by
  cases action with
  | add event =>
      refine ⟨?_, fun _ => rfl, fun last isLast => ?_⟩
      · rw [sinceTake_concat rfl, changesOf_concat, List.foldl_append, ← follows.pending_eq]
        rfl
      · rw [sinceEvent_add]
        exact Option.some.inj isLast
  | take =>
      refine ⟨?_, fun added => ?_, fun last isLast => nomatch isLast⟩
      · rw [sinceTake_take]
        rfl
      · rw [sinceTake_take] at added
        exact absurd rfl added
  | wait duration =>
      -- only the time since the last event grows
      have changes_eq : changesOf (sinceTake (actions ++ [.wait duration])) =
          changesOf (sinceTake actions) := by
        rw [sinceTake_concat rfl, changesOf_concat]
        exact List.append_nil _
      refine ⟨changes_eq ▸ follows.pending_eq, changes_eq ▸ follows.isTimed, fun last isLast => ?_⟩
      rw [sinceEvent_concat rfl, timeOf_concat, ← Nat.add_assoc, ← follows.now_eq last isLast]
      rfl

theorem follows_run (now : Nat) (actions : List Action) :
    ((start now).run actions).Follows actions := by
  induction actions using List.reverseRecOn with
  | nil => exact follows_start now
  | append_singleton actions action induction =>
      rw [run_concat]
      exact induction.step action

theorem Follows.listsOnce_pending (follows : gathering.Follows actions) :
    Path.ListsOnce gathering.debouncer.pending (changesOf (sinceTake actions)) :=
  follows.pending_eq ▸ listsOnce_foldl_insertPath _

theorem Follows.isEmpty_pending (follows : gathering.Follows actions) :
    gathering.debouncer.pending.isEmpty = (changesOf (sinceTake actions)).isEmpty := by
  have lists := follows.listsOnce_pending
  rw [Bool.eq_iff_iff, List.isEmpty_iff, List.isEmpty_iff]
  constructor
  · intro none
    refine List.eq_nil_iff_forall_not_mem.mpr fun path isChange => ?_
    obtain ⟨other, member, -⟩ := lists.covers path isChange
    simp [none] at member
  · intro none
    refine List.eq_nil_iff_forall_not_mem.mpr fun path member => ?_
    simpa [none] using lists.subset path member

theorem Follows.isReady_iff (follows : gathering.Follows actions) :
    gathering.isReady = true ↔
      changesOf (sinceTake actions) ≠ [] ∧ quietTime ≤ timeOf (sinceEvent actions) := by
  rw [isReady, Debouncer.isReady, follows.isEmpty_pending, Bool.and_eq_true, Bool.not_eq_true',
    List.isEmpty_eq_false_iff]
  refine and_congr_right fun added => ?_
  obtain ⟨last, isLast⟩ := Option.isSome_iff_exists.mp (follows.isTimed added)
  rw [isLast, Option.any_some, decide_eq_true_eq, follows.now_eq last isLast]
  exact Nat.add_le_add_iff_left

end Gathering

/-- A path that an event adds is no temporary file. -/
theorem isTemporary_of_mem_changesOf {actions : List Action} {path : Path}
    (member : path ∈ changesOf actions) : isTemporary path = false := by
  obtain ⟨action, -, isChange⟩ := List.mem_flatMap.mp member
  cases action with
  | add event => simpa using (List.mem_filter.mp isChange).2
  | take => simp [Action.changes] at isChange
  | wait duration => simp [Action.changes] at isChange

/-- Taking changes gives the paths of the events since changes were last taken that are no temporary
files, each once; what is held was held since an event; changes are ready just if there are any and
a quiet time has passed since the last event; and after changes are taken there are none. -/
theorem gathers_each_once (now : Nat) (actions : List Action) :
    let gathering := (Gathering.start now).run actions
    Path.ListsOnce gathering.debouncer.take.1 (changesOf (sinceTake actions)) ∧
      (gathering.debouncer.pending ≠ [] → gathering.debouncer.lastEvent.isSome) ∧
      (gathering.isReady = true ↔
        (∃ path ∈ gathering.debouncer.pending, isTemporary path = false) ∧
          ∃ earlier event later, actions = earlier ++ .add event :: later ∧
            (∀ action ∈ later, action.isAdd = false) ∧ 300 ≤ timeOf later) ∧
      (gathering.step .take).isReady = false ∧
      (gathering.step .take).debouncer.timeout = idleTime := by
  intro gathering
  have follows : gathering.Follows actions := Gathering.follows_run now actions
  have lists := follows.listsOnce_pending
  have exists_change {path : Path} (held : path ∈ gathering.debouncer.pending) :
      changesOf (sinceTake actions) ≠ [] :=
    List.ne_nil_of_mem (lists.subset path held)
  refine ⟨lists, fun held => ?_, ⟨fun ready => ?_, ?_⟩, rfl, rfl⟩
  · obtain ⟨path, member⟩ := List.exists_mem_of_ne_nil _ held
    exact follows.isTimed (exists_change member)
  · obtain ⟨added, quiet⟩ := follows.isReady_iff.mp ready
    obtain ⟨path, isChange⟩ := List.exists_mem_of_ne_nil _ added
    obtain ⟨held, member, -⟩ := lists.covers path isChange
    obtain ⟨earlier, event, whole⟩ := exists_sinceEvent added
    refine ⟨⟨held, member, isTemporary_of_mem_changesOf (lists.subset held member)⟩,
      earlier, event, _, whole, fun action isLater => ?_, quiet⟩
    simpa using List.mem_rtakeWhile_imp isLater
  · rintro ⟨⟨path, held, -⟩, earlier, event, later, rfl, noAdd, quiet⟩
    refine follows.isReady_iff.mpr ⟨exists_change held, ?_⟩
    rwa [sinceEvent_append noAdd]

/-- A page that two events name by different paths is one change, and its backup is none. -/
example :
    let actions : List Action := [.add ⟨.modify, [⟨"/p/x.htm"⟩, ⟨"/p/x.htm~"⟩]⟩, .wait 100,
      .add ⟨.create, [⟨"/p/./x.htm"⟩]⟩, .wait 300]
    ((Gathering.start 0).run actions).isReady = true ∧
      ((Gathering.start 0).run actions).debouncer.take.1 = [⟨"/p/x.htm"⟩] := by
  cbv

/-! ## Events of temporary files -/

/-- The actions without the events that are about temporary files only. -/
def withoutIgnored (actions : List Action) : List Action :=
  actions.filter fun action => !action.isIgnored

theorem withoutIgnored_concat (actions : List Action) (action : Action) :
    withoutIgnored (actions ++ [action]) =
      withoutIgnored actions ++ if action.isIgnored then [] else [action] := by
  rw [withoutIgnored, List.filter_append]
  cases ignored : action.isIgnored <;> simp [withoutIgnored, ignored]

theorem changes_of_isIgnored {action : Action} (ignored : action.isIgnored = true) :
    action.changes = [] := by
  cases action with
  | add event => simpa [Action.changes] using List.all_eq_true.mp ignored
  | take => rfl
  | wait duration => rfl

theorem isTake_of_isIgnored {action : Action} (ignored : action.isIgnored = true) :
    action.isTake = false := by
  cases action with
  | add event => rfl
  | take => contradiction
  | wait duration => rfl

theorem changesOf_sinceTake_withoutIgnored (actions : List Action) :
    changesOf (sinceTake (withoutIgnored actions)) = changesOf (sinceTake actions) := by
  induction actions using List.reverseRecOn with
  | nil => rfl
  | append_singleton actions action induction =>
      rw [withoutIgnored_concat]
      split
      · -- an event without changes leaves what was gathered as it is
        next ignored =>
        rw [List.append_nil, induction, sinceTake_concat (isTake_of_isIgnored ignored),
          changesOf_concat, changes_of_isIgnored ignored, List.append_nil]
      · cases isTake : action.isTake with
        | false =>
            rw [sinceTake_concat isTake, sinceTake_concat isTake, changesOf_concat,
              changesOf_concat, induction]
        | true =>
            cases action with
            | take => rw [sinceTake_take, sinceTake_take]
            | add event => contradiction
            | wait duration => contradiction

/-- Without some events the time since the last event is longer. -/
theorem timeOf_sinceEvent_le (actions : List Action) :
    timeOf (sinceEvent actions) ≤ timeOf (sinceEvent (withoutIgnored actions)) := by
  induction actions using List.reverseRecOn with
  | nil => exact Nat.le_refl _
  | append_singleton actions action induction =>
      cases action with
      | add event =>
          rw [sinceEvent_add]
          exact Nat.zero_le _
      | take =>
          rw [withoutIgnored_concat, if_neg (by decide), sinceEvent_concat rfl,
            sinceEvent_concat rfl, timeOf_concat, timeOf_concat]
          exact Nat.add_le_add_right induction _
      | wait duration =>
          rw [withoutIgnored_concat, if_neg (by simp [Action.isIgnored]), sinceEvent_concat rfl,
            sinceEvent_concat rfl, timeOf_concat, timeOf_concat]
          exact Nat.add_le_add_right induction _

/-- Events of temporary files change neither what is taken nor how long is waited.  They put off
changes until a quiet time has passed since the last event of any kind. -/
theorem answers_withoutIgnored (now : Nat) (actions : List Action) :
    let gathering := (Gathering.start now).run actions
    let other := (Gathering.start now).run (withoutIgnored actions)
    other.debouncer.take.1 = gathering.debouncer.take.1 ∧
      other.debouncer.timeout = gathering.debouncer.timeout ∧
      (gathering.isReady = true ↔
        other.isReady = true ∧ quietTime ≤ timeOf (sinceEvent actions)) := by
  intro gathering other
  have follows : gathering.Follows actions := Gathering.follows_run now actions
  have otherFollows : other.Follows (withoutIgnored actions) := Gathering.follows_run now _
  have same := changesOf_sinceTake_withoutIgnored actions
  have pending : other.debouncer.pending = gathering.debouncer.pending := by
    rw [follows.pending_eq, otherFollows.pending_eq, same]
  refine ⟨pending, by rw [Debouncer.timeout, Debouncer.timeout, pending], ?_⟩
  rw [follows.isReady_iff, otherFollows.isReady_iff, same]
  constructor
  · rintro ⟨added, quiet⟩
    exact ⟨⟨added, quiet.trans (timeOf_sinceEvent_le actions)⟩, quiet⟩
  · rintro ⟨⟨added, -⟩, quiet⟩
    exact ⟨added, quiet⟩

/-- A page is changed, and while the change waits to be complete an editor touches its backup. -/
def backupActions : List Action :=
  [.add ⟨.modify, [⟨"/p/x.htm"⟩]⟩, .wait 200, .add ⟨.modify, [⟨"/p/x.htm~"⟩]⟩, .wait 150]

/-- The event of the backup keeps the change from being ready. -/
theorem isReady_backup :
    ((Gathering.start 0).run backupActions).isReady = false ∧
      ((Gathering.start 0).run (withoutIgnored backupActions)).isReady = true := by
  cbv

end Watch
end StaticSite
