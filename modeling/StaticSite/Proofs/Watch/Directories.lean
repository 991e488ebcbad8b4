import Mathlib
import StaticSite.Watch
import StaticSite.Proofs.Files.Components

/-!
# Watched directories

A round of requests goes through the source directories in their order and stops at the first that
is refused.  If none is, the active directories are exactly the source directories that are there,
and a request was made for each that was not active before.  Directories are told apart by the
components of their paths, so that a directory that two settings name by different paths is asked
for twice.
-/

namespace StaticSite
namespace Watch

open FileTree

variable {files : FileTree} {directory : Path} {active seen watched : List Path}

/-! ## One round -/

/-- The request for everything below a directory. -/
def everything (directory : Path) : Request :=
  ⟨directory, .everything⟩

/-- What is done for the directories seen so far: those that are there and were not active before
are watched, each once. -/
structure Watches (files : FileTree) (active seen watched : List Path) : Prop where
  subset : ∀ directory ∈ watched, directory ∈ seen ∧ files.isDirectory directory = true
  covers : ∀ directory ∈ seen, files.isDirectory directory = true →
    directory.IsIn (active ++ watched)
  isNew : ∀ directory ∈ watched, ¬directory.IsIn active
  once : watched.Pairwise fun directory other => directory.same other = false

theorem watches_nil : Watches files active [] [] :=
  ⟨by simp, by simp, by simp, .nil⟩

/-- A directory that is gone or active already is passed over. -/
theorem Watches.pass (later : Watches files active seen watched)
    (isActive : files.isDirectory directory = true → directory.IsIn active) :
    Watches files active (directory :: seen) watched where
  subset other member :=
    ⟨List.mem_cons_of_mem _ (later.subset other member).1, (later.subset other member).2⟩
  covers := List.forall_mem_cons.mpr
    ⟨fun isThere => Path.isIn_append.mpr (.inl (isActive isThere)), later.covers⟩
  isNew := later.isNew
  once := later.once

/-- A new directory is active for all that come after it. -/
theorem Watches.accept (later : Watches files (active ++ [directory]) seen watched)
    (isThere : files.isDirectory directory = true) (isNew : ¬directory.IsIn active) :
    Watches files active (directory :: seen) (directory :: watched) where
  subset := List.forall_mem_cons.mpr ⟨⟨List.mem_cons_self, isThere⟩, fun other member =>
    ⟨List.mem_cons_of_mem _ (later.subset other member).1, (later.subset other member).2⟩⟩
  covers := by
    have whole : active ++ directory :: watched = active ++ [directory] ++ watched := by simp
    rw [whole]
    refine List.forall_mem_cons.mpr ⟨fun _ => ?_, later.covers⟩
    exact Path.isIn_of_mem (by simp)
  isNew := List.forall_mem_cons.mpr
    ⟨isNew, fun other member isActive =>
      later.isNew other member (Path.isIn_append.mpr (.inl isActive))⟩
  once := List.pairwise_cons.mpr ⟨fun other member => Bool.eq_false_iff.mpr fun same =>
    later.isNew other member (Path.isIn_append.mpr (.inr (Path.isIn_singleton.mpr same))),
    later.once⟩

/-- How a round ends. -/
inductive Ends (files : FileTree) (active directories : List Path) (watching : Watching) : Prop
  | complete (watched : List Path) (refusal : watching.refusal = none)
      (active_eq : watching.active = active ++ watched)
      (requests : watching.requests = watched.map everything)
      (watches : Watches files active directories watched)
  /-- The round stops at a directory that is refused and has not come to those behind it. -/
  | refused (seen rest watched : List Path) (directory : Path)
      (directories_eq : directories = seen ++ directory :: rest)
      (refusal : watching.refusal = some ⟨directory⟩)
      (active_eq : watching.active = active ++ watched)
      (requests : watching.requests = (watched ++ [directory]).map everything)
      (watches : Watches files active seen watched)
      (isThere : files.isDirectory directory = true)
      (isNew : ¬directory.IsIn (active ++ watched))

section

variable {directories : List Path} {watching later : Watching}

theorem Ends.pass (ends : Ends files active directories watching)
    (isActive : files.isDirectory directory = true → directory.IsIn active) :
    Ends files active (directory :: directories) watching := by
  cases ends with
  | complete watched refusal active_eq requests watches =>
      exact .complete watched refusal active_eq requests (watches.pass isActive)
  | refused seen rest watched stop directories_eq refusal active_eq requests watches isThere isNew =>
      exact .refused (directory :: seen) rest watched stop (by rw [directories_eq]; rfl) refusal
        active_eq requests (watches.pass isActive) isThere isNew

theorem Ends.accept (ends : Ends files (active ++ [directory]) directories later)
    (isThere : files.isDirectory directory = true) (isNew : ¬directory.IsIn active)
    (log : List LogLine) :
    Ends files active (directory :: directories)
      { later with requests := everything directory :: later.requests, log } := by
  have whole (watched : List Path) :
      active ++ [directory] ++ watched = active ++ directory :: watched := by simp
  cases ends with
  | complete watched refusal active_eq requests watches =>
      rw [whole] at active_eq
      exact .complete (directory :: watched) refusal active_eq (congrArg _ requests)
        (watches.accept isThere isNew)
  | refused seen rest watched stop directories_eq refusal active_eq requests watches isStop isLast =>
      rw [whole] at active_eq isLast
      exact .refused (directory :: seen) rest (directory :: watched) stop
        (by rw [directories_eq]; rfl) refusal active_eq (congrArg _ requests)
        (watches.accept isThere isNew) isStop isLast

/-- However it ends, a round has added what it watches for the directories it has seen. -/
theorem Ends.exists_watched (ends : Ends files active directories watching) :
    ∃ seen watched, watching.active = active ++ watched ∧ Watches files active seen watched ∧
      ∀ directory ∈ seen, directory ∈ directories := by
  cases ends with
  | complete watched refusal active_eq requests watches =>
      exact ⟨directories, watched, active_eq, watches, fun _ member => member⟩
  | refused seen rest watched stop directories_eq refusal active_eq requests watches isThere isNew =>
      refine ⟨seen, watched, active_eq, watches, fun directory member => ?_⟩
      rw [directories_eq]
      exact List.mem_append_left _ member

end

theorem ends_watchEach (files : FileTree) (input : Path) (refuses : Path → Bool)
    (active directories : List Path) :
    Ends files active directories (watchEach files input refuses active directories) := by
  induction directories generalizing active with
  | nil => exact .complete [] rfl (List.append_nil _).symm rfl watches_nil
  | cons directory rest induction =>
      rw [watchEach]
      split
      · next asks =>
        obtain ⟨isThere, notActive⟩ := Bool.and_eq_true_iff.mp asks
        have isNew : ¬directory.IsIn active := by
          rw [Path.isIn_iff_any]
          simpa using notActive
        split
        · exact .refused [] rest [] directory rfl rfl (List.append_nil _).symm rfl watches_nil
            isThere (by rwa [List.append_nil])
        · exact (induction (active ++ [directory])).accept isThere isNew _
      · next passes =>
        refine (induction active).pass fun isThere => ?_
        rw [Path.isIn_iff_any]
        simpa [isThere] using passes

/-! ## Rounds one after the other -/

/-- The files at the moment of a round, and the requests that are refused. -/
structure Round where
  files : FileTree
  refuses : Path → Bool

/-- What a round does when some directories are active. -/
def Round.watch (round : Round) (config : Config) (active : List Path) : Watching :=
  watchNew config round.files round.refuses active

/-- The directories that are active after some rounds. -/
def activeAfter (config : Config) (rounds : List Round) : List Path :=
  rounds.foldl (fun active round => (round.watch config active).active) []

/-- What all active directories have in common. -/
structure IsWatchSet (config : Config) (active : List Path) : Prop where
  isSource : ∀ directory ∈ active, directory ∈ config.sourceDirectories
  isChecked : ∀ directory ∈ active, check directory = .ok ()
  once : active.Pairwise fun directory other => directory.same other = false

variable {config : Config} {round : Round}

theorem IsWatchSet.retain (isSet : IsWatchSet config active) (files : FileTree) :
    IsWatchSet config (active.filter files.isDirectory) where
  isSource directory member := isSet.isSource directory (List.mem_filter.mp member).1
  isChecked directory member := isSet.isChecked directory (List.mem_filter.mp member).1
  once := isSet.once.filter _

theorem IsWatchSet.append (isSet : IsWatchSet config active)
    (watches : Watches files active seen watched)
    (isSource : ∀ directory ∈ seen, directory ∈ config.sourceDirectories) :
    IsWatchSet config (active ++ watched) where
  isSource := List.forall_mem_append.mpr ⟨isSet.isSource, fun directory member =>
    isSource directory (watches.subset directory member).1⟩
  isChecked := List.forall_mem_append.mpr ⟨isSet.isChecked, fun directory member =>
    check_of_isDirectory (watches.subset directory member).2⟩
  once := List.pairwise_append.mpr ⟨isSet.once, watches.once, fun directory member other isOther =>
    Bool.eq_false_iff.mpr fun same => watches.isNew other isOther ⟨directory, member, same⟩⟩

theorem ends_watch (round : Round) (config : Config) (before : List Path) :
    Ends round.files (before.filter round.files.isDirectory) config.sourceDirectories
      (round.watch config before) :=
  ends_watchEach round.files config.build.input round.refuses _ _

theorem IsWatchSet.watch (isSet : IsWatchSet config active) (round : Round) :
    IsWatchSet config (round.watch config active).active := by
  obtain ⟨seen, watched, active_eq, watches, isSource⟩ :=
    (ends_watch round config active).exists_watched
  rw [active_eq]
  exact (isSet.retain round.files).append watches isSource

theorem isWatchSet_activeAfter (config : Config) (rounds : List Round) :
    IsWatchSet config (activeAfter config rounds) := by
  induction rounds using List.reverseRecOn with
  | nil => exact ⟨by simp [activeAfter], by simp [activeAfter], .nil⟩
  | append_singleton rounds round induction =>
      rw [activeAfter, List.foldl_append]
      exact induction.watch round

/-- Active directories that are there stay active, under whatever path they are named. -/
theorem IsWatchSet.isIn_retain (isSet : IsWatchSet config active)
    (isThere : files.isDirectory directory = true) :
    directory.IsIn (active.filter files.isDirectory) ↔ directory.IsIn active := by
  constructor
  · rintro ⟨other, member, same⟩
    exact ⟨other, (List.mem_filter.mp member).1, same⟩
  · rintro ⟨other, member, same⟩
    refine ⟨other, List.mem_filter.mpr ⟨member, ?_⟩, same⟩
    exact isDirectory_of_same (Path.same_comm other directory ▸ same)
      (isSet.isChecked other member) isThere

/-- The source directories that are there. -/
def sourcesThere (config : Config) (files : FileTree) : List Path :=
  config.sourceDirectories.filter files.isDirectory

theorem mem_sourcesThere_iff :
    directory ∈ sourcesThere config files ↔
      directory ∈ config.sourceDirectories ∧ files.isDirectory directory = true :=
  List.mem_filter

section

variable {directories : List Path} {watching : Watching}

/-- Every request is for a directory that is there and not active, and no two are for the same. -/
theorem Ends.exists_asked (ends : Ends files active directories watching) :
    ∃ asked : List Path, watching.requests = asked.map everything ∧
      (∀ directory ∈ asked, directory ∈ directories ∧ files.isDirectory directory = true ∧
        ¬directory.IsIn active) ∧
      asked.Pairwise fun directory other => directory.same other = false := by
  cases ends with
  | complete watched refusal active_eq requests watches =>
      refine ⟨watched, requests, fun directory member => ?_, watches.once⟩
      exact ⟨(watches.subset directory member).1, (watches.subset directory member).2,
        watches.isNew directory member⟩
  | refused seen rest watched stop directories_eq refusal active_eq requests watches isThere isNew =>
      rw [Path.isIn_append, not_or] at isNew
      refine ⟨watched ++ [stop], requests, List.forall_mem_append.mpr
        ⟨fun directory member => ?_, List.forall_mem_singleton.mpr ⟨?_, isThere, isNew.1⟩⟩,
        List.pairwise_append.mpr ⟨watches.once, List.pairwise_singleton _ _, ?_⟩⟩
      · refine ⟨?_, (watches.subset directory member).2, watches.isNew directory member⟩
        rw [directories_eq]
        exact List.mem_append_left _ (watches.subset directory member).1
      · simp [directories_eq]
      · intro directory member last isLast
        obtain rfl := List.mem_singleton.mp isLast
        exact Bool.eq_false_iff.mpr fun same => isNew.2 ⟨directory, member, same⟩

/-- A directory that is there and not active is asked for, unless the round stops before it. -/
theorem Ends.asks_or_stops (ends : Ends files active directories watching)
    (member : directory ∈ directories) (isThere : files.isDirectory directory = true)
    (isNew : ¬directory.IsIn active) :
    (∃ request ∈ watching.requests, request.directory.same directory = true) ∨
      ∃ front rest stop, directories = front ++ directory :: rest ∧ stop ∈ front ∧
        watching.refusal = some ⟨stop⟩ := by
  have asks {asked watched : List Path} (requests : watching.requests = asked.map everything)
      (subset : ∀ other ∈ watched, other ∈ asked) (found : directory.IsIn (active ++ watched)) :
      ∃ request ∈ watching.requests, request.directory.same directory = true := by
    obtain ⟨other, isWatched, same⟩ := (Path.isIn_append.mp found).resolve_left isNew
    refine ⟨everything other, ?_, same⟩
    rw [requests]
    exact List.mem_map_of_mem (subset other isWatched)
  cases ends with
  | complete watched refusal active_eq requests watches =>
      exact .inl (asks requests (fun _ => id) (watches.covers directory member isThere))
  | refused seen rest watched stop directories_eq refusal active_eq requests watches isStop isLast =>
      rw [directories_eq, List.mem_append, List.mem_cons] at member
      rcases member with before | rfl | behind
      · exact .inl (asks requests (fun _ => List.mem_append_left _)
          (watches.covers directory before isThere))
      · refine .inl ⟨everything directory, ?_, Path.same_iff.mpr rfl⟩
        simp [requests]
      · -- the round stops before it comes to the directory
        obtain ⟨between, others, rfl⟩ := List.append_of_mem behind
        exact .inr ⟨seen ++ stop :: between, others, stop, by simp [directories_eq], by simp,
          refusal⟩

end

section

variable {before : List Path}

/-- Active directories are source directories that are there. -/
theorem IsWatchSet.mem_sourcesThere (isSet : IsWatchSet config before)
    (member : directory ∈ (round.watch config before).active) :
    directory ∈ sourcesThere config round.files := by
  obtain ⟨seen, watched, active_eq, watches, isSource⟩ :=
    (ends_watch round config before).exists_watched
  rw [active_eq, List.mem_append] at member
  rcases member with isOld | isNew
  · obtain ⟨member, isThere⟩ := List.mem_filter.mp isOld
    exact mem_sourcesThere_iff.mpr ⟨isSet.isSource directory member, isThere⟩
  · obtain ⟨isSeen, isThere⟩ := watches.subset directory isNew
    exact mem_sourcesThere_iff.mpr ⟨isSource directory isSeen, isThere⟩

/-- A round that is not refused leaves the source directories that are there. -/
theorem IsWatchSet.listsOnce_active (isSet : IsWatchSet config before)
    (notRefused : (round.watch config before).refusal = none) :
    Path.ListsOnce (round.watch config before).active (sourcesThere config round.files) := by
  have once := (isSet.watch round).once
  cases ends_watch round config before with
  | refused seen rest watched stop directories_eq refusal =>
      rw [notRefused] at refusal
      contradiction
  | complete watched refusal active_eq requests watches =>
      refine ⟨fun directory member => isSet.mem_sourcesThere member,
        fun directory member => ?_, once⟩
      obtain ⟨isSource, isThere⟩ := mem_sourcesThere_iff.mp member
      exact active_eq ▸ watches.covers directory isSource isThere

/-- It asks for those of them that were not active before. -/
theorem IsWatchSet.listsOnce_requests (isSet : IsWatchSet config before)
    (notRefused : (round.watch config before).refusal = none) :
    ∃ asked, (round.watch config before).requests = asked.map everything ∧
      Path.ListsOnce asked
        ((sourcesThere config round.files).filter fun directory =>
          !before.any directory.same) := by
  cases ends_watch round config before with
  | refused seen rest watched stop directories_eq refusal =>
      rw [notRefused] at refusal
      contradiction
  | complete watched refusal active_eq requests watches =>
      refine ⟨watched, requests, fun directory member => ?_, fun directory member => ?_,
        watches.once⟩
      · obtain ⟨isSource, isThere⟩ := watches.subset directory member
        have isNew := watches.isNew directory member
        rw [isSet.isIn_retain isThere, Path.isIn_iff_any] at isNew
        refine List.mem_filter.mpr ⟨mem_sourcesThere_iff.mpr ⟨isSource, isThere⟩, ?_⟩
        simpa using isNew
      · obtain ⟨isThere, isNew⟩ := List.mem_filter.mp member
        obtain ⟨isSource, isThere⟩ := mem_sourcesThere_iff.mp isThere
        refine (Path.isIn_append.mp (watches.covers directory isSource isThere)).resolve_left ?_
        rw [isSet.isIn_retain isThere, Path.isIn_iff_any]
        simpa using isNew

/-- A round leaves what was active before and is there. -/
theorem mem_active_watch (member : directory ∈ before)
    (isThere : round.files.isDirectory directory = true) :
    directory ∈ (round.watch config before).active := by
  obtain ⟨seen, watched, active_eq, -⟩ := (ends_watch round config before).exists_watched
  rw [active_eq]
  exact List.mem_append_left _ (List.mem_filter.mpr ⟨member, isThere⟩)

/-- A round that is refused stops at a source directory that is not active then. -/
theorem not_isIn_of_refused {refusal : Refusal}
    (refused : (round.watch config before).refusal = some refusal) :
    refusal.directory ∈ config.sourceDirectories ∧
      ¬refusal.directory.IsIn (round.watch config before).active := by
  cases ends_watch round config before with
  | complete watched notRefused =>
      rw [notRefused] at refused
      contradiction
  | refused seen rest watched stop directories_eq isStop active_eq requests watches isThere isNew =>
      obtain rfl : (⟨stop⟩ : Refusal) = refusal := Option.some.inj (isStop.symm.trans refused)
      rw [active_eq]
      exact ⟨by simp [directories_eq], isNew⟩

end

/-- Whether the settings name every directory by one path only. -/
def TellsApart (config : Config) (files : FileTree) : Prop :=
  ∀ directory ∈ sourcesThere config files, ∀ other ∈ config.sourceDirectories,
    files.locate directory = files.locate other → directory.same other = true

/-- After a round that is not refused the active directories are the source directories that are
there, and those that were not active before were asked for.  After one that is refused the refused
directory is not active, and the next round asks for it unless it stops before.  No directory is
asked for twice, or again while it is active, unless the settings name it by different paths. -/
theorem watches_sources (config : Config) (rounds : List Round) (round : Round) :
    let before := activeAfter config rounds
    let watching := round.watch config before
    (watching.refusal = none →
        Path.ListsOnce watching.active (sourcesThere config round.files) ∧
          ∃ asked, watching.requests = asked.map everything ∧
            Path.ListsOnce asked ((sourcesThere config round.files).filter fun directory =>
              !before.any directory.same)) ∧
      (∀ refusal, watching.refusal = some refusal →
        (∀ directory ∈ watching.active, directory ∈ sourcesThere config round.files) ∧
          (∀ directory ∈ before, round.files.isDirectory directory = true →
            directory ∈ watching.active) ∧
          ¬refusal.directory.IsIn watching.active ∧
          ∀ next : Round, next.files.isDirectory refusal.directory = true →
            (∃ request ∈ (next.watch config watching.active).requests,
              request.directory.same refusal.directory = true) ∨
            ∃ front rest stop, config.sourceDirectories = front ++ refusal.directory :: rest ∧
              stop ∈ front ∧ (next.watch config watching.active).refusal = some ⟨stop⟩) ∧
      (TellsApart config round.files →
        (watching.requests.Pairwise fun request other =>
          round.files.locate request.directory ≠ round.files.locate other.directory) ∧
        ∀ request ∈ watching.requests, ∀ directory ∈ before,
          round.files.locate request.directory ≠ round.files.locate directory) := by
  intro before watching
  have isSet : IsWatchSet config before := isWatchSet_activeAfter config rounds
  refine ⟨fun notRefused => ⟨isSet.listsOnce_active notRefused, isSet.listsOnce_requests notRefused⟩,
    fun refusal refused => ?_, fun apart => ?_⟩
  · obtain ⟨isSource, isOut⟩ := not_isIn_of_refused refused
    refine ⟨fun _ => isSet.mem_sourcesThere, fun _ => mem_active_watch, isOut,
      fun next isBack => ?_⟩
    -- the refused directory is not active, so that the next round takes it for a new one
    refine (ends_watch next config watching.active).asks_or_stops isSource isBack ?_
    rintro ⟨other, member, same⟩
    exact isOut ⟨other, (List.mem_filter.mp member).1, same⟩
  · obtain ⟨asked, requests, asksNew, once⟩ := (ends_watch round config before).exists_asked
    have asksFor {directory : Path} (member : directory ∈ asked) :
        directory ∈ sourcesThere config round.files :=
      mem_sourcesThere_iff.mpr ⟨(asksNew directory member).1, (asksNew directory member).2.1⟩
    rw [requests]
    constructor
    · refine List.pairwise_map.mpr (once.imp_of_mem fun {directory other} member isOther differs => ?_)
      intro samePlace
      rw [apart directory (asksFor member) other (asksNew other isOther).1 samePlace] at differs
      contradiction
    · intro request isRequest other isActive samePlace
      obtain ⟨directory, member, rfl⟩ := List.mem_map.mp isRequest
      have same := apart directory (asksFor member) other (isSet.isSource other isActive) samePlace
      refine (asksNew directory member).2.2 ((isSet.isIn_retain (asksNew directory member).2.1).mpr ?_)
      exact ⟨other, isActive, Path.same_comm directory other ▸ same⟩

/-! ## Examples -/

def lateSources : Config where
  build := { input := ⟨"/"⟩, pages := ⟨"p"⟩, templates := ⟨"t"⟩, assets := ⟨"a"⟩ }

/-- There are templates, and they are refused. -/
def templatesRound : Round :=
  ⟨⟨[(["t"], .directory)], []⟩, fun _ => true⟩

/-- There are pages as well, and they are refused too. -/
def pagesRound : Round :=
  ⟨⟨[(["p"], .directory), (["t"], .directory)], []⟩, fun _ => true⟩

/-- The same round if nothing is refused. -/
def Round.granted (round : Round) : Round :=
  { round with refuses := fun _ => false }

theorem sourcesThere_pagesRound :
    sourcesThere lateSources pagesRound.files = [⟨"/p"⟩, ⟨"/t"⟩] := by
  cbv

theorem tellsApart_pagesRound : TellsApart lateSources pagesRound.files := by
  have all : lateSources.sourceDirectories = [⟨"/p"⟩, ⟨"/t"⟩, ⟨"/a"⟩] := by cbv
  have pages : pagesRound.files.locate ⟨"/p"⟩ = .ok ["p"] := by cbv
  have templates : pagesRound.files.locate ⟨"/t"⟩ = .ok ["t"] := by cbv
  have assets : pagesRound.files.locate ⟨"/a"⟩ = .error .notFound := by cbv
  intro directory isThere other isSource same
  rw [sourcesThere_pagesRound] at isThere
  rw [all] at isSource
  simp only [List.mem_cons, List.not_mem_nil, or_false] at isThere isSource
  rcases isThere with rfl | rfl <;> rcases isSource with rfl | rfl | rfl
  case inl.inl | inr.inr.inl => exact Path.same_iff.mpr rfl
  all_goals simp [pages, templates, assets] at same

/-- Pages that appear beside templates are asked for once, and the templates are not asked for
again. -/
theorem watches_sources_late :
    let before := activeAfter lateSources [templatesRound.granted]
    let watching := pagesRound.granted.watch lateSources before
    before = [⟨"/t"⟩] ∧ watching.requests = [everything ⟨"/p"⟩] ∧
      TellsApart lateSources pagesRound.files ∧
      Path.ListsOnce watching.active [⟨"/p"⟩, ⟨"/t"⟩] ∧
      (watching.requests.Pairwise fun request other =>
        pagesRound.files.locate request.directory ≠ pagesRound.files.locate other.directory) ∧
      ∀ request ∈ watching.requests, ∀ directory ∈ before,
        pagesRound.files.locate request.directory ≠ pagesRound.files.locate directory := by
  obtain ⟨complete, -, apart⟩ := watches_sources lateSources [templatesRound.granted]
    pagesRound.granted
  have isActive : activeAfter lateSources [templatesRound.granted] = [⟨"/t"⟩] := by cbv
  rw [isActive] at complete apart ⊢
  have asks : (pagesRound.granted.watch lateSources [⟨"/t"⟩]).requests = [everything ⟨"/p"⟩] := by
    cbv
  obtain ⟨lists, -⟩ := complete (by cbv)
  exact ⟨rfl, asks, tellsApart_pagesRound, sourcesThere_pagesRound ▸ lists,
    apart tellsApart_pagesRound⟩

/-- Settings that name one directory by two paths. -/
def detourSources : Config where
  build := { input := ⟨"/"⟩, pages := ⟨"s"⟩, templates := ⟨"t/../s"⟩, assets := ⟨"a"⟩ }

def detourRound : Round :=
  ⟨⟨[(["s"], .directory), (["t"], .directory)], []⟩, fun _ => false⟩

/-- A directory with two paths is asked for by both of them.  A directory that was refused is not
asked for in the next round if another is refused before it. -/
theorem requests_repeated_or_missing :
    (detourRound.watch detourSources []).refusal = none ∧
      ((detourRound.watch detourSources []).requests.map fun request =>
        detourRound.files.locate request.directory) = [.ok ["s"], .ok ["s"]] ∧
      (templatesRound.watch lateSources []).refusal = some ⟨⟨"/t"⟩⟩ ∧
      pagesRound.files.isDirectory ⟨"/t"⟩ = true ∧
      (pagesRound.watch lateSources (templatesRound.watch lateSources []).active).requests =
        [everything ⟨"/p"⟩] := by
  cbv

end Watch
end StaticSite
