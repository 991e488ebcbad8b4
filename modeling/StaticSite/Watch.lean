import StaticSite.Config.Basic
import StaticSite.Site.Rendering

/-!
# Watching sources

This file decides which changes of files lead to a new rendering.  Changes of source directories
are gathered until nothing has changed for a while, and then the site is rendered once.

The loop that does so goes from report to report.  What comes from outside, which is the report, the
time until it comes, the files as they are then and the requests that the system refuses, is given
with each turn.
-/

namespace StaticSite
namespace Watch

/-! ## Events -/

inductive EventKind where
  | create
  | modify
  | remove
  | access
  | other
  | any
  deriving DecidableEq, Repr

structure Event where
  kind : EventKind
  paths : List Path
  deriving DecidableEq, Repr

/-- Whether an event can change what is rendered. -/
def Event.isRelevant (event : Event) : Bool :=
  match event.kind with
  | .create | .modify | .remove => true
  | .access | .other | .any => false

/-- Whether an event is about a source directory or something in one. -/
def Event.touchesSources (event : Event) (config : Config) : Bool :=
  event.paths.any fun path => config.sourceDirectories.any path.startsWith

def temporaryExtensions : List String :=
  ["bck", "bak", "backup", "swp", "swo", "tmp"]

/-- Whether a file is one that editors make for a while. -/
def isTemporary (path : Path) : Bool :=
  let name := path.fileName?.getD ""
  temporaryExtensions.contains (path.extension?.getD "") || name.endsWith "~" ||
    name.startsWith "."

/-! ## Gathering changes -/

/-- Number of milliseconds without an event after which changes are complete. -/
def quietTime : Nat := 300

/-- Number of milliseconds to wait when there are no changes. -/
def idleTime : Nat := 60000

/-- Add a path to a set of paths, which are told apart by their components. -/
def insertPath (paths : List Path) (path : Path) : List Path :=
  if paths.any path.same then paths else paths ++ [path]

/-- Changed paths, and the moment of the last event. -/
structure Debouncer where
  pending : List Path
  /-- In milliseconds. -/
  lastEvent : Option Nat
  deriving DecidableEq, Repr

namespace Debouncer

def empty : Debouncer := ⟨[], none⟩

/-- Note an event that comes at a moment.  Temporary files are left out. -/
def add (debouncer : Debouncer) (now : Nat) (event : Event) : Debouncer where
  pending := (event.paths.filter fun path => !isTemporary path).foldl insertPath debouncer.pending
  lastEvent := some now

/-- Whether there are changes and they are complete. -/
def isReady (debouncer : Debouncer) (now : Nat) : Bool :=
  !debouncer.pending.isEmpty &&
    debouncer.lastEvent.any fun last => decide (last + quietTime ≤ now)

/-- The changes, and what is left when they are taken. -/
def take (debouncer : Debouncer) : List Path × Debouncer :=
  (debouncer.pending, empty)

/-- Number of milliseconds to wait for the next event. -/
def timeout (debouncer : Debouncer) : Nat :=
  if debouncer.pending.isEmpty then idleTime else quietTime

end Debouncer

/-! ## Watched directories -/

/-- Which changes of a directory are reported. -/
inductive Depth where
  /-- Those of its own entries. -/
  | entries
  /-- Those of everything below it. -/
  | everything
  deriving DecidableEq, Repr

/-- A request to report changes of a directory. -/
structure Request where
  directory : Path
  depth : Depth
  deriving DecidableEq, Repr

/-- A directory whose changes are not reported, because the request was refused. -/
structure Refusal where
  directory : Path
  deriving DecidableEq, Repr

def Refusal.message (refusal : Refusal) : String :=
  "Failed to watch " ++ refusal.directory.text

/-- What asking for reports leads to. -/
structure Watching where
  /-- The source directories whose changes are reported. -/
  active : List Path
  /-- The requests that were made, refused ones included. -/
  requests : List Request
  log : List LogLine
  refusal : Option Refusal
  deriving DecidableEq, Repr

/-- A path as it is shown: seen from the input directory if it lies there. -/
def shownPath (path input : Path) : String :=
  (path.relativeTo input).text

/-- Ask for reports on the given directories that are there and not active yet, up to the first
refusal. -/
def watchEach (files : FileTree) (input : Path) (refuses : Path → Bool) :
    List Path → List Path → Watching
  | active, [] => ⟨active, [], [], none⟩
  | active, directory :: rest =>
      if files.isDirectory directory && !active.any directory.same then
        let request : Request := ⟨directory, .everything⟩
        if refuses directory then ⟨active, [request], [], some ⟨directory⟩⟩
        else
          let later := watchEach files input refuses (active ++ [directory]) rest
          { later with
            requests := request :: later.requests
            log := ⟨"watch", "watching " ++ shownPath directory input ++ "/"⟩ :: later.log }
      else watchEach files input refuses active rest

/-- Forget active directories that are gone, and ask for reports on source directories that are
new. -/
def watchNew (config : Config) (files : FileTree) (refuses : Path → Bool) (active : List Path) :
    Watching :=
  watchEach files config.build.input refuses (active.filter files.isDirectory)
    config.sourceDirectories

/-- Ask for reports on the input directory, in which source directories can appear, and on the
source directories that are there. -/
def watchAll (config : Config) (files : FileTree) (refuses : Path → Bool) : Watching :=
  let input := config.build.input
  let request : Request := ⟨input, .entries⟩
  if refuses input then ⟨[], [request], [], some ⟨input⟩⟩
  else
    let sources := watchNew config files refuses []
    let waiting : List LogLine :=
      if sources.refusal.isNone && sources.active.isEmpty then
        [⟨"watch", "no source directories yet, waiting for them in " ++ input.text⟩]
      else []
    { sources with requests := request :: sources.requests, log := sources.log ++ waiting }

/-! ## Rendering anew -/

/-- Render the site after changes, and tell which they are and what came of it. -/
def renderChanges (config : Config) (changes : List Path) (workspace : Workspace) : Workspace :=
  let shown := (changes.map (shownPath · config.build.input)).mergeSort (fun a b => decide (a ≤ b))
  let started :=
    workspace.tell "watch" (String.intercalate ", " shown ++ " changed, rendering...")
  match (Site.render config).perform started with
  | (.ok report, rendered) =>
      rendered.tell "watch" ("rendered " ++ toString report.pages ++ " pages")
  | (.error error, stopped) =>
      (stopped.tell "watch" "render failed").tell "error" error.fullMessage

/-! ## The loop -/

/-- What the loop gets when it waits for a report. -/
inductive Reception where
  | event (event : Event)
  /-- The system could not report a change. -/
  | failure (message : String)
  /-- Nothing was reported for as long as the loop waits. -/
  | timeout
  deriving DecidableEq, Repr

/-- What a turn of the loop meets with. -/
structure Turn where
  /-- Number of milliseconds since the turn before. -/
  waited : Nat
  files : FileTree
  /-- The directories for which a request would be refused. -/
  refuses : Path → Bool
  /-- Why the system refuses a request. -/
  cause : String
  reception : Reception

/-- What the loop goes on with from turn to turn. -/
structure Watcher where
  /-- The moment to which it has come, in milliseconds. -/
  now : Nat
  debouncer : Debouncer
  /-- The source directories whose changes are reported. -/
  active : List Path
  /-- The requests that were made so far, refused ones included. -/
  requests : List Request
  workspace : Workspace

namespace Watcher

def idle (workspace : Workspace) : Watcher := ⟨0, .empty, [], [], workspace⟩

/-- Note what asking for reports has led to, and why a request was refused if one was. -/
def ask (watcher : Watcher) (watching : Watching) (cause : String) : Watcher :=
  let told : Workspace :=
    { watcher.workspace with log := watcher.workspace.log ++ watching.log }
  { watcher with
    active := watching.active
    requests := watcher.requests ++ watching.requests
    workspace :=
      match watching.refusal with
      | none => told
      | some refusal => told.tell "watch" (refusal.message ++ ": " ++ cause) }

section

variable (watcher : Watcher) (watching : Watching) (cause : String)

@[simp]
theorem ask_now : (watcher.ask watching cause).now = watcher.now := rfl

@[simp]
theorem ask_debouncer : (watcher.ask watching cause).debouncer = watcher.debouncer := rfl

@[simp]
theorem ask_active : (watcher.ask watching cause).active = watching.active := rfl

@[simp]
theorem ask_requests :
    (watcher.ask watching cause).requests = watcher.requests ++ watching.requests := rfl

@[simp]
theorem ask_files : (watcher.ask watching cause).workspace.files = watcher.workspace.files := by
  rw [ask]
  cases watching.refusal <;> rfl

end

/-- Begin to watch what is there. -/
def start (config : Config) (refuses : Path → Bool) (cause : String) (workspace : Workspace) :
    Watcher :=
  (idle workspace).ask (watchAll config workspace.files refuses) cause

/-- Wait for a report and act on it.  The clock is read at most once in a turn, when an event is
added or when it is asked whether the changes are complete. -/
def step (config : Config) (watcher : Watcher) (turn : Turn) : Watcher :=
  let here : Watcher :=
    { watcher with
      now := watcher.now + turn.waited
      workspace := { watcher.workspace with files := turn.files } }
  match turn.reception with
  | .event event =>
      if event.isRelevant then
        let asked := here.ask (watchNew config turn.files turn.refuses here.active) turn.cause
        if event.touchesSources config then
          { asked with debouncer := asked.debouncer.add asked.now event }
        else asked
      else here
  | .failure message =>
      { here with workspace := here.workspace.tell "watch" ("error: " ++ message) }
  | .timeout =>
      if here.debouncer.isReady here.now then
        let (changes, debouncer) := here.debouncer.take
        { here with debouncer, workspace := renderChanges config changes here.workspace }
      else here

def run (config : Config) (watcher : Watcher) (turns : List Turn) : Watcher :=
  turns.foldl (step config) watcher

end Watcher

/-- Watch the sources and render the site after changes, until no more reports can come.  The loop
is not entered if a request is refused at once. -/
def watchSources (config : Config) (refuses : Path → Bool) (cause : String) (turns : List Turn)
    (workspace : Workspace) : Workspace :=
  let begun := Watcher.start config refuses cause workspace
  if (watchAll config workspace.files refuses).refusal.isNone then
    (begun.run config turns).workspace
  else begun.workspace

end Watch
end StaticSite
