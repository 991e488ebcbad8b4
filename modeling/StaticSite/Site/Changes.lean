import StaticSite.Config.Basic
import StaticSite.Log
import StaticSite.RenderError

/-!
# Tasks and the changes they make

A task changes files and tells about it.  When it fails, the files stay as they were at that
moment, and what was told stays told.  Its error joins everything that can stop a site from being
rendered: its settings, its templates and the files around them.

What a task has done to files is told by comparing them before and after it.
-/

namespace StaticSite

/-! ## Errors -/

/-- Why a site is not rendered. -/
inductive SiteError where
  | config (error : ConfigError)
  | render (error : RenderError)
  /-- The output directory cannot be removed. -/
  | clearing (output : Path) (fault : FileFault)
  /-- The output directory cannot be made. -/
  | creating (output : Path) (fault : FileFault)
  /-- A directory inside the output directory cannot be made. -/
  | nesting (fault : FileFault)
  /-- A page cannot be written. -/
  | writing (target : Path) (fault : FileFault)
  /-- A file cannot be copied. -/
  | copying (source : Path) (fault : FileFault)
  deriving DecidableEq, Repr

namespace SiteError

def chain : SiteError → List String
  | config error => error.chain
  | render error => error.chain
  | clearing output fault =>
      ["Failed to clear output directory: " ++ output.text, fault.message]
  | creating output fault =>
      ["Failed to create output directory: " ++ output.text, fault.message]
  | nesting fault => [fault.message]
  | writing target fault => ["Failed to write " ++ target.text, fault.message]
  | copying source fault => ["Failed to copy asset " ++ source.text, fault.message]

def message (error : SiteError) : String :=
  error.chain.headD ""

def fullMessage (error : SiteError) : String :=
  String.intercalate ": " error.chain

end SiteError

/-! ## Tasks -/

/-- What a task works on: files, and the lines that were told so far. -/
structure Workspace where
  files : FileTree
  log : List LogLine

namespace Workspace

/-- Files with nothing told. -/
def ofFiles (files : FileTree) : Workspace := ⟨files, []⟩

def tell (workspace : Workspace) (topic message : String) : Workspace :=
  { workspace with log := workspace.log ++ [⟨topic, message⟩] }

end Workspace

/-- Something that changes files, tells about it and can fail. -/
abbrev Task := ExceptT SiteError (StateM Workspace)

namespace Task

def tell (topic message : String) : Task Unit :=
  modify (·.tell topic message)

def files : Task FileTree := do
  pure (← get).files

/-- A result that does not change anything. -/
def ofExcept {ε α : Type} (wrap : ε → SiteError) : Except ε α → Task α
  | .ok value => pure value
  | .error error => throw (wrap error)

def change (act : FileTree → Except FileFault FileTree) (wrap : FileFault → SiteError) :
    Task Unit := do
  let changed ← ofExcept wrap (act (← files))
  modify fun workspace => { workspace with files := changed }

/-- Change the files in several steps.  When one fails, those before it stay done. -/
def attempt (act : FileTree → Attempt) (wrap : FileFault → SiteError) : Task Unit := do
  let outcome := act (← files)
  modify fun workspace => { workspace with files := outcome.files }
  match outcome.fault with
  | none => pure ()
  | some fault => throw (wrap fault)

def perform {α : Type} (task : Task α) (workspace : Workspace) : Except SiteError α × Workspace :=
  task.run.run workspace

end Task

/-! ## Changes -/

/-- What has become different. -/
structure Changes where
  /-- Places at which there is no file any more. -/
  removedFiles : List Place
  /-- Places at which there is no directory any more. -/
  removedDirectories : List Place
  newDirectories : List Place
  /-- Files that are new or have another content. -/
  written : List (Place × ByteArray)

namespace FileTree

def holdsFile (tree : FileTree) (place : Place) : Bool :=
  match tree.entry? place with
  | some (.file _) => true
  | _ => false

def holdsDirectory (tree : FileTree) (place : Place) : Bool :=
  match tree.entry? place with
  | some .directory => true
  | _ => false

def directories (tree : FileTree) : List Place :=
  (tree.entries.map Prod.fst).filter tree.holdsDirectory

/-- The places of files in a tree, with their contents. -/
def fileContents (tree : FileTree) : List (Place × ByteArray) :=
  tree.entries.filterMap fun (place, entry) =>
    match entry with
    | .file content => some (place, content)
    | .directory => none

def holdsContent (tree : FileTree) (place : Place) (content : ByteArray) : Bool :=
  match tree.entry? place with
  | some (.file other) => other.data == content.data
  | _ => false

/-- What is different in another tree. -/
def changesTo (before after : FileTree) : Changes where
  removedFiles := (before.fileContents.map Prod.fst).filter fun place => !after.holdsFile place
  removedDirectories := before.directories.filter fun place => !after.holdsDirectory place
  newDirectories := after.directories.filter fun place => !before.holdsDirectory place
  written := after.fileContents.filter fun (place, content) => !before.holdsContent place content

end FileTree
end StaticSite
