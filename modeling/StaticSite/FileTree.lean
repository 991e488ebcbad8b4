import StaticSite.Path

/-!
# File trees

This file gives a tree of directories and files as a value, with the operations that a site is
built by.  A place is the list of names from the root directory down; a path is followed name by
name from the root or the current directory, so that `..` leads to the parent of the directory
reached so far.

A tree holds directories and regular files only.  There are no symbolic links in it: what lies below
a directory is reached by the names below it and in no other way.
-/

namespace StaticSite

/-- The names from the root directory down. -/
abbrev Place := List String

namespace Place

/-- Whether a place comes no later than another when directories are walked in the order of
names, each before what follows it. -/
def isBefore : Place → Place → Bool
  | [], _ => true
  | _ :: _, [] => false
  | name :: rest, other :: more =>
      if name == other then isBefore rest more else decide (name < other)

def toPath (place : Place) : Path :=
  ⟨"/" ++ String.intercalate "/" place⟩

end Place

/-- What stands at a place. -/
inductive Entry where
  | directory
  | file (content : ByteArray)

/-- Why an operation on files fails. -/
inductive FileFault where
  | notFound
  | alreadyExists
  | notDirectory
  | isDirectory
  /-- A name, or the path with all its names, has too many bytes. -/
  | nameTooLong
  /-- A name holds the character zero. -/
  | zeroInName
  /-- The content is no text. -/
  | invalidText
  deriving DecidableEq, Repr

def FileFault.message : FileFault → String
  | notFound => "No such file or directory (os error 2)"
  | alreadyExists => "File exists (os error 17)"
  | notDirectory => "Not a directory (os error 20)"
  | isDirectory => "Is a directory (os error 21)"
  | nameTooLong => "File name too long (os error 36)"
  | zeroInName => "file name contained an unexpected NUL byte"
  | invalidText => "stream did not contain valid UTF-8"

/-- Directories and files.  The root directory is always there and is not listed. -/
structure FileTree where
  entries : List (Place × Entry)
  current : Place

/-- The files after an operation of several steps, and why it stopped before its end if it did. -/
structure Attempt where
  files : FileTree
  fault : Option FileFault

namespace FileTree

def entry? (tree : FileTree) (place : Place) : Option Entry :=
  if place.isEmpty then some .directory else tree.entries.lookup place

/-- Put an entry at a place, instead of what stood there. -/
def put (tree : FileTree) (place : Place) (entry : Entry) : FileTree :=
  { tree with entries := (place, entry) :: tree.entries.filter fun other => other.1 != place }

/-- The tree with nothing in it but the current directory and the directories above it. -/
def ofCurrent (current : Place) : FileTree where
  entries := (List.range current.length).map fun above => (current.take (above + 1), .directory)
  current := current

def nameLimit : Nat := 255

def pathLimit : Nat := 4095

/-- Refuse a text that is no path. -/
def check (path : Path) : Except FileFault Unit :=
  if path.text.contains '\x00' then .error .zeroInName
  else if path.text.isEmpty then .error .notFound
  else if pathLimit < path.text.utf8ByteSize then .error .nameTooLong
  else .ok ()

/-- Follow one segment of a path. -/
def follow (tree : FileTree) (here : Place) (segment : String) : Except FileFault Place :=
  match tree.entry? here with
  | none => .error .notFound
  | some (.file _) => .error .notDirectory
  | some .directory =>
      if segment == "" || segment == "." then .ok here
      else if segment == ".." then .ok here.dropLast
      else if nameLimit < segment.utf8ByteSize then .error .nameTooLong
      else
        match tree.entry? (here ++ [segment]) with
        | none => .error .notFound
        | some _ => .ok (here ++ [segment])

def followAll (tree : FileTree) (path : Path) (segments : List String) :
    Except FileFault Place :=
  segments.foldlM tree.follow (if path.isAbsolute then [] else tree.current)

/-- The place of a path at which something stands. -/
def locate (tree : FileTree) (path : Path) : Except FileFault Place := do
  check path
  tree.followAll path path.segments

def at? (tree : FileTree) (path : Path) : Option Entry :=
  (tree.locate path).toOption.bind tree.entry?

def isThere (tree : FileTree) (path : Path) : Bool :=
  (tree.at? path).isSome

def isDirectory (tree : FileTree) (path : Path) : Bool :=
  match tree.at? path with
  | some .directory => true
  | _ => false

def isFile (tree : FileTree) (path : Path) : Bool :=
  match tree.at? path with
  | some (.file _) => true
  | _ => false

def read (tree : FileTree) (path : Path) : Except FileFault ByteArray := do
  match tree.entry? (← tree.locate path) with
  | some (.file content) => pure content
  | some .directory => throw .isDirectory
  | none => throw .notFound

def readText (tree : FileTree) (path : Path) : Except FileFault String := do
  match String.fromUTF8? (← tree.read path) with
  | some text => pure text
  | none => throw .invalidText

/-- The directory of a path and its last segment, slashes at its end left out. -/
def splitLast (path : Path) : List String × String :=
  let segments := (path.segments.reverse.dropWhile (· == "")).reverse
  (segments.dropLast, segments.getLast?.getD "")

/-- The place of a new entry in a directory that is there. -/
def newPlace (tree : FileTree) (path : Path) : Except FileFault Place := do
  check path
  let (above, name) := splitLast path
  let directory ← tree.followAll path above
  match tree.entry? directory with
  | some .directory =>
      if name == "" || name == "." || name == ".." then throw .notFound
      else if nameLimit < name.utf8ByteSize then throw .nameTooLong
      else pure (directory ++ [name])
  | some (.file _) => throw .notDirectory
  | none => throw .notFound

/-- Make a directory in one that is there.  A file is in its way also when slashes at the end of
the path ask for a directory. -/
def makeDirectory (tree : FileTree) (path : Path) : Except FileFault FileTree :=
  match tree.locate path with
  | .ok _ => .error .alreadyExists
  | .error _ => do
      let place ← tree.newPlace path
      match tree.entry? place with
      | some _ => throw .alreadyExists
      | none => pure (tree.put place .directory)

/-- Make directories in the given order; those that are there already are left alone. -/
def makeEach (tree : FileTree) : List Path → Attempt
  | [] => ⟨tree, none⟩
  | path :: rest =>
      match tree.makeDirectory path with
      | .ok next => next.makeEach rest
      | .error fault =>
          if fault == .alreadyExists && tree.isDirectory path then tree.makeEach rest
          else ⟨tree, some fault⟩

/-- The parents of a path, from itself upward, up to the first that can be made or is there. -/
def missing (tree : FileTree) : List Path → Except FileFault (List Path)
  | [] => .ok []
  | path :: rest =>
      if path.text.isEmpty || path.parent?.isNone then .ok []
      else
        match tree.makeDirectory path with
        | .ok _ => .ok [path]
        | .error .notFound => (path :: ·) <$> tree.missing rest
        | .error fault =>
            if fault == .alreadyExists && tree.isDirectory path then .ok [] else .error fault

/-- Make a directory and the directories above it that are missing. -/
def makeDirectories (tree : FileTree) (path : Path) : Attempt :=
  match tree.missing path.ancestors with
  | .ok paths => tree.makeEach paths.reverse
  | .error fault => ⟨tree, some fault⟩

/-- Remove a directory with all that is in it. -/
def removeDirectory (tree : FileTree) (path : Path) : Except FileFault FileTree := do
  let place ← tree.locate path
  match tree.entry? place with
  | some .directory =>
      pure { tree with entries := tree.entries.filter fun entry => !place.isPrefixOf entry.1 }
  | _ => throw .notDirectory

/-- Write a file, instead of the file that stood there. -/
def write (tree : FileTree) (path : Path) (content : ByteArray) : Except FileFault FileTree :=
  match tree.locate path with
  | .ok place =>
      match tree.entry? place with
      | some .directory => .error .isDirectory
      | _ => .ok (tree.put place (.file content))
  | .error fault =>
      if fault == .notDirectory then .error fault
      else do
        let place ← tree.newPlace path
        pure (tree.put place (.file content))

/-- The files with the directory at a path, as far as it can be made. -/
def withDirectory (tree : FileTree) (path : Path) : FileTree :=
  (tree.makeDirectories path).files

/-- The files with one more at a path and with the directories above it, as far as they can be
made. -/
def withFile (tree : FileTree) (path : Path) (content : ByteArray) : FileTree :=
  let ready := (path.parent?.map tree.withDirectory).getD tree
  (ready.write path content).toOption.getD ready

/-- Copy a file.  The copy is emptied before it is filled, so that a file that is copied onto itself
becomes empty. -/
def copy (tree : FileTree) (source target : Path) : Except FileFault FileTree := do
  let _ ← tree.read source
  let emptied ← tree.write target .empty
  emptied.write target (← emptied.read source)

def removeFile (tree : FileTree) (path : Path) : Except FileFault FileTree := do
  let place ← tree.locate path
  match tree.entry? place with
  | some (.file _) =>
      pure { tree with entries := tree.entries.filter fun entry => entry.1 != place }
  | _ => throw .isDirectory

/-- The place below a directory, if it lies there. -/
def below? (directory place : Place) : Option Place :=
  if directory.isPrefixOf place then some (place.drop directory.length) else none

/-- The files below a directory, as places seen from there, in the order of a walk. -/
def filesBelow (tree : FileTree) (directory : Place) : List Place :=
  (tree.entries.filterMap fun (place, entry) =>
    match entry with
    | .file _ => below? directory place
    | .directory => none).mergeSort Place.isBefore

/-- The path of what stands at a path, without detours; the path read from the current directory
if nothing stands there. -/
def normalize (tree : FileTree) (path : Path) : Path :=
  match tree.locate path with
  | .ok place => place.toPath
  | .error _ => tree.current.toPath.join path

end FileTree
end StaticSite
