/-!
# Paths

This file splits slash-separated paths into components, joins them, and compares them component by
component.  Doubled slashes and inner `.` segments do not count as components, so two texts may
name one path; `..` is never resolved here.
-/

namespace StaticSite

structure Path where
  text : String
  deriving DecidableEq, Repr, Inhabited

/-- One step of a path. -/
inductive Component where
  | root
  /-- A `.` at the very start. -/
  | current
  | parent
  | name (text : String)
  deriving DecidableEq, Repr

namespace Path

/-- The pieces between slashes. -/
def segments (path : Path) : List String :=
  (path.text.toList.splitOn '/').map String.ofList

/-- The component that a segment after the first stands for. -/
def component? : String → Option Component
  | "" => none
  | "." => none
  | ".." => some .parent
  | text => some (.name text)

/-- Each segment with the component it stands for. -/
def marked (path : Path) : List (Option Component × String) :=
  match path.segments with
  | [] => []
  | first :: rest =>
      let head :=
        if first == "" then if rest.isEmpty then none else some .root
        else if first == "." then some .current
        else component? first
      (head, first) :: rest.map fun segment => (component? segment, segment)

def components (path : Path) : List Component :=
  path.marked.filterMap Prod.fst

def isAbsolute (path : Path) : Bool :=
  path.text.startsWith "/"

def same (path other : Path) : Bool :=
  path.components == other.components

/-- A path read from `path` on; an absolute one stands for itself. -/
def join (path other : Path) : Path :=
  if other.isAbsolute || path.text.isEmpty then other
  else if path.text.endsWith "/" then ⟨path.text ++ other.text⟩
  else ⟨path.text ++ "/" ++ other.text⟩

/-- The last component, if it is a name. -/
def fileName? (path : Path) : Option String :=
  match path.components.getLast? with
  | some (.name text) => some text
  | _ => none

/-- What follows the last point of a name, unless the point comes first. -/
def extensionOf? (name : String) : Option String :=
  match name.toList.splitOn '.' with
  | [] | [_] | [[], _] => none
  | pieces => pieces.getLast?.map String.ofList

/-- What follows the last point of the file name. -/
def extension? (path : Path) : Option String :=
  path.fileName?.bind extensionOf?

def startsWith (path base : Path) : Bool :=
  base.components.isPrefixOf path.components

/-- Segments that stand for no component, dropped from the end. -/
def trimmedEnd (segments : List (Option Component × String)) : List (Option Component × String) :=
  (segments.reverse.dropWhile fun segment => segment.1.isNone).reverse

/-- The text of segments. -/
def ofMarked (segments : List (Option Component × String)) : Path :=
  match segments with
  | [(some .root, _)] => ⟨"/"⟩
  | _ => ⟨String.intercalate "/" (segments.map Prod.snd)⟩

/-- Drop segments until a number of components is gone. -/
def dropComponents : Nat → List (Option Component × String) → List (Option Component × String)
  | 0, segments => segments
  | _ + 1, [] => []
  | count + 1, (none, _) :: rest => dropComponents (count + 1) rest
  | count + 1, (some _, _) :: rest => dropComponents count rest

/-- The path below `base`, if it lies there. -/
def stripBase? (path base : Path) : Option Path :=
  if path.startsWith base then
    let rest := dropComponents base.components.length path.marked
    some (ofMarked (trimmedEnd (rest.dropWhile fun segment => segment.1.isNone)))
  else none

/-- The path without its last component; none for the root and the empty path. -/
def parent? (path : Path) : Option Path :=
  let segments := trimmedEnd path.marked
  match segments.getLast? with
  | none | some (some .root, _) => none
  | _ => some (ofMarked (trimmedEnd segments.dropLast))

/-- The path and all its parents, longest first. -/
def ancestors (path : Path) : List Path :=
  go path.components.length path
where
  /-- The path and at most that many parents. -/
  go : Nat → Path → List Path
    | 0, path => [path]
    | count + 1, path =>
        path ::
          match path.parent? with
          | none => []
          | some parent => go count parent

/-- `path` as seen from `base`, or as it is when it lies elsewhere. -/
def relativeTo (path base : Path) : Path :=
  (path.stripBase? base).getD path

end Path
end StaticSite
