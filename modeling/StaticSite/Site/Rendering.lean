import StaticSite.Asset.Graph
import StaticSite.Site.Changes

/-!
# Rendering a site

The output directory is cleared, the templates and pages are registered, every page is rendered,
and only then are pages written and the other assets copied.  An error in a template thus leaves
an empty output directory.
-/

namespace StaticSite

/-- What was rendered. -/
structure Report where
  pages : Nat
  assets : Nat
  unused : List String
  deriving DecidableEq, Repr

namespace Site

/-- Names of files that are passed over. -/
def ignoredNames : List String := [".DS_Store"]

/-- Whether the file at a place is passed over. -/
def isIgnored (place : Place) : Bool :=
  place.getLast?.any ignoredNames.contains

/-- The key of a file: the names that lead to it from its source directory. -/
def keyOf (place : Place) : String :=
  String.intercalate "/" place

/-- The files below a directory with their keys.  There are none if there is no such directory. -/
def keyedFiles (files : FileTree) (directory : Path) : List (String × Path) :=
  match files.locate directory with
  | .error _ => []
  | .ok place =>
      ((files.filesBelow place).filter fun below => !below.isEmpty && !isIgnored below).map
        fun below => (keyOf below, directory.join ⟨keyOf below⟩)

/-- The graph of all templates and pages. -/
def register (config : Config) (files : FileTree) : Except RenderError Graph := do
  let templates ← (keyedFiles files config.templatesDirectory).foldlM
    (fun (graph : Graph) (key, path) => graph.registerTemplate key path) (Graph.empty Format.all)
  (keyedFiles files config.pagesDirectory).foldlM
    (fun (graph : Graph) (key, path) => graph.registerPage key path) templates

/-- The texts of pages with their keys, up to the first page that cannot be rendered. -/
def renderEach (graph : Graph) (files : FileTree) :
    List Page → Graph × Except RenderError (List (String × String))
  | [] => (graph, .ok [])
  | page :: rest =>
      match graph.renderPage files page with
      | (graph, .error error) => (graph, .error error)
      | (graph, .ok text) =>
          let (graph, texts) := renderEach graph files rest
          (graph, texts.map ((page.key, text) :: ·))

/-- Remove the output directory if there is one, and make it anew. -/
def clear (output : Path) : Task Unit := do
  if (← Task.files).isThere output then
    Task.change (·.removeDirectory output) (.clearing output)
  Task.attempt (·.makeDirectories output) (.creating output)

/-- Make the directory in which a file is to stand. -/
def makeRoom (target : Path) : Task Unit :=
  match target.parent? with
  | none => pure ()
  | some directory => Task.attempt (·.makeDirectories directory) .nesting

def writePage (output : Path) (key text : String) : Task Unit := do
  let target := output.join ⟨key⟩
  Task.tell "render" ("writing '" ++ key ++ "'")
  makeRoom target
  Task.change (·.write target text.toUTF8) (.writing target)

def copyAsset (output : Path) (key : String) (source : Path) : Task Unit := do
  let target := output.join ⟨key⟩
  makeRoom target
  Task.change (·.copy source target) (.copying source)

/-- Name an asset that no page asked for. -/
def tellUnused (key : String) (path : Path) : Task Unit :=
  Task.tell "warn" ("unused asset: " ++ key ++ " (" ++ path.text ++ ")")

def render (config : Config) : Task Report := do
  let output := config.build.output
  Task.tell "render" ("cleaning " ++ output.text)
  clear output
  let sources ← Task.files
  let graph ← Task.ofExcept .render (register config sources)
  Task.tell "render" ("found " ++ toString graph.size ++ " assets")
  let (graph, pages) := graph.resolvePages sources
  let pages ← Task.ofExcept .render pages
  Task.tell "render" ("rendering " ++ toString pages.length ++ " pages")
  let (graph, texts) := renderEach graph sources pages
  let texts ← Task.ofExcept .render texts
  texts.forM fun (key, text) => writePage output key text
  let assets := keyedFiles (← Task.files) config.assetsDirectory
  Task.tell "render" ("copying " ++ toString assets.length ++ " static assets")
  assets.forM fun (key, source) => copyAsset output key source
  if config.build.unusedWarnings then
    graph.unused.forM fun (key, path) => tellUnused key path
  Task.tell "render" "done"
  pure ⟨texts.length, assets.length, graph.unused.map Prod.fst⟩

end Site
end StaticSite
