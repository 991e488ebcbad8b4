import StaticSite.Asset.Graph.Run

/-!
# Asset graphs

This file renders pages and bakes assets on a graph.  Every operation gives the graph that it
leaves, also when it fails.
-/

namespace StaticSite

open Template (Baking)

/-- A page that is ready to be rendered. -/
structure Page where
  key : String
  asset : Asset

namespace Graph

/-- Decode pages in the given order, up to the first that cannot be decoded. -/
def resolveEach (graph : Graph) (files : FileTree) :
    List String → Graph × Except RenderError (List Page)
  | [] => (graph, .ok [])
  | key :: rest =>
      match graph.resolve files key with
      | (graph, .error error) => (graph, .error error)
      | (graph, .ok asset) =>
          let (graph, pages) := resolveEach graph files rest
          (graph, pages.map (⟨key, asset⟩ :: ·))

/-- All pages in the order of their keys, decoded. -/
def resolvePages (graph : Graph) (files : FileTree) : Graph × Except RenderError (List Page) :=
  graph.resolveEach files (graph.pages.mergeSort fun key other => decide (key ≤ other))

/-- The run that bakes a page without any names. -/
def pageRun (graph : Graph) (page : Page) : Run :=
  Run.enter graph page.key page.asset [] .root (fun value => .ended (.ok value)) []

/-- The text of a page, baked without any names. -/
def renderPage (graph : Graph) (files : FileTree) (page : Page) :
    Graph × Except RenderError String :=
  let (graph, value) := (graph.pageRun page).finish files
  (graph, value.map Value.text)

/-- The run that imports an asset into a scope. -/
def assetRun (graph : Graph) (address : Address) (scope : Scope) (key : String) : Run :=
  ⟨graph, Baking.ask address scope key, []⟩

def bakeAsset (graph : Graph) (files : FileTree) (key : String) (scope : Scope) :
    Graph × Except RenderError Value :=
  (graph.assetRun [] scope key).finish files

/-- The registered assets that were never asked for, in the order of their keys. -/
def unused (graph : Graph) : List (String × Path) :=
  (graph.paths.filter fun entry => (graph.decoded.lookup entry.1).isNone).mergeSort
    fun entry other => decide (entry.1 ≤ other.1)

end Graph
end StaticSite
