import Mathlib
import StaticSite.Proofs.Asset.Stack

/-!
# Rendering ends

A page that a graph has given can be rendered at any later point of its history, and rendering it
ends.  The nesting of imports on the way is no deeper than there are assets, and the stack is
afterwards what it was before, whether rendering has succeeded or not.
-/

namespace StaticSite
namespace Graph

/-- A graph that bakes nothing and keeps registered assets only. -/
structure Idle (graph : Graph) : Prop where
  stack_eq : graph.stack = []
  known : graph.KeepsRegistered

/-- A graph that bakes nothing and keeps a page. -/
structure Ready (graph : Graph) (page : Page) : Prop extends graph.Idle where
  kept : graph.decoded.lookup page.key = some page.asset

/-- A page that `resolve` or `resolvePages` has given in the course of a history, and the graph as
it is then or later. -/
inductive Obtained (formats : List Format) : Graph → Page → Prop
  | resolve (history : List (FileTree × Operation)) {files : FileTree} {key : String}
      {graph : Graph} {asset : Asset}
      (given : ((empty formats).performAll history).resolve files key = (graph, .ok asset)) :
      Obtained formats graph ⟨key, asset⟩
  | resolvePages (history : List (FileTree × Operation)) {files : FileTree} {graph : Graph}
      {pages : List Page} {page : Page}
      (given : ((empty formats).performAll history).resolvePages files = (graph, .ok pages))
      (member : page ∈ pages) : Obtained formats graph page
  | later {graph : Graph} {page : Page} (obtained : Obtained formats graph page)
      (files : FileTree) (operation : Operation) :
      Obtained formats (graph.perform files operation) page

/-! ## Graphs between operations -/

theorem Idle.keep {graph : Graph} (idle : graph.Idle) (files : FileTree) (keys : List String) :
    (graph.keep (graph.library files) keys).Idle :=
  ⟨idle.stack_eq, idle.known.keep files keys⟩

/-- Between operations a graph bakes nothing. -/
theorem Idle.perform {graph : Graph} (idle : graph.Idle) (files : FileTree)
    (operation : Operation) : (graph.perform files operation).Idle := by
  cases registration : operation.isRegistration with
  | false =>
      obtain ⟨keys, same⟩ := graph.exists_keep_perform files operation registration
      exact same ▸ idle.keep files keys
  | true =>
      obtain ⟨paths, pages, same⟩ := graph.exists_perform_registration files operation registration
      rw [same graph.decoded]
      refine ⟨idle.stack_eq, fun key asset kept => ?_⟩
      have before : key ∈ graph.keys := idle.known key asset kept
      simp only [keys, List.map_append, List.mem_append] at before ⊢
      exact Or.inl before

theorem Idle.performAll {graph : Graph} (idle : graph.Idle)
    (history : List (FileTree × Operation)) : (graph.performAll history).Idle := by
  induction history generalizing graph with
  | nil => exact idle
  | cons entry history induction => exact induction (idle.perform entry.1 entry.2)

theorem idle_empty (formats : List Format) : (empty formats).Idle := by
  refine ⟨rfl, ?_⟩
  rintro key asset ⟨⟩

/-! ## Pages that were given -/

theorem Ready.perform {graph : Graph} {page : Page} (ready : graph.Ready page)
    (files : FileTree) (operation : Operation) : (graph.perform files operation).Ready page := by
  refine ⟨ready.toIdle.perform files operation, ?_⟩
  cases registration : operation.isRegistration with
  | false =>
      obtain ⟨keys, same⟩ := graph.exists_keep_perform files operation registration
      rw [same]
      exact lookup_keep_of_some ready.kept keys
  | true =>
      obtain ⟨paths, pages, same⟩ := graph.exists_perform_registration files operation registration
      rw [same graph.decoded]
      exact ready.kept

theorem Idle.ready_of_resolve {graph later : Graph} (idle : graph.Idle) {files : FileTree}
    {key : String} {asset : Asset} (given : graph.resolve files key = (later, .ok asset)) :
    later.Ready ⟨key, asset⟩ := by
  rw [resolve_eq] at given
  obtain ⟨rfl, found⟩ := Prod.mk.inj given
  exact ⟨idle.keep files [key], lookup_keep_of_resolve found⟩

theorem Idle.ready_of_resolveEach {graph later : Graph} (idle : graph.Idle) {files : FileTree}
    {keys : List String} {pages : List Page} {page : Page}
    (given : graph.resolveEach files keys = (later, .ok pages)) (member : page ∈ pages) :
    later.Ready page := by
  induction keys generalizing graph pages with
  | nil =>
      obtain ⟨-, found⟩ := Prod.mk.inj given
      obtain rfl := Except.ok.inj found
      contradiction
  | cons key keys induction =>
      rw [resolveEach] at given
      cases first : graph.resolve files key with
      | mk middle result =>
          cases result with
          | error error => simp [first] at given
          | ok asset =>
              have ready := idle.ready_of_resolve first
              obtain ⟨kept, rest⟩ :=
                middle.exists_keep_resolveEach files (middle.yields_library files) keys
              cases others : (middle.resolveEach files keys).2 with
              | error error => simp [first, others, Except.map] at given
              | ok more =>
                  simp only [first, others, Except.map, Prod.mk.injEq, Except.ok.injEq] at given
                  obtain ⟨rfl, rfl⟩ := given
                  rcases List.mem_cons.mp member with rfl | later
                  · rw [rest]
                    exact ⟨ready.toIdle.keep files kept, lookup_keep_of_some ready.kept kept⟩
                  · exact induction ready.toIdle (Prod.ext rfl others) later

/-- A page that was given can be rendered from then on. -/
theorem Obtained.ready {formats : List Format} {graph : Graph} {page : Page}
    (obtained : Obtained formats graph page) : graph.Ready page := by
  induction obtained with
  | resolve history given => exact ((idle_empty formats).performAll history).ready_of_resolve given
  | resolvePages history given member =>
      exact ((idle_empty formats).performAll history).ready_of_resolveEach given member
  | later _ files operation ready => exact ready.perform files operation

/-! ## Rendering -/

/-- The run that renders a page begins with its stack in order. -/
theorem Ready.wellStacked_pageRun {graph : Graph} {page : Page} (ready : graph.Ready page) :
    (graph.pageRun page).WellStacked graph.keys := by
  have before : Run.WellStacked graph.keys ⟨graph, .ended (.ok (.boolean true)), []⟩ :=
    { same_keys := rfl
      known := ready.known
      stack_eq := ready.stack_eq
      distinct := by simp [ready.stack_eq]
      decoded := by simp [ready.stack_eq] }
  exact before.enter ready.kept [] .root fun value => .ended (.ok value)

/-- Rendering leaves the stack as it was, on any graph and with any result. -/
theorem renderPage_stack (graph : Graph) (files : FileTree) (page : Page) :
    (graph.renderPage files page).1.stack = graph.stack := by
  have final : (graph.renderPage files page).1 = ((graph.pageRun page).finish files).1 := rfl
  rw [final, finish_pageRun]
  split <;> rfl

/-- Baking an asset leaves the stack as it was, on any graph and with any result. -/
theorem finish_assetRun_stack (graph : Graph) (files : FileTree) (address : Address)
    (scope : Scope) (key : String) :
    ((graph.assetRun address scope key).finish files).1.stack = graph.stack := by
  rw [assetRun, Run.finish_eq]
  rfl

/-- The run of a page that was given ends with what `renderPage` gives.  At every point of it the
stack holds distinct registered keys, and imports are nested no deeper than there are assets.  An
asset is refused for being imported in a circle just if its key is on the stack.  What is rendered
or baked leaves the stack as it was, on any graph and with any result. -/
theorem Obtained.renderPage_ends {formats : List Format} {graph : Graph} {page : Page}
    (obtained : Obtained formats graph page) (files : FileTree) :
    (∃ last value, (graph.pageRun page).Reaches files last ∧
      last.next files = .finished (graph.renderPage files page).1 value ∧
      (graph.renderPage files page).2 = value.map Value.text) ∧
    (∀ point, (graph.pageRun page).Reaches files point →
      point.WellStacked graph.keys ∧ point.graph.stack ⊆ graph.keys ∧
      point.frames.length ≤ graph.size ∧ point.RefusesCircles files) ∧
    (∀ (any : Graph) (other : Page), (any.renderPage files other).1.stack = any.stack) ∧
    ∀ (any : Graph) (key : String) (scope : Scope),
      (any.bakeAsset files key scope).1.stack = any.stack ∧
      ∀ address, ((any.assetRun address scope key).finish files).1.stack = any.stack := by
  refine ⟨?_, fun point reach => ?_, fun any => any.renderPage_stack files,
    fun any key scope => ⟨any.finish_assetRun_stack files [] scope key,
      fun address => any.finish_assetRun_stack files address scope key⟩⟩
  · obtain ⟨last, final, value, reach, finished⟩ := (graph.pageRun page).finishes files
    have ends : (graph.pageRun page).finish files = (final, value) := by
      rw [Run.finish_of_reaches reach, Run.finish_of_next_eq_finished finished]
    have rendered : graph.renderPage files page = (final, value.map Value.text) := by
      simp only [renderPage, ends]
    exact ⟨last, value, reach, by rw [rendered, finished], by rw [rendered]⟩
  · have ordered : point.WellStacked graph.keys :=
      reach.induction obtained.ready.wellStacked_pageRun fun _ _ step ordered => ordered.next step
    refine ⟨ordered, ordered.stack_subset, ?_, ordered.refusesCircles⟩
    calc
      point.frames.length = point.graph.stack.length := by simp [ordered.stack_eq]
      _ ≤ graph.keys.length := ordered.length_stack_le
      _ = graph.size := by simp [keys, size]

/-! ## Examples -/

/-- An asset that is decoded for the first time is a page from then on. -/
theorem obtained_of_decode {formats : List Format} {history : List (FileTree × Operation)}
    {files : FileTree} {key : String} {path : Path} {asset : Asset}
    (decodes : ((empty formats).performAll history).decode files key path = .ok asset)
    (isNew : ((empty formats).performAll history).decoded = [])
    (place : ((empty formats).performAll history).paths.lookup key = some path) :
    Obtained formats { (empty formats).performAll history with decoded := [(key, asset)] }
      ⟨key, asset⟩ := by
  have given : ((empty formats).performAll history).resolve files key =
      ({ (empty formats).performAll history with decoded := [(key, asset)] }, .ok asset) := by
    simp only [resolve, isNew, place, decodes, List.lookup_nil, List.nil_append]
  exact .resolve history given

/-- A template that only imports another fails as the import does. -/
theorem result_outcome_import {imports : Template.Importer} {key : String} {error : RenderError}
    (fails : ∀ address scope, (imports address scope key).result = .error error)
    (address : Address) (scope : Scope) :
    (((Asset.template (.mk .plain [] [.importing key])).bake address scope).outcome
      imports).result = .error error := by
  have first : ((Asset.template (.mk .plain [] [.importing key])).bake address scope).outcome
      imports = (imports (0 :: address) scope key).andThen _ := rfl
  rw [first, Template.Outcome.andThen, fails]

/-- A page that imports itself. -/
def loopFiles : FileTree := ⟨[(["loop.html"], .file "{{+ loop.html }}".toUTF8)], []⟩

/-- The history of a graph on which that page is registered. -/
def loopHistory : List (FileTree × Operation) :=
  [(loopFiles, .registerPage "loop.html" ⟨"/loop.html"⟩)]

/-- The page, as it is decoded. -/
def loopPage : Page :=
  ⟨"loop.html", .template (.mk .plain [] [.importing "loop.html"])⟩

/-- The graph that has decoded it. -/
def loopGraph : Graph where
  formats := Format.all
  paths := [("loop.html", ⟨"/loop.html"⟩)]
  pages := ["loop.html"]
  decoded := [(loopPage.key, loopPage.asset)]
  stack := []

theorem obtained_loopPage : Obtained Format.all loopGraph loopPage := by
  have decodes : ((empty Format.all).performAll loopHistory).decode loopFiles "loop.html"
      ⟨"/loop.html"⟩ = .ok loopPage.asset := by cbv
  exact obtained_of_decode decodes rfl rfl

/-- The run of a page that imports itself ends, with nothing nested in the page, and the page fails
because it would come to stand on the stack twice. -/
theorem renderPage_ends_loop :
    Obtained Format.all loopGraph loopPage ∧ loopGraph.size = 1 ∧
      (∃ last value, (loopGraph.pageRun loopPage).Reaches loopFiles last ∧
        last.next loopFiles = .finished (loopGraph.renderPage loopFiles loopPage).1 value) ∧
      (∀ point, (loopGraph.pageRun loopPage).Reaches loopFiles point → point.frames.length ≤ 1) ∧
      (loopGraph.renderPage loopFiles loopPage).2 =
        .error (.parsingFailed "loop.html" none
          (.circularDependency ["loop.html", "loop.html"])) := by
  obtain ⟨⟨last, value, reach, finished, -⟩, points, -⟩ :=
    obtained_loopPage.renderPage_ends loopFiles
  refine ⟨obtained_loopPage, rfl, ⟨last, value, reach, finished⟩,
    fun point reach => (points point reach).2.2.1, ?_⟩
  have found : (loopGraph.library loopFiles).resolve "loop.html" = .ok loopPage.asset := rfl
  have again (address : Address) (scope : Scope) :
      ((loopGraph.library loopFiles).importer ["loop.html"] address scope "loop.html").result =
        .error (.circularDependency ["loop.html", "loop.html"]) := by
    rw [Library.importer_of_mem found (by decide)]
    rfl
  have text : (loopGraph.renderPage loopFiles loopPage).2 =
      ((loopGraph.pageRun loopPage).finish loopFiles).2.map Value.text := rfl
  rw [text, finish_pageRun, if_neg (by decide)]
  exact congrArg (fun result => (result.mapError (·.inAsset "loop.html" none)).map Value.text)
    (result_outcome_import again [] .root)

end Graph
end StaticSite
