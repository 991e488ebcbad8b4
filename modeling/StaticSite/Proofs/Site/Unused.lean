import Mathlib
import StaticSite.Proofs.Asset.Asking
import StaticSite.Proofs.Site.Counting

/-!
# Which assets are reported as unused

A rendering that succeeds reports the templates whose imports were not executed while the pages were
baked.  What no page imports, directly or through others, is among them, and what a page imports
outside of conditionals and iterations is not.
-/

namespace StaticSite
namespace Site

open FileTree

variable {files : FileTree} {config : Config} {graph resolved baked : Graph} {pages : List Page}
  {texts : List (String × String)} {key : String}

/-- Whether an import of the asset with a key is executed while pages are baked, one after the other
on the graph that is left. -/
inductive Asks (files : FileTree) : Graph → List Page → String → Prop
  | here {graph : Graph} {page : Page} {rest : List Page} {key : String}
      (asks : (graph.pageRun page).Asks files key) : Asks files graph (page :: rest) key
  | later {graph middle : Graph} {page : Page} {rest : List Page} {text key : String}
      (rendered : graph.renderPage files page = (middle, .ok text))
      (asks : Asks files middle rest key) : Asks files graph (page :: rest) key

/-- Which templates are told to be unused when pages have been baked from some sources. -/
structure TellsUnused (config : Config) (sources : FileTree) (graph resolved : Graph)
    (pages : List Page) (unused : List String) : Prop where
  sorted : unused.Pairwise (· < ·)
  templates : ∀ key ∈ unused, key ∈ (keyedFiles sources config.templatesDirectory).map Prod.fst
  noPage : ∀ key ∈ (keyedFiles sources config.pagesDirectory).map Prod.fst, key ∉ unused
  mem_iff : ∀ key ∈ (keyedFiles sources config.templatesDirectory).map Prod.fst,
    key ∈ unused ↔ ¬ Asks sources resolved pages key
  /-- What no page imports, directly or through others, is unused. -/
  unreachable : ∀ key ∈ (keyedFiles sources config.templatesDirectory).map Prod.fst,
    (∀ page ∈ (keyedFiles sources config.pagesDirectory).map Prod.fst,
      ¬ Relation.ReflTransGen (graph.library sources).Imports page key) → key ∈ unused
  /-- What a page imports outside of conditionals and iterations is used. -/
  certain : ∀ page ∈ (keyedFiles sources config.pagesDirectory).map Prod.fst, ∀ model,
    (graph.library sources).resolve page = .ok (.template model) →
    ∀ key ∈ model.certainKeys, key ∉ unused

/-! ## Pages in turn -/

theorem of_renderEach_cons {page : Page} {rest : List Page}
    (rendering : renderEach graph files (page :: rest) = (baked, .ok texts)) :
    ∃ middle text more, graph.renderPage files page = (middle, .ok text) ∧
      renderEach middle files rest = (baked, .ok more) := by
  rw [renderEach] at rendering
  cases rendered : graph.renderPage files page with
  | mk middle result =>
      cases result with
      | error error => simp [rendered] at rendering
      | ok text =>
          cases others : renderEach middle files rest with
          | mk last result =>
              cases result with
              | error error => simp [rendered, others, Except.map] at rendering
              | ok more =>
                  obtain ⟨rfl, -⟩ : last = baked ∧ _ := by
                    simpa [rendered, others, Except.map] using rendering
                  exact ⟨middle, text, more, rfl, others⟩

/-- A page that was rendered has left what was decoded before and what it has asked for. -/
theorem isSome_renderPage_iff {page : Page} {text : String}
    (rendered : graph.renderPage files page = (baked, .ok text)) :
    (baked.decoded.lookup key).isSome ↔
      (graph.decoded.lookup key).isSome ∨ (graph.pageRun page).Asks files key := by
  have ends : ((graph.pageRun page).finish files).1 = baked := congrArg Prod.fst rendered
  have succeeds : ((graph.pageRun page).finish files).2.map Value.text = .ok text :=
    congrArg Prod.snd rendered
  obtain ⟨value, succeeds, -⟩ := Except.map_eq_ok_iff.mp succeeds
  rw [← ends, Run.isSome_finish_iff succeeds, Graph.decoded_pageRun]

theorem isSome_renderEach_iff (rendering : renderEach graph files pages = (baked, .ok texts)) :
    (baked.decoded.lookup key).isSome ↔
      (graph.decoded.lookup key).isSome ∨ Asks files graph pages key := by
  induction pages generalizing graph texts with
  | nil =>
      obtain rfl : graph = baked := congrArg Prod.fst rendering
      refine (or_iff_left fun asks => ?_).symm
      cases asks
  | cons page rest induction =>
      obtain ⟨middle, text, more, rendered, others⟩ := of_renderEach_cons rendering
      rw [induction others, isSome_renderPage_iff rendered, or_assoc]
      refine or_congr_right ⟨?_, fun asks => ?_⟩
      · rintro (asks | asks)
        · exact .here asks
        · exact .later rendered asks
      · cases asks with
        | here asks => exact .inl asks
        | @later _ other _ _ _ _ again asks =>
            obtain rfl : middle = other := (Prod.mk.inj (rendered.symm.trans again)).1
            exact .inr asks

/-- Rendering a page leaves what is registered and what can be imported. -/
theorem of_renderPage {page : Page} {text : String}
    (rendered : graph.renderPage files page = (baked, .ok text)) :
    baked.paths = graph.paths ∧
      ∀ {library : Library}, graph.Yields files library → baked.Yields files library := by
  obtain ⟨kept, isKept⟩ := graph.exists_keep_perform files (.renderPage page) rfl
  obtain rfl : graph.keep (graph.library files) kept = baked :=
    isKept.symm.trans (congrArg Prod.fst rendered)
  exact ⟨rfl, fun yields key => ((graph.yields_library files).keep kept key).trans (yields key)⟩

theorem paths_of_renderEach (rendering : renderEach graph files pages = (baked, .ok texts)) :
    baked.paths = graph.paths := by
  induction pages generalizing graph texts with
  | nil => exact congrArg (fun last => last.1.paths) rendering.symm
  | cons page rest induction =>
      obtain ⟨middle, text, more, rendered, others⟩ := of_renderEach_cons rendering
      exact (induction others).trans (of_renderPage rendered).1

/-- Pages ask only for what they import, directly or through others. -/
theorem Asks.exists_imports {library : Library} (asks : Asks files graph pages key)
    (yields : graph.Yields files library)
    (found : ∀ page ∈ pages, library.resolve page.key = .ok page.asset) :
    ∃ page ∈ pages, Relation.ReflTransGen library.Imports page.key key := by
  induction asks with
  | here asks =>
      have isPage := found _ List.mem_cons_self
      exact ⟨_, List.mem_cons_self, Graph.reflTransGen_of_asks yields isPage asks⟩
  | @later graph middle page rest text key rendered _ induction =>
      obtain ⟨other, member, imports⟩ := induction ((of_renderPage rendered).2 yields)
        fun other member => found other (List.mem_cons_of_mem page member)
      exact ⟨other, List.mem_cons_of_mem page member, imports⟩

/-- Pages that are rendered ask for what one of them imports in any case. -/
theorem asks_of_mem_certainKeys (rendering : renderEach graph files pages = (baked, .ok texts))
    {page : Page} (member : page ∈ pages) {model : Template.Model}
    (isModel : page.asset = .template model) (certain : key ∈ model.certainKeys) :
    Asks files graph pages key := by
  induction pages generalizing graph texts with
  | nil => contradiction
  | cons first rest induction =>
      obtain ⟨middle, text, more, rendered, others⟩ := of_renderEach_cons rendering
      rcases List.mem_cons.mp member with rfl | later
      · exact .here (Graph.asks_of_mem_certainKeys isModel certain (congrArg Prod.snd rendered))
      · exact .later rendered (induction others later)

/-! ## The graph of a site -/

/-- Registering assets one after the other keeps what each registration keeps. -/
theorem registered_of_foldlM {act : Graph → String × Path → Except RenderError Graph}
    {operation : String × Path → Operation}
    (same : ∀ graph entry later, act graph entry = .ok later →
      graph.perform files (operation entry) = later)
    {entries : List (String × Path)} {before after : Graph}
    (ran : entries.foldlM act before = .ok after) (start : before.Registered) :
    after.Registered := by
  refine Except.keeps_of_foldlM (fun entry _ before after registered done => ?_) start ran
  rw [← same before entry after done]
  exact registered.perform files _

/-- Keys that were registered without an error are distinct. -/
theorem nodup_keys_of_register (registered : register config files = .ok graph) :
    graph.keys.Nodup := by
  rw [register, Except.bind_eq_ok_iff] at registered
  obtain ⟨templates, first, second⟩ := registered
  have withTemplates : templates.Registered :=
    @registered_of_foldlM files _ (fun entry => .registerTemplate entry.1 entry.2)
      (fun graph entry later done => congrArg Prod.fst (Graph.registerTemplate_eq_ok_iff.mp done))
      _ _ _ first (Graph.registered_empty _)
  exact (@registered_of_foldlM files _ (fun entry => .registerPage entry.1 entry.2)
    (fun graph entry later done => congrArg Prod.fst (Graph.registerPage_eq_ok_iff.mp done))
    _ _ _ second withTemplates).distinct

namespace BakesPages

variable {sources : FileTree}
  (bakes : BakesPages config sources graph resolved pages baked texts)
include bakes

theorem keys_eq : graph.keys = (keyedFiles sources config.templatesDirectory).map Prod.fst ++
    (keyedFiles sources config.pagesDirectory).map Prod.fst := by
  rw [eq_of_register bakes.registers, Graph.keys, List.map_append]

theorem exists_keep : ∃ kept, resolved = graph.keep (graph.library sources) kept := by
  obtain ⟨kept, isKept⟩ := graph.exists_keep_perform sources .resolvePages rfl
  exact ⟨kept, (congrArg Prod.fst bakes.resolves).symm.trans isKept⟩

theorem paths_eq : baked.paths = graph.paths := by
  obtain ⟨kept, rfl⟩ := bakes.exists_keep
  rw [paths_of_renderEach bakes.bakes]
  rfl

theorem yields : resolved.Yields sources (graph.library sources) := by
  obtain ⟨kept, rfl⟩ := bakes.exists_keep
  exact (graph.yields_library sources).keep kept

/-- The pages are those of the page directory. -/
theorem mem_pages_iff : key ∈ pages.map Page.key ↔
    key ∈ (keyedFiles sources config.pagesDirectory).map Prod.fst := by
  have perm := (of_resolvePages bakes.registers (congrArg Prod.snd bakes.resolves)).1
  rw [perm.mem_iff, eq_of_register bakes.registers]

/-- Each page was decoded from the sources. -/
theorem resolve_eq_ok {page : Page} (member : page ∈ pages) :
    (graph.library sources).resolve page.key = .ok page.asset := by
  have given := congrArg Prod.snd bakes.resolves
  rw [Graph.resolvePages, Graph.snd_resolveEach (graph.yields_library sources),
    Except.mapM_eq_ok_iff] at given
  have each : List.Forall₂ (fun page _ =>
      (graph.library sources).resolve page.key = .ok page.asset ∧ True) pages
      (graph.pages.mergeSort fun key other => decide (key ≤ other)) := by
    refine given.flip.imp fun page key isPage => ⟨?_, trivial⟩
    cases found : (graph.library sources).resolve key with
    | error error => simp [found, Except.map] at isPage
    | ok asset =>
        obtain rfl : Page.mk key asset = page := by simpa [found, flip, Except.map] using isPage
        exact found
  exact ((List.forall₂_and_left _ _).mp each).1 page member

/-- What was decoded when the pages were resolved are the pages. -/
theorem isSome_resolved_iff :
    (resolved.decoded.lookup key).isSome ↔
      key ∈ (keyedFiles sources config.pagesDirectory).map Prod.fst := by
  have fresh := eq_of_register bakes.registers
  constructor
  · intro isSome
    obtain ⟨asset, decoded⟩ := Option.isSome_iff_exists.mp isSome
    have ends : (graph.resolvePages sources).1 = resolved := congrArg Prod.fst bakes.resolves
    rw [← ends, Graph.resolvePages, Graph.lookup_resolveEach_iff] at decoded
    rcases decoded with before | ⟨front, back, -, -, whole, -⟩
    · simp [fresh, Graph.empty] at before
    · have listed : key ∈ graph.pages :=
        List.mem_mergeSort.mp (whole ▸ List.mem_append_right front List.mem_cons_self)
      rwa [fresh] at listed
  · intro isPage
    obtain ⟨page, member, rfl⟩ := List.mem_map.mp (bakes.mem_pages_iff.mpr isPage)
    have idle : graph.Idle := by
      rw [fresh]
      refine ⟨rfl, ?_⟩
      rintro key asset ⟨⟩
    exact Option.isSome_of_eq_some (idle.ready_of_resolveEach bakes.resolves member).kept

theorem mem_unused_iff :
    key ∈ baked.unused.map Prod.fst ↔
      key ∈ (keyedFiles sources config.templatesDirectory).map Prod.fst ∧
        ¬ Asks sources resolved pages key := by
  have distinct := nodup_keys_of_register bakes.registers
  have sameKeys : baked.keys = graph.keys := congrArg (List.map Prod.fst) bakes.paths_eq
  have listed : key ∈ baked.unused.map Prod.fst ↔
      key ∈ graph.keys ∧ ¬ (baked.decoded.lookup key).isSome := by
    simp only [List.mem_map, Prod.exists, exists_and_right, exists_eq_right,
      Graph.mem_unused_iff (sameKeys ▸ distinct), bakes.paths_eq, Graph.mem_keys_iff,
      Option.not_isSome_iff_eq_none]
  rw [bakes.keys_eq] at distinct
  rw [listed, isSome_renderEach_iff bakes.bakes, bakes.isSome_resolved_iff, bakes.keys_eq,
    List.mem_append]
  constructor
  · rintro ⟨isTemplate | isPage, unused⟩
    · exact ⟨isTemplate, fun asks => unused (.inr asks)⟩
    · exact absurd (.inl isPage) unused
  · rintro ⟨isTemplate, noAsk⟩
    refine ⟨.inl isTemplate, ?_⟩
    rintro (isPage | asks)
    · exact (List.nodup_append.mp distinct).2.2 _ isTemplate _ isPage rfl
    · exact noAsk asks

theorem tellsUnused :
    TellsUnused config sources graph resolved pages (baked.unused.map Prod.fst) := by
  have distinct := nodup_keys_of_register bakes.registers
  have sameKeys : baked.keys = graph.keys := congrArg (List.map Prod.fst) bakes.paths_eq
  constructor
  case sorted => exact Graph.sorted_unused (sameKeys ▸ distinct)
  case templates => exact fun key unused => (bakes.mem_unused_iff.mp unused).1
  case noPage =>
    intro key isPage unused
    rw [bakes.keys_eq] at distinct
    have isTemplate := (bakes.mem_unused_iff.mp unused).1
    exact (List.nodup_append.mp distinct).2.2 _ isTemplate _ isPage rfl
  case mem_iff =>
    intro key isTemplate
    rw [bakes.mem_unused_iff, and_iff_right isTemplate]
  case unreachable =>
    intro key isTemplate noPath
    refine bakes.mem_unused_iff.mpr ⟨isTemplate, fun asks => ?_⟩
    obtain ⟨page, member, path⟩ :=
      asks.exists_imports bakes.yields fun page member => bakes.resolve_eq_ok member
    exact noPath _ (bakes.mem_pages_iff.mp (List.mem_map_of_mem member)) path
  case certain =>
    intro name isPage model found key certain unused
    obtain ⟨page, member, rfl⟩ := List.mem_map.mp (bakes.mem_pages_iff.mpr isPage)
    have isModel : page.asset = .template model :=
      Except.ok.inj ((bakes.resolve_eq_ok member).symm.trans found)
    exact (bakes.mem_unused_iff.mp unused).2
      (asks_of_mem_certainKeys bakes.bakes member isModel certain)

end BakesPages

/-- A rendering that succeeds has baked all pages of the cleared tree, and its report tells which
templates they leave unused. -/
theorem render_unused {log : List LogLine} {report : Report} {last : Workspace}
    (performed : (render config).perform ⟨files, log⟩ = (.ok report, last)) :
    ∃ cleared graph resolved pages baked texts,
      (clear config.build.output).Turns files cleared ∧
        BakesPages config cleared graph resolved pages baked texts ∧
        TellsUnused config cleared graph resolved pages report.unused := by
  have given := (gives_stages_unused config files).ended log
  rw [performed] at given
  obtain ⟨cleared, texts, written, stages, graph, resolved, pages, baked, bakes, unused⟩ := given
  exact ⟨cleared, graph, resolved, pages, baked, texts, stages.clears, bakes,
    unused ▸ bakes.tellsUnused⟩

/-! ## A site with an unused template -/

/-- Files of a site with two templates and a page. -/
def draftTree (menu draft page : ByteArray) : FileTree :=
  ⟨[(["o"], .directory),
    (["t"], .directory),
    (["t", "m.htm"], .file menu),
    (["t", "d.htm"], .file draft),
    (["p"], .directory),
    (["p", "x.htm"], .file page)], []⟩

/-- The page imports one of the templates in any case, and the other under a condition that does not
hold. -/
def draftFiles : FileTree :=
  draftTree "U".toUTF8 "I".toUTF8 "{{+ m.htm }}{{| false }}{{+ d.htm }}{{/}}".toUTF8

def draftPage : Page :=
  ⟨"x.htm", .template (.mk .plain [] [.importing "m.htm",
    .scope (.mk (.conditional (some "false") none) [] [.importing "d.htm"])])⟩

/-- The graph that has decoded the page. -/
def draftGraph : Graph where
  formats := Format.all
  paths := [("d.htm", ⟨"/t/d.htm"⟩), ("m.htm", ⟨"/t/m.htm"⟩), ("x.htm", ⟨"/p/x.htm"⟩)]
  pages := ["x.htm"]
  decoded := [("x.htm", draftPage.asset)]
  stack := []

def menuAsset : Asset := .template (.mk .plain [] [.literal "U"])

/-- The graph that has baked the page. -/
def draftBaked : Graph :=
  { draftGraph with decoded := draftGraph.decoded ++ [("m.htm", menuAsset)] }

theorem register_draft (menu draft page : ByteArray) :
    register smallConfig (draftTree menu draft page) = .ok draftGraph.forgotten := by
  have templates : keyedFiles (draftTree menu draft page) smallConfig.templatesDirectory =
      [("d.htm", ⟨"/t/d.htm"⟩), ("m.htm", ⟨"/t/m.htm"⟩)] := by
    cbv
  have pages : keyedFiles (draftTree menu draft page) smallConfig.pagesDirectory =
      [("x.htm", ⟨"/p/x.htm"⟩)] := by
    cbv
  rw [register, templates, pages]
  rfl

/-- Only the import outside of the conditional is asked for. -/
theorem outcome_draftPage {imports : Template.Importer}
    (given : ∀ address scope, imports address scope "m.htm" =
      ⟨["m.htm"], .ok (.scope address scope.frames "U")⟩) :
    (draftPage.asset.bake [] .root).outcome imports = ⟨["m.htm"], .ok (.scope [] [] "U")⟩ := by
  have fails : Template.conditionHolds .alone ⟨[]⟩ (some "false") = .ok false := by cbv
  simp [draftPage, Asset.bake, Template.Model.bake, Template.bakeBindings, Template.bakeNodes,
    Template.bakeNode, Template.Baking.andThen, Template.Baking.ask, Template.Baking.outcome,
    Template.Outcome.andThen, Template.Outcome.ofExcept, Template.Baked.toValue, bind, pure, fails,
    given, Scope.root, Value.text, String.join]

theorem renderEach_draft :
    renderEach draftGraph draftFiles [draftPage] = (draftBaked, .ok [("x.htm", "U")]) := by
  have found : (draftGraph.library draftFiles).resolve "m.htm" = .ok menuAsset := by cbv
  have imported (address : Address) (scope : Scope) :
      (draftGraph.library draftFiles).importer ["x.htm"] address scope "m.htm" =
        ⟨["m.htm"], .ok (.scope address scope.frames "U")⟩ := by
    rw [Library.importer_of_not_mem found (by decide)]
    rfl
  have text : draftGraph.renderPage draftFiles draftPage = (draftBaked, .ok "U") := by
    have ended : draftGraph.renderPage draftFiles draftPage =
        ((draftGraph.pageRun draftPage).finish draftFiles).map id (Except.map Value.text) := rfl
    have stack : draftGraph.stack ++ [draftPage.key] = ["x.htm"] := rfl
    rw [ended, Graph.finish_pageRun, if_neg (by decide), stack, outcome_draftPage imported]
    simp only [Graph.keep, List.foldl_cons, List.foldl_nil, Graph.remember, found]
    rfl
  rw [renderEach, text]
  rfl

theorem perform_clear_draft (menu draft page : ByteArray) (log : List LogLine) :
    (clear smallConfig.build.output).perform ⟨draftTree menu draft page, log⟩ =
      (.ok (), ⟨draftTree menu draft page, log⟩) := by
  cbv

theorem perform_draft :
    ((render smallConfig).perform ⟨draftFiles, []⟩).1 = .ok ⟨1, 0, ["d.htm"]⟩ := by
  have cleared (log : List LogLine) : (clear smallConfig.build.output).perform ⟨draftFiles, log⟩ =
      (.ok (), ⟨draftFiles, log⟩) :=
    perform_clear_draft _ _ _ log
  have registered : register smallConfig draftFiles = .ok draftGraph.forgotten :=
    register_draft _ _ _
  have resolved : draftGraph.forgotten.resolvePages draftFiles = (draftGraph, .ok [draftPage]) := by
    cbv
  simp only [render, Task.perform_bind, Task.perform_tell, Workspace.tell, cleared,
    Task.perform_files, registered, Task.perform_ofExcept_ok, resolved, renderEach_draft]
  cbv

/-- The template under a condition that does not hold is reported. -/
theorem render_unused_draft :
    ∃ report last, (render smallConfig).perform ⟨draftFiles, []⟩ = (.ok report, last) ∧
      report.unused = ["d.htm"] ∧ ∃ cleared graph resolved pages baked texts,
        (clear smallConfig.build.output).Turns draftFiles cleared ∧
          BakesPages smallConfig cleared graph resolved pages baked texts ∧
          TellsUnused smallConfig cleared graph resolved pages report.unused := by
  have performed : (render smallConfig).perform ⟨draftFiles, []⟩ = (.ok ⟨1, 0, ["d.htm"]⟩, _) :=
    Prod.ext perform_draft rfl
  exact ⟨_, _, performed, rfl, render_unused performed⟩

end Site
end StaticSite
