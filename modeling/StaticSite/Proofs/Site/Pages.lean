import StaticSite.Proofs.Site.Sources

/-!
# The texts of pages

When a site is rendered all pages are decoded and rendered on one graph.  Each page comes out as it
does by itself, where everything is registered and nothing else was done.
-/

namespace StaticSite

theorem Except.exists_of_mapM_eq_error {ε α β : Type} {act : α → Except ε β} {items : List α}
    {error : ε} (failed : items.mapM act = .error error) :
    ∃ item ∈ items, act item = .error error := by
  obtain ⟨front, item, back, rfl, fails, _⟩ := Except.mapM_eq_error_iff.mp failed
  exact ⟨item, by simp, fails⟩

namespace Graph

variable {files later : FileTree} {graph : Graph}

/-- Rendering by key is rendering the page that was resolved. -/
theorem snd_renderKey_of_resolve {key : String} {asset : Asset}
    (found : (graph.library files).resolve key = .ok asset) :
    (graph.renderKey files key).2 = (graph.renderPage files ⟨key, asset⟩).2 := by
  have stack_eq : (graph.keep (graph.library files) [key]).stack = graph.stack := rfl
  rw [renderKey_eq, found]
  exact snd_renderPage_congr stack_eq ((graph.yields_library files).keep [key]) _

theorem snd_renderKey_of_error {key : String} {error : RenderError}
    (failed : (graph.library files).resolve key = .error error) :
    (graph.renderKey files key).2 = .error error := by
  rw [renderKey_eq, failed]

/-- What a page renders to depends on what the registered paths hold. -/
theorem snd_renderKey_congr
    (same : ∀ entry ∈ graph.paths, later.read entry.2 = files.read entry.2) (key : String) :
    (graph.renderKey later key).2 = (graph.renderKey files key).2 := by
  have yields : graph.Yields later (graph.library files) := by
    intro key
    rw [resolve_library, resolve_library]
    cases graph.decoded.lookup key with
    | some asset => rfl
    | none =>
        cases place : graph.paths.lookup key with
        | none => rfl
        | some path =>
            obtain ⟨before, after, paths, -⟩ := List.lookup_eq_some_iff.mp place
            have member : (key, path) ∈ graph.paths := by simp [paths]
            simp only [decode, same _ member]
  cases found : (graph.library files).resolve key with
  | error error =>
      rw [snd_renderKey_of_error found, snd_renderKey_of_error ((yields key).trans found)]
  | ok asset =>
      rw [snd_renderKey_of_resolve found, snd_renderKey_of_resolve ((yields key).trans found)]
      exact snd_renderPage_congr rfl yields _

end Graph

namespace Site

open FileTree

variable {files later : FileTree} {output : Place} {config : Config} {graph resolved : Graph}

/-- The text of the page with a key, rendered where everything is registered and nothing else was
done. -/
def textOf (config : Config) (files : FileTree) (key : String) : Except RenderError String := do
  let graph ← register config files
  (graph.renderKey files key).2

theorem textOf_eq_of_register (registered : register config files = .ok graph) (key : String) :
    textOf config files key = (graph.renderKey files key).2 := by
  rw [textOf, registered]
  rfl

theorem faithful_of_register (registered : register config files = .ok graph) :
    graph.Faithful files ∧ graph.forgotten = graph := by
  rw [eq_of_register registered]
  refine ⟨⟨rfl, ?_⟩, rfl⟩
  rintro key asset ⟨⟩

/-- What happens around a place that the source directories are apart from does not change any
text. -/
theorem textOf_eq (wellFormed : files.WellFormed)
    (spared : ∀ directory ∈ config.sourceDirectories, files.Spares output directory)
    (same : files.SameAround later output) (key : String) :
    textOf config later key = textOf config files key := by
  have registration := register_eq spared same
  cases registered : register config files with
  | error error =>
      rw [registered] at registration
      rw [textOf, textOf, registered, registration]
      rfl
  | ok graph =>
      rw [registered] at registration
      rw [textOf_eq_of_register registered, textOf_eq_of_register registration]
      refine Graph.snd_renderKey_congr (fun entry member => ?_) key
      have fromDirectory (directory : Path) (spares : files.Spares output directory)
          (member : entry ∈ keyedFiles files directory) :
          later.read entry.2 = files.read entry.2 := by
        obtain ⟨below, content, source, rfl⟩ := (mem_keyedFiles_iff wellFormed).mp member
        have proper := source.proper wellFormed
        obtain ⟨place, located, nonempty, -⟩ := source
        exact spares.read_join_eq same located proper nonempty
      rw [eq_of_register registered] at member
      rcases List.mem_append.mp member with isTemplate | isPage
      · have spares := spared config.templatesDirectory (by simp [Config.sourceDirectories])
        exact fromDirectory _ spares isTemplate
      · have spares := spared config.pagesDirectory (by simp [Config.sourceDirectories])
        exact fromDirectory _ spares isPage

/-! ## All pages on one graph -/

/-- A page that cannot be decoded cannot be rendered by itself. -/
theorem exists_of_resolvePages_eq_error (registered : register config files = .ok graph)
    {error : RenderError} (failed : (graph.resolvePages files).2 = .error error) :
    ∃ key ∈ graph.pages, textOf config files key = .error error := by
  rw [Graph.resolvePages, Graph.snd_resolveEach (graph.yields_library files)] at failed
  obtain ⟨key, member, failed⟩ := Except.exists_of_mapM_eq_error failed
  refine ⟨key, List.mem_mergeSort.mp member, ?_⟩
  rw [textOf_eq_of_register registered]
  refine Graph.snd_renderKey_of_error ?_
  cases found : (graph.library files).resolve key with
  | ok asset => simp [found, Except.map] at failed
  | error other => simpa [found, Except.map] using failed

/-- The pages of a graph are those that were registered, and each renders as its key does. -/
theorem of_resolvePages (registered : register config files = .ok graph) {pages : List Page}
    (given : (graph.resolvePages files).2 = .ok pages) :
    (pages.map Page.key).Perm graph.pages ∧
      ∀ page ∈ pages, (graph.renderPage files page).2 = textOf config files page.key := by
  rw [Graph.resolvePages, Graph.snd_resolveEach (graph.yields_library files),
    Except.mapM_eq_ok_iff] at given
  have each : List.Forall₂ (fun page key =>
      (graph.renderPage files page).2 = textOf config files page.key ∧ page.key = key)
      pages (graph.pages.mergeSort fun key other => decide (key ≤ other)) := by
    refine given.flip.imp fun page key isPage => ?_
    cases found : (graph.library files).resolve key with
    | error error => simp [found, Except.map] at isPage
    | ok asset =>
        obtain rfl : Page.mk key asset = page := by simpa [flip, found, Except.map] using isPage
        refine ⟨?_, rfl⟩
        rw [textOf_eq_of_register registered, Graph.snd_renderKey_of_resolve found]
  obtain ⟨texts, keys⟩ := (List.forall₂_and_left _ _).mp each
  rw [← List.forall₂_map_left_iff, List.forall₂_eq_eq_eq] at keys
  exact ⟨keys ▸ List.mergeSort_perm graph.pages _, texts⟩

/-- Rendering one page after the other gives what each gives by itself. -/
theorem snd_renderEach (faithful : graph.Faithful files) (pages : List Page) :
    (renderEach graph files pages).2 = pages.mapM fun page =>
      (graph.forgotten.renderPage files page).2.map (page.key, ·) := by
  induction pages generalizing graph with
  | nil => rfl
  | cons page rest induction =>
      have forgets : (graph.perform files (.renderPage page)).forgotten = graph.forgotten :=
        graph.forgotten_perform files (.renderPage page)
      have onward := induction (faithful.perform (.renderPage page))
      rw [forgets] at onward
      rw [renderEach, List.mapM_cons, ← faithful.snd_renderPage page]
      cases rendered : graph.renderPage files page with
      | mk later result =>
          cases result with
          | error error => rfl
          | ok text =>
              have isLater : graph.perform files (.renderPage page) = later :=
                congrArg Prod.fst rendered
              rw [isLater] at onward
              dsimp only
              rw [onward]
              cases rest.mapM fun page =>
                (graph.forgotten.renderPage files page).2.map (page.key, ·) <;> rfl

theorem faithful_of_resolvePages (registered : register config files = .ok graph)
    {pages : List Page} (given : graph.resolvePages files = (resolved, .ok pages)) :
    resolved.Faithful files ∧ resolved.forgotten = graph := by
  obtain ⟨faithful, fresh⟩ := faithful_of_register registered
  have isResolved : graph.perform files .resolvePages = resolved := congrArg Prod.fst given
  rw [← isResolved]
  exact ⟨faithful.perform .resolvePages, (graph.forgotten_perform files .resolvePages).trans fresh⟩

/-- A page that cannot be rendered after others cannot be rendered by itself. -/
theorem exists_of_renderEach_eq_error (registered : register config files = .ok graph)
    {pages : List Page} (given : graph.resolvePages files = (resolved, .ok pages))
    {error : RenderError} (failed : (renderEach resolved files pages).2 = .error error) :
    ∃ key ∈ graph.pages, textOf config files key = .error error := by
  obtain ⟨keys, each⟩ := of_resolvePages registered (congrArg Prod.snd given)
  obtain ⟨faithful, forgets⟩ := faithful_of_resolvePages registered given
  rw [snd_renderEach faithful, forgets] at failed
  obtain ⟨page, member, failed⟩ := Except.exists_of_mapM_eq_error failed
  refine ⟨page.key, keys.mem_iff.mp (List.mem_map_of_mem member), ?_⟩
  rw [each page member] at failed
  cases text : textOf config files page.key with
  | ok text => simp [text, Except.map] at failed
  | error other => simpa [text, Except.map] using failed

/-- The texts of all pages are what each page gives by itself. -/
theorem of_renderEach (registered : register config files = .ok graph)
    {pages : List Page} (given : graph.resolvePages files = (resolved, .ok pages))
    {texts : List (String × String)} (rendered : (renderEach resolved files pages).2 = .ok texts) :
    (texts.map Prod.fst).Perm graph.pages ∧
      ∀ entry ∈ texts, textOf config files entry.1 = .ok entry.2 := by
  obtain ⟨keys, each⟩ := of_resolvePages registered (congrArg Prod.snd given)
  obtain ⟨faithful, forgets⟩ := faithful_of_resolvePages registered given
  rw [snd_renderEach faithful, forgets, Except.mapM_eq_ok_iff] at rendered
  have entries : List.Forall₂ (fun entry page =>
      textOf config files entry.1 = .ok entry.2 ∧ entry.1 = page.key) texts pages := by
    refine ((List.forall₂_and_left _ _).mpr ⟨each, rendered⟩).flip.imp ?_
    rintro entry page ⟨same, isText⟩
    rw [same] at isText
    cases known : textOf config files page.key with
    | error error => simp [known, Except.map] at isText
    | ok text =>
        obtain rfl : (page.key, text) = entry := by simpa [known, Except.map] using isText
        exact ⟨known, rfl⟩
  obtain ⟨each, sameKeys⟩ := (List.forall₂_and_left _ _).mp entries
  have pageKeys : texts.map Prod.fst = pages.map Page.key := by
    rw [← List.forall₂_eq_eq_eq, List.forall₂_map_left_iff, List.forall₂_map_right_iff]
    exact sameKeys
  exact ⟨pageKeys ▸ keys, each⟩

end Site
end StaticSite
