import StaticSite.Proofs.Site.Storing

/-!
# What a rendering leaves

A rendering that ends with an error in a page leaves an empty output directory.  One that succeeds
leaves in it the text of every page and a copy of every other asset, each at its key, and no other
file.  Nothing else is changed, and what the output directory held before makes no difference.

This holds for paths written without `..`.  An output path that leads through a directory which is
not there yet is found only after it was made, and what is there by then is not cleared.
-/

namespace StaticSite
namespace Site

open FileTree

variable {files later : FileTree} {config : Config} {below : Place}

/-- Whether a page is rendered to some bytes. -/
def IsPage (config : Config) (files : FileTree) (below : Place) (content : ByteArray) : Prop :=
  (∃ source, IsSource files config.pagesDirectory below source) ∧
    ∃ text, textOf config files (keyOf below) = .ok text ∧ content = text.toUTF8

/-- Whether a site is not rendered for an error: two sources have one key, or a page cannot be
rendered. -/
def IsCause (config : Config) (files : FileTree) (cause : RenderError) : Prop :=
  register config files = .error cause ∨
    ∃ below source, IsSource files config.pagesDirectory below source ∧
      textOf config files (keyOf below) = .error cause

/-- Whether the output directory of a site is apart from its sources, and no page has the key of
another asset. -/
structure Separates (config : Config) (files : FileTree) : Prop where
  wellFormed : files.WellFormed
  plain : config.build.output.IsPlain
  permits : Permits config.build.output
  free : files.entry? (files.placeOf config.build.output) = none ∨
    files.entry? (files.placeOf config.build.output) = some .directory
  spared : ∀ directory ∈ config.sourceDirectories,
    files.Spares (files.placeOf config.build.output) directory
  disjoint : ∀ below page asset, IsSource files config.pagesDirectory below page →
    ¬ IsSource files config.assetsDirectory below asset

namespace Separates

variable {graph resolved : Graph} {pages : List Page} {texts : List (String × String)}
  {cleared : FileTree}

/-- What stops a page on the cleared tree is a reason why the site is not rendered. -/
theorem isCause (separates : Separates config files)
    (same : files.SameAround cleared (files.placeOf config.build.output))
    (registered : register config cleared = .ok graph) {cause : RenderError}
    (failed : ∃ key ∈ graph.pages, textOf config cleared key = .error cause) :
    IsCause config files cause := by
  obtain ⟨key, member, failed⟩ := failed
  rw [textOf_eq separates.wellFormed separates.spared same] at failed
  rw [register_eq separates.spared same] at registered
  obtain ⟨below, source, isSource, rfl⟩ := (mem_pages_iff separates.wellFormed registered).mp member
  exact .inr ⟨below, source, isSource, failed⟩

/-- Every page has a text once all pages were rendered. -/
theorem exists_mem_texts (separates : Separates config files)
    (same : files.SameAround cleared (files.placeOf config.build.output))
    (registered : register config cleared = .ok graph)
    (given : graph.resolvePages cleared = (resolved, .ok pages))
    (rendered : (renderEach resolved cleared pages).2 = .ok texts) {source : ByteArray}
    (isSource : IsSource files config.pagesDirectory below source) :
    ∃ text, (keyOf below, text) ∈ texts ∧ textOf config files (keyOf below) = .ok text := by
  obtain ⟨keys, areTexts⟩ := of_renderEach registered given rendered
  rw [register_eq separates.spared same] at registered
  have isPage := (mem_pages_iff separates.wellFormed registered).mpr ⟨below, source, isSource, rfl⟩
  obtain ⟨⟨key, text⟩, member, rfl⟩ := List.mem_map.mp (keys.mem_iff.mpr isPage)
  refine ⟨text, member, ?_⟩
  rw [← textOf_eq separates.wellFormed separates.spared same]
  exact areTexts _ member

/-- Every page is written with its text. -/
theorem gives_writePages (separates : Separates config files)
    (holds : files.Holds (files.placeOf config.build.output) (fun _ _ => False) cleared)
    (registered : register config cleared = .ok graph)
    (given : graph.resolvePages cleared = (resolved, .ok pages))
    (rendered : (renderEach resolved cleared pages).2 = .ok texts) :
    (texts.forM fun (key, text) => writePage config.build.output key text).Gives cleared
      (fun _ last =>
        files.Holds (files.placeOf config.build.output) (IsPage config files) last)
      fun error _ => error.IsFileFault := by
  have isText := (check_eq_ok_iff.mp separates.permits.1).2.1
  have same := holds.toSameAround
  obtain ⟨keys, areTexts⟩ := of_renderEach registered given rendered
  have original := (register_eq separates.spared same).symm.trans registered
  have distinct := keys.nodup_iff.mpr (nodup_pages separates.wellFormed original)
  have sources (entry : String × String) (member : entry ∈ texts) :=
    (mem_pages_iff separates.wellFormed original).mp
      (keys.mem_iff.mp (List.mem_map_of_mem member))
  refine (Site.gives_writePages separates.plain isText separates.wellFormed distinct sources
    holds).mono (fun _ last holds => holds.congr fun below content => ?_) fun _ _ => id
  refine and_congr_right fun ⟨source, isSource⟩ => exists_congr fun text => ?_
  refine and_congr_left fun _ => ⟨fun member => ?_, fun isText => ?_⟩
  · rw [← textOf_eq separates.wellFormed separates.spared same]
    exact areTexts _ member
  · obtain ⟨other, member, known⟩ :=
      separates.exists_mem_texts same registered given rendered isSource
    rw [isText] at known
    exact Except.ok.inj known ▸ member

/-- Every file of the asset directory is copied. -/
theorem gives_copyAssets (separates : Separates config files)
    (holds : files.Holds (files.placeOf config.build.output) (IsPage config files) later) :
    ((keyedFiles later config.assetsDirectory).forM fun (key, source) =>
      copyAsset config.build.output key source).Gives later
      (fun _ last => files.Holds (files.placeOf config.build.output) (fun below content =>
        IsPage config files below content ∨
          IsSource files config.assetsDirectory below content) last)
      fun error _ => error.IsFileFault := by
  have isText := (check_eq_ok_iff.mp separates.permits.1).2.1
  have spares := separates.spared config.assetsDirectory (by simp [Config.sourceDirectories])
  rw [keyedFiles_eq spares holds.toSameAround]
  refine Site.gives_copyAssets separates.plain isText separates.wellFormed spares ?_ holds
  rintro below content source ⟨⟨page, isPage⟩, -⟩
  exact separates.disjoint below page source isPage

/-- A rendering leaves pages and assets; or it ends with an error in a page, and leaves nothing. -/
theorem gives_render (separates : Separates config files) :
    (render config).Gives files
      (fun _ later =>
        (∀ below source, IsSource files config.pagesDirectory below source →
          ∃ text, textOf config files (keyOf below) = .ok text) ∧
        files.Holds (files.placeOf config.build.output) (fun below content =>
          IsPage config files below content ∨
            IsSource files config.assetsDirectory below content) later)
      fun error later => error.IsFileFault ∨ ∃ cause, error = .render cause ∧
        IsCause config files cause ∧
        files.Holds (files.placeOf config.build.output) (fun _ _ => False) later ∧
        ∀ below, below ≠ [] → later.entry? (files.placeOf config.build.output ++ below) = none := by
  unfold render
  dsimp only
  refine .tell_then ?_
  refine .bind ((gives_clear_holds separates.wellFormed separates.plain separates.permits
    separates.free).mono (fun _ _ => id) fun _ _ => Or.inl) ?_
  rintro _ cleared ⟨holds, empty⟩
  have same := holds.toSameAround
  refine .files_then ?_
  refine .ofExcept_then (fun graph registered => ?_) fun cause failed => ?_
  · refine .tell_then ?_
    cases given : graph.resolvePages cleared with
    | mk resolved result =>
        dsimp only
        refine .ofExcept_then (fun pages isPages => ?_) fun cause failed => ?_
        · obtain rfl : result = .ok pages := isPages
          refine .tell_then ?_
          cases rendering : renderEach resolved cleared pages with
          | mk rendered result =>
              dsimp only
              refine .ofExcept_then (fun texts areTexts => ?_) fun cause failed => ?_
              · -- all texts are there before the first is written
                obtain rfl : result = .ok texts := areTexts
                have haveTexts (below : Place) (source : ByteArray)
                    (isSource : IsSource files config.pagesDirectory below source) :
                    ∃ text, textOf config files (keyOf below) = .ok text :=
                  (separates.exists_mem_texts same registered given
                    (congrArg Prod.snd rendering) isSource).imp fun _ => And.right
                refine .bind ((separates.gives_writePages holds registered given
                  (congrArg Prod.snd rendering)).mono (fun _ _ => id) fun _ _ => Or.inl) ?_
                intro _ written holds
                refine .files_then (.tell_then ?_)
                refine .bind ((separates.gives_copyAssets holds).mono (fun _ _ => id)
                  fun _ _ => Or.inl) ?_
                intro _ copied holds
                split
                · refine (gives_tellUnused rendered.unused).bind ?_
                  rintro _ _ rfl
                  exact .tell_then (.pure ⟨haveTexts, holds⟩)
                · exact .tell_then (.pure ⟨haveTexts, holds⟩)
              · have stopped := exists_of_renderEach_eq_error registered given
                  ((congrArg Prod.snd rendering).trans failed)
                exact .inr ⟨cause, rfl, separates.isCause same registered stopped, holds, empty⟩
        · have stopped := exists_of_resolvePages_eq_error registered
            ((congrArg Prod.snd given).trans failed)
          exact .inr ⟨cause, rfl, separates.isCause same registered stopped, holds, empty⟩
  · rw [register_eq separates.spared same] at failed
    exact .inr ⟨cause, rfl, .inl failed, holds, empty⟩

end Separates

/-- What was in the output directory before makes no difference. -/
theorem Separates.perform_eq (separates : Separates config files) {other : FileTree}
    (wellFormed : other.WellFormed)
    (free : other.entry? (files.placeOf config.build.output) = none ∨
      other.entry? (files.placeOf config.build.output) = some .directory)
    (same : other.without (files.placeOf config.build.output) =
      files.without (files.placeOf config.build.output)) (log : List LogLine) :
    (render config).perform ⟨other, log⟩ = (render config).perform ⟨files, log⟩ := by
  have current_eq := congrArg FileTree.current same
  have place_eq : other.placeOf config.build.output = files.placeOf config.build.output :=
    placeOf_congr current_eq _
  have cleared (log : List LogLine) : (clear config.build.output).perform ⟨other, log⟩ =
      (clear config.build.output).perform ⟨files, log⟩ := by
    rw [perform_clear wellFormed separates.plain separates.permits (place_eq ▸ free), place_eq,
      same, perform_clear separates.wellFormed separates.plain separates.permits separates.free]
  obtain ⟨rest, whole⟩ : ∃ rest : Unit → Task Report, render config =
      Task.tell "render" ("cleaning " ++ config.build.output.text) >>= fun _ =>
        clear config.build.output >>= rest := ⟨_, rfl⟩
  have begins (tree : FileTree) : (render config).perform ⟨tree, log⟩ =
      (clear config.build.output >>= rest).perform
        ⟨tree, log ++ [⟨"render", "cleaning " ++ config.build.output.text⟩]⟩ := by
    rw [whole, Task.perform_bind]
    rfl
  rw [begins, begins, Task.perform_bind, Task.perform_bind, cleared]

/-- A rendering leaves in the output directory the text of every page and the bytes of every other
asset at their keys, and no other file; or, if a page cannot be rendered, nothing at all.  No other
file is changed, and what was in the output directory before makes no difference. -/
theorem render_output (separates : Separates config files) {log : List LogLine}
    {result : Except SiteError Report} {last : Workspace}
    (performed : (render config).perform ⟨files, log⟩ = (result, last))
    (noFault : ∀ error, result = .error error → ¬ error.IsFileFault) :
    let place := files.placeOf config.build.output
    (match result with
      | .ok _ =>
          (∀ below source, IsSource files config.pagesDirectory below source →
            ∃ text, textOf config files (keyOf below) = .ok text) ∧
          ∀ below content, below ≠ [] →
            (last.files.content? (place ++ below) = some content ↔
              IsPage config files below content ∨
                IsSource files config.assetsDirectory below content)
      | .error error => ∃ cause, error = .render cause ∧ IsCause config files cause ∧
          ∀ below, below ≠ [] → last.files.entry? (place ++ below) = none) ∧
      last.files.entry? place = some .directory ∧
      (∀ other, ¬ place <+: other → last.files.content? other = files.content? other) ∧
      ∀ other : FileTree, other.WellFormed →
        (other.entry? place = none ∨ other.entry? place = some .directory) →
        other.without place = files.without place →
        (render config).perform ⟨other, log⟩ = (result, last) := by
  intro place
  have given := separates.gives_render.ended log
  rw [performed] at given
  have independent (other : FileTree) (wellFormed : other.WellFormed)
      (free : other.entry? place = none ∨ other.entry? place = some .directory)
      (same : other.without place = files.without place) :
      (render config).perform ⟨other, log⟩ = (result, last) :=
    (separates.perform_eq wellFormed free same log).trans performed
  cases result with
  | ok report =>
      obtain ⟨haveTexts, holds⟩ := given
      exact ⟨⟨haveTexts, holds.content?_iff⟩, holds.onTheWay place (List.prefix_refl _),
        fun other outside => holds.content?_eq outside, independent⟩
  | error error =>
      obtain fault | ⟨cause, isRender, isCause, holds, empty⟩ := given
      · exact absurd fault (noFault error rfl)
      · exact ⟨⟨cause, isRender, isCause, empty⟩, holds.onTheWay place (List.prefix_refl _),
          fun other outside => holds.content?_eq outside, independent⟩

/-- Files of a site with one page, one asset and a file from an earlier rendering. -/
def smallFiles : FileTree :=
  ⟨[(["p"], .directory),
    (["p", "x.htm"], .file "Hi".toUTF8),
    (["a"], .directory),
    (["a", "y"], .file "z".toUTF8),
    (["o"], .directory),
    (["o", "w"], .file "v".toUTF8)], []⟩

def smallConfig : Config where
  build :=
    { input := ⟨"/"⟩, output := ⟨"/o"⟩, pages := ⟨"p"⟩, templates := ⟨"t"⟩, assets := ⟨"a"⟩ }

/-- The files when the output directory has been cleared. -/
def smallCleared : FileTree :=
  ⟨[(["o"], .directory),
    (["p"], .directory),
    (["p", "x.htm"], .file "Hi".toUTF8),
    (["a"], .directory),
    (["a", "y"], .file "z".toUTF8)], []⟩

def smallPage : Page := ⟨"x.htm", .template (.mk .plain [] [.literal "Hi"])⟩

/-- The graph that has decoded the page. -/
def smallGraph : Graph where
  formats := Format.all
  paths := [("x.htm", ⟨"/p/x.htm"⟩)]
  pages := ["x.htm"]
  decoded := [("x.htm", smallPage.asset)]
  stack := []

theorem separates_small : Separates smallConfig smallFiles := by
  have wellFormed : smallFiles.WellFormed := by
    refine ⟨by decide, by decide, fun entry member => ?_⟩
    simp only [smallFiles, List.mem_cons, List.not_mem_nil, or_false] at member
    rcases member with rfl | rfl | rfl | rfl | rfl | rfl <;> rfl
  have place : smallFiles.placeOf smallConfig.build.output = ["o"] := by cbv
  have spares (directory : Path) (plain : directory.IsPlain)
      (apart : Place.IsApart ["o"] (smallFiles.placeOf directory)) :
      smallFiles.Spares (smallFiles.placeOf smallConfig.build.output) directory :=
    wellFormed.spares plain (place.symm ▸ apart)
  have permits : Permits smallConfig.build.output := by
    refine ⟨check_eq_ok_iff.mpr (by decide), ?_⟩
    decide
  refine ⟨wellFormed, by decide, permits, ?_, ?_, ?_⟩
  · rw [place]
    exact .inr rfl
  · simp only [Config.sourceDirectories, List.forall_mem_cons]
    refine ⟨spares _ ?_ ?_, spares _ ?_ ?_, spares _ ?_ ?_, by simp⟩ <;> decide +kernel
  · -- the page has another key than the asset
    intro below page asset isPage isAsset
    have pages : (keyedFiles smallFiles smallConfig.pagesDirectory).map Prod.fst = ["x.htm"] := by
      cbv
    have assets : (keyedFiles smallFiles smallConfig.assetsDirectory).map Prod.fst = ["y"] := by cbv
    have pageKey : keyOf below ∈ ["x.htm"] := pages ▸ List.mem_map_of_mem
      ((mem_keyedFiles_iff wellFormed).mpr ⟨below, page, isPage, rfl⟩)
    have assetKey : keyOf below ∈ ["y"] := assets ▸ List.mem_map_of_mem
      ((mem_keyedFiles_iff wellFormed).mpr ⟨below, asset, isAsset, rfl⟩)
    rw [List.mem_singleton] at pageKey assetKey
    rw [pageKey] at assetKey
    revert assetKey
    decide

theorem perform_clear_small (log : List LogLine) :
    (clear smallConfig.build.output).perform ⟨smallFiles, log⟩ = (.ok (), ⟨smallCleared, log⟩) := by
  cbv

theorem renderEach_small (files : FileTree) :
    renderEach smallGraph files [smallPage] = (smallGraph, .ok [("x.htm", "Hi")]) := by
  have text : smallGraph.renderPage files smallPage = (smallGraph, .ok "Hi") := by
    have ended : smallGraph.renderPage files smallPage =
        ((smallGraph.pageRun smallPage).finish files).map id (Except.map Value.text) := rfl
    rw [ended, Graph.finish_pageRun, if_neg (by decide)]
    cbv
  rw [renderEach, text]
  rfl

theorem isOk_render_small :
    ((render smallConfig).perform ⟨smallFiles, []⟩).1.isOk = true := by
  have registered : register smallConfig smallCleared = .ok smallGraph.forgotten := by cbv
  have resolved : smallGraph.forgotten.resolvePages smallCleared =
      (smallGraph, .ok [smallPage]) := by
    cbv
  simp only [render, Task.perform_bind, Task.perform_tell, Workspace.tell, perform_clear_small,
    Task.perform_files, registered, Task.perform_ofExcept_ok, resolved, renderEach_small]
  cbv

/-- The page and the asset are there afterwards, and the other file is not. -/
theorem render_output_small :
    ((render smallConfig).perform ⟨smallFiles, []⟩).1.isOk = true ∧
      ∀ below content, below ≠ [] →
        (((render smallConfig).perform ⟨smallFiles, []⟩).2.files.content? (["o"] ++ below) =
            some content ↔
          IsPage smallConfig smallFiles below content ∨
            IsSource smallFiles smallConfig.assetsDirectory below content) := by
  have isOk := isOk_render_small
  have place : smallFiles.placeOf smallConfig.build.output = ["o"] := by cbv
  refine ⟨isOk, ?_⟩
  cases performed : (render smallConfig).perform ⟨smallFiles, []⟩ with
  | mk result last =>
      rw [performed] at isOk
      cases result with
      | error error => contradiction
      | ok report =>
          have output := render_output separates_small performed (by simp)
          rw [place] at output
          exact output.1.2

/-- Files of a site without sources, and a file from an earlier rendering. -/
def staleFiles : FileTree :=
  ⟨[(["o"], .directory), (["o", "w"], .file "v".toUTF8)], []⟩

/-- Settings that name the output directory with a detour. -/
def staleConfig : Config where
  build :=
    { input := ⟨"/"⟩, output := ⟨"/b/../o"⟩, pages := ⟨"p"⟩, templates := ⟨"t"⟩, assets := ⟨"a"⟩ }

theorem makeDirectories_stale : staleFiles.makeDirectories staleConfig.build.output =
    ⟨staleFiles.put ["b"] .directory, none⟩ := by
  have ancestors : (⟨"/b/../o"⟩ : Path).ancestors = [⟨"/b/../o"⟩, ⟨"/b/.."⟩, ⟨"/b"⟩, ⟨"/"⟩] := by
    cbv
  have noOutput : staleFiles.makeDirectory ⟨"/b/../o"⟩ = .error .notFound := by cbv
  have noParent : staleFiles.makeDirectory ⟨"/b/.."⟩ = .error .notFound := by cbv
  have isMissing : staleFiles.makeDirectory ⟨"/b"⟩ = .ok (staleFiles.put ["b"] .directory) := by cbv
  have missing : staleFiles.missing [⟨"/b/../o"⟩, ⟨"/b/.."⟩, ⟨"/b"⟩, ⟨"/"⟩] =
      .ok [⟨"/b/../o"⟩, ⟨"/b/.."⟩, ⟨"/b"⟩] := by
    simp only [FileTree.missing, noOutput, noParent, isMissing]
    decide +kernel
  rw [makeDirectories, staleConfig, ancestors, missing]
  cbv

/-- An output path through a missing directory leads nowhere before a rendering, and afterwards to
a directory in which an old file is left. -/
theorem render_keeps_stale :
    staleFiles.isThere staleConfig.build.output = false ∧
      (∀ directory ∈ staleConfig.sourceDirectories, keyedFiles staleFiles directory = []) ∧
      ((render staleConfig).perform ⟨staleFiles, []⟩).1.isOk = true ∧
      ((render staleConfig).perform ⟨staleFiles, []⟩).2.files.locate staleConfig.build.output =
        .ok ["o"] ∧
      ((render staleConfig).perform ⟨staleFiles, []⟩).2.files.content? ["o", "w"] =
        some "v".toUTF8 := by
  have noSource : ∀ directory ∈ staleConfig.sourceDirectories,
      keyedFiles staleFiles directory = [] := by
    simp only [Config.sourceDirectories, List.forall_mem_cons]
    refine ⟨?_, ?_, ?_, by simp⟩ <;> cbv
  have notThere : staleFiles.isThere staleConfig.build.output = false := by cbv
  have cleared (log : List LogLine) : (clear staleConfig.build.output).perform ⟨staleFiles, log⟩ =
      (.ok (), ⟨staleFiles.put ["b"] .directory, log⟩) := by
    rw [clear, Task.perform_bind, Task.perform_files]
    dsimp only
    rw [if_neg (by simp [notThere]), Task.perform_attempt, makeDirectories_stale]
  have isOk : ((render staleConfig).perform ⟨staleFiles, []⟩).1.isOk = true := by
    simp only [render, Task.perform_bind, Task.perform_tell, Workspace.tell, cleared]
    cbv
  have made : ((render staleConfig).perform ⟨staleFiles, []⟩).2.files =
      staleFiles.put ["b"] .directory := by
    simp only [render, Task.perform_bind, Task.perform_tell, Workspace.tell, cleared]
    cbv
  rw [made]
  refine ⟨notThere, noSource, isOk, ?_, rfl⟩
  cbv

end Site
end StaticSite
