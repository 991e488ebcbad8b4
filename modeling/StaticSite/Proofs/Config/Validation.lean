import Mathlib
import StaticSite.Config.Loading
import StaticSite.Proofs.Site.Clearing

/-!
# Settings that were checked

Settings that were loaded and checked do not let the output directory hold a source directory whose
setting is written without `..`, so that clearing the output directory leaves that source directory
alone.  For settings with `..` this is not so: input and output are normalized, but what is joined
to them is not, and components are compared as they are written.
-/

namespace StaticSite

namespace Path

variable {path other : Path}

theorem text_ne_of_isAbsolute (absolute : path.isAbsolute = true) : path.text ≠ "" := by
  intro isEmpty
  obtain ⟨rest, nonempty, segments⟩ := isAbsolute_iff.mp absolute
  rw [Path.segments, isEmpty] at segments
  exact nonempty (List.cons.inj segments).2.symm

/-- What is joined to an absolute path stays absolute. -/
theorem isAbsolute_join_of_isAbsolute (absolute : path.isAbsolute = true) :
    (path.join other).isAbsolute = true := by
  cases relative : other.isAbsolute with
  | true => rwa [join, relative, Bool.true_or, if_pos rfl]
  | false => rwa [isAbsolute_join (text_ne_of_isAbsolute absolute) relative]

/-- A plain absolute path starts with another if the names of the other come first. -/
theorem startsWith_of_prefix (plain : path.IsPlain) (absolute : path.isAbsolute = true)
    (otherPlain : other.IsPlain) (otherAbsolute : other.isAbsolute = true)
    (names : other.names <+: path.names) : path.startsWith other = true := by
  rw [startsWith, components_eq plain absolute, components_eq otherPlain otherAbsolute,
    List.isPrefixOf_iff_prefix]
  exact (List.prefix_cons_inj _).mpr (names.map _)

end Path

namespace FileTree

variable {tree : FileTree} {here there : Place} {path other : Path}

/-- One segment leads from proper names to proper names. -/
theorem isName_of_follow {segment : String} (noSlash : '/' ∉ segment.toList)
    (named : ∀ name ∈ here, IsName name) (followed : tree.follow here segment = .ok there) :
    ∀ name ∈ there, IsName name := by
  obtain ⟨-, ⟨-, rfl⟩ | ⟨-, rfl⟩ | ⟨noParent, step, -, -, rfl⟩⟩ := follow_cases followed
  · exact named
  · exact fun name member => named name (List.dropLast_subset _ member)
  · obtain ⟨notEmpty, notCurrent⟩ := Path.isStep_iff.mp step
    intro name member
    rcases List.mem_append.mp member with before | isLast
    · exact named name before
    · obtain rfl := List.mem_singleton.mp isLast
      exact ⟨notEmpty, notCurrent, noParent, noSlash⟩

/-- An absolute path leads to a place with proper names. -/
theorem isName_of_locate (absolute : path.isAbsolute = true)
    (located : tree.locate path = .ok there) : ∀ name ∈ there, IsName name := by
  have onward (segments : List String) (noSlash : ∀ segment ∈ segments, '/' ∉ segment.toList)
      (here : Place) (named : ∀ name ∈ here, IsName name)
      (followed : segments.foldlM tree.follow here = .ok there) : ∀ name ∈ there, IsName name := by
    induction segments generalizing here with
    | nil => exact Except.ok.inj followed ▸ named
    | cons segment rest induction =>
        obtain ⟨first, others⟩ := List.forall_mem_cons.mp noSlash
        rw [List.foldlM_cons, Except.bind_eq_ok_iff] at followed
        obtain ⟨next, isNext, followed⟩ := followed
        exact induction others next (isName_of_follow first named isNext) followed
  have followed := (locate_eq_ok_iff.mp located).2
  rw [followAll, if_pos absolute] at followed
  exact onward _ (fun _ => Path.slash_not_mem) [] (by simp) followed

theorem isAbsolute_normalize (tree : FileTree) (path : Path) :
    (tree.normalize path).isAbsolute = true := by
  rw [normalize]
  split
  · exact Place.isAbsolute_toPath _
  · exact Path.isAbsolute_join_of_isAbsolute (Place.isAbsolute_toPath _)

/-- What a path is normalized to is plain if it leads anywhere. -/
theorem isPlain_normalize (absolute : path.isAbsolute = true)
    (located : tree.locate (tree.normalize path) = .ok there) : (tree.normalize path).IsPlain := by
  rw [normalize] at located ⊢
  split at located
  · next place isPlace => exact Place.isPlain_toPath (isName_of_locate absolute isPlace)
  · next fault missed =>
    rw [Path.join, absolute, Bool.true_or, if_pos rfl, missed] at located
    contradiction

/-- What is joined to a normalized path is plain if it leads anywhere and nothing but plain segments
are joined. -/
theorem isPlain_join_normalize (absolute : path.isAbsolute = true) (plain : other.IsPlain)
    (located : tree.locate ((tree.normalize path).join other) = .ok there) :
    ((tree.normalize path).join other).IsPlain := by
  cases relative : other.isAbsolute with
  | true => rwa [Path.join, relative, Bool.true_or, if_pos rfl]
  | false =>
      -- the directory is there, for something below it is
      have isText := Path.text_ne_of_isAbsolute (tree.isAbsolute_normalize path)
      obtain ⟨place, isThere⟩ := exists_locate_of_join isText relative located
      exact Path.isPlain_join (isPlain_normalize absolute isThere) plain isText relative

end FileTree

namespace Config

/-- The settings that name the source directories. -/
def sourceSettings (config : Config) : List Path :=
  [config.build.pages, config.build.templates, config.build.assets]

/-- Input and output are normalized when settings are loaded. -/
theorem exists_normalize_of_load {line : CommandLine} {files : FileTree} {config : Config}
    (loaded : load line files = .ok config) :
    ∃ input output : Path, input.isAbsolute = true ∧ output.isAbsolute = true ∧
      config.build.input = files.normalize input ∧
      config.build.output = files.normalize output := by
  obtain ⟨base, rfl⟩ : ∃ base : Config, config = base.overriddenBy line files := by
    unfold load at loaded
    dsimp only at loaded
    split at loaded
    · simp only [Except.bind_eq_ok_iff] at loaded
      obtain ⟨given, -, base, -, overridden⟩ := loaded
      exact ⟨base, (Except.ok.inj overridden).symm⟩
    · exact ⟨_, (Except.ok.inj loaded).symm⟩
  have absolute (path : Path) :
      ((files.normalize line.rootDirectory).join path).isAbsolute = true :=
    Path.isAbsolute_join_of_isAbsolute (files.isAbsolute_normalize _)
  exact ⟨_, _, absolute _, absolute _, rfl, rfl⟩

/-- No source directory has the output directory in front of it. -/
theorem startsWith_eq_false_of_validate {line : CommandLine} {config : Config}
    (valid : config.validate line = .ok ()) {setting : Path}
    (isSetting : setting ∈ config.sourceSettings) :
    (config.build.input.join setting).startsWith config.build.output = false := by
  rw [validate] at valid
  split at valid
  · contradiction
  · next noneHeld =>
    rw [List.find?_eq_none] at noneHeld
    rw [← Bool.not_eq_true]
    simp only [sourceSettings, List.mem_cons, List.not_mem_nil, or_false] at isSetting
    rcases isSetting with rfl | rfl | rfl
    · exact noneHeld ("[build.pages]", config.pagesDirectory) (by simp [namedSources])
    · exact noneHeld ("[build.templates]", config.templatesDirectory) (by simp [namedSources])
    · exact noneHeld ("[build.assets]", config.assetsDirectory) (by simp [namedSources])

/-- Clearing the output directory of settings that were loaded and checked leaves every source
directory alone whose setting is written without `..`: it is not in the output directory.  File trees
have no symbolic links, and this rests on it: by a link a setting without `..` can lead into the
output directory as well. -/
theorem sources_kept {line : CommandLine} {files : FileTree} {config : Config}
    (loaded : load line files = .ok config) (valid : config.validate line = .ok ())
    {setting : Path} (isSetting : setting ∈ config.sourceSettings) (plain : setting.IsPlain)
    {place : Place} (leads : files.locate (config.build.input.join setting) = .ok place) :
    (∀ output, files.locate config.build.output = .ok output → ¬ output <+: place) ∧
      ∀ log, ((Site.clear config.build.output).perform ⟨files, log⟩).2.files.entry? place =
        files.entry? place := by
  obtain ⟨input, output, inputAbsolute, outputAbsolute, isInput, isOutput⟩ :=
    exists_normalize_of_load loaded
  have starts := startsWith_eq_false_of_validate valid isSetting
  rw [isInput] at leads starts
  rw [isOutput] at starts ⊢
  have sourcePlain := FileTree.isPlain_join_normalize inputAbsolute plain leads
  have sourceAbsolute : ((files.normalize input).join setting).isAbsolute = true :=
    Path.isAbsolute_join_of_isAbsolute (files.isAbsolute_normalize input)
  have apart (cleared : Place) (located : files.locate (files.normalize output) = .ok cleared) :
      ¬ cleared <+: place := by
    intro within
    have clearedPlain := FileTree.isPlain_normalize outputAbsolute located
    have clearedAbsolute := files.isAbsolute_normalize output
    rw [FileTree.eq_placeOf_of_locate sourcePlain leads,
      FileTree.eq_placeOf_of_locate clearedPlain located, FileTree.placeOf, FileTree.placeOf,
      FileTree.startOf, FileTree.startOf, sourceAbsolute, clearedAbsolute] at within
    have held := Path.startsWith_of_prefix sourcePlain sourceAbsolute clearedPlain
      clearedAbsolute within
    rw [starts] at held
    contradiction
  refine ⟨apart, fun log => ?_⟩
  have isThere := FileTree.isSome_of_locate sourcePlain leads
  obtain ⟨entry, stands⟩ := Option.isSome_iff_exists.mp isThere
  rw [stands]
  exact (Site.gives_clear_keeps apart stands).always log

/-- Files of a site with settings that name the pages with a detour. -/
def detourFiles : FileTree :=
  ⟨[(["site"], .directory),
    (["site", "weft.toml"], .file "[build]\npages = \"assets/../out\"\n".toUTF8),
    (["site", "assets"], .directory),
    (["site", "out"], .directory),
    (["site", "out", "index.html"], .file "index".toUTF8)], ["site"]⟩

/-- The command to render the site in the current directory. -/
def buildLine : CommandLine := ⟨none, ⟨"weft.toml"⟩, none, none, .build⟩

/-- The settings of that site. -/
def detourConfig : Config where
  file := some ⟨"/site/weft.toml"⟩
  build := { input := ⟨"/site"⟩, output := ⟨"/site/out"⟩, pages := ⟨"assets/../out"⟩ }

theorem load_detourConfig : load buildLine detourFiles = .ok detourConfig := by cbv

theorem validate_detourConfig : detourConfig.validate buildLine = .ok () := by
  have isOk : (detourConfig.validate buildLine).isOk = true := by decide +kernel
  obtain ⟨_, valid⟩ := Except.exists_of_isOk isOk
  exact valid

/-- Its assets are named without a detour, and are kept. -/
theorem sources_kept_assets :
    (∀ output, detourFiles.locate detourConfig.build.output = .ok output →
      ¬ output <+: ["site", "assets"]) ∧
      ∀ log, ((Site.clear detourConfig.build.output).perform ⟨detourFiles, log⟩).2.files.entry?
        ["site", "assets"] = some .directory := by
  have isSetting : ⟨"assets"⟩ ∈ detourConfig.sourceSettings := by decide
  have leads : detourFiles.locate (detourConfig.build.input.join ⟨"assets"⟩) =
      .ok ["site", "assets"] := by cbv
  exact sources_kept load_detourConfig validate_detourConfig isSetting (by decide) leads

/-- The pages lie in the output directory, and clearing it deletes them. -/
theorem sources_lost :
    load buildLine detourFiles = .ok detourConfig ∧ detourConfig.validate buildLine = .ok () ∧
      detourFiles.locate detourConfig.pagesDirectory = .ok ["site", "out"] ∧
      detourFiles.locate detourConfig.build.output = .ok ["site", "out"] ∧
      (detourFiles.entry? ["site", "out", "index.html"]).isSome ∧
      ∀ log, ((Site.clear detourConfig.build.output).perform ⟨detourFiles, log⟩).2.files.entry?
        ["site", "out", "index.html"] = none := by
  have pages : detourConfig.pagesDirectory = ⟨"/site/assets/../out"⟩ := by decide +kernel
  have segments : (⟨"/site/assets/../out"⟩ : Path).segments =
      ["", "site", "assets", "..", "out"] := by cbv
  have absolute : (⟨"/site/assets/../out"⟩ : Path).isAbsolute = true := by cbv
  have isPages : detourFiles.locate detourConfig.pagesDirectory = .ok ["site", "out"] := by
    rw [pages, FileTree.locate_eq_ok_iff, FileTree.check_eq_ok_iff, FileTree.followAll, segments,
      absolute]
    exact ⟨by decide, rfl⟩
  have isOutput : detourFiles.locate detourConfig.build.output = .ok ["site", "out"] := by cbv
  refine ⟨load_detourConfig, validate_detourConfig, isPages, isOutput, by decide, fun log => ?_⟩
  have place : detourFiles.placeOf detourConfig.build.output = ["site", "out"] := by cbv
  have plain : detourConfig.build.output.IsPlain := by decide
  refine (Site.gives_clear_removes plain ?_ ?_ ?_ ?_).always log
  · rw [place, isOutput]
  · rw [place]
    rfl
  · rw [place]
    decide
  · rw [place]
    decide

end Config
end StaticSite
