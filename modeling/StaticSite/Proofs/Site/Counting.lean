import StaticSite.Proofs.Config.Validation
import StaticSite.Proofs.Site.Output

/-!
# How many files a rendering leaves

A rendering that succeeds tells how many pages it has rendered and how many assets it has copied.
The output directory holds a file for each of them, but a page and an asset with the same key have
one file between them, so that the text of the page is lost.

This holds for every output path that is found, or whose destination has no files.  A path that is
found only once the directories on its way were made leads to what was there before, and these files
are kept as well.
-/

namespace StaticSite
namespace FileTree

open Site (keyOf mem_filesBelow_iff_mem_entries)

variable {files later last : FileTree} {place below : Place} {keys : List String}
  {fresh : Place → Prop}

/-! ## Files below a place -/

theorem Grows.filesBelow_eq (grows : files.Grows later fresh) (place : Place) :
    later.filesBelow place = files.filesBelow place := by
  obtain ⟨new, entries, isNew⟩ := grows.exists_new
  rw [filesBelow, filesBelow, entries, List.filterMap_append]
  refine congrArg (List.mergeSort · Place.isBefore) (List.append_left_eq_self.mpr ?_)
  refine List.filterMap_eq_nil_iff.mpr fun entry member => ?_
  simp [(isNew entry member).1]

theorem filesBelow_without (files : FileTree) (place : Place) :
    filesBelow (files.without place) place = [] := by
  refine List.eq_nil_iff_forall_not_mem.mpr fun below member => ?_
  obtain ⟨content, listed⟩ := mem_filesBelow_iff_mem_entries.mp member
  have outside := (List.mem_filter.mp listed).2
  rw [List.isPrefixOf_iff_prefix.mpr (List.prefix_append place below)] at outside
  contradiction

theorem content?_without {other : Place} (outside : ¬ place <+: other) :
    content? (files.without place) other = files.content? other := by
  by_cases isRoot : other = []
  · rw [isRoot, content?, content?, entry?_nil, entry?_nil]
  · rw [content?, content?, entry?_without _ isRoot, if_neg (by simpa using outside)]

theorem mem_filesBelow_put {content : ByteArray} {other : Place} :
    other ∈ filesBelow (files.put (place ++ below) (.file content)) place ↔
      other = below ∨ other ∈ files.filesBelow place := by
  simp only [mem_filesBelow_iff_mem_entries, put, List.mem_cons, List.mem_filter, Prod.mk.injEq,
    List.append_cancel_left_eq, Entry.file.injEq, bne_iff_ne, ne_eq]
  by_cases same : other = below
  · simp [same]
  · simp [same]

/-! ## What is stored -/

/-- Whether files have become others by what was stored in a directory: the files below it have
certain keys, and no file elsewhere was changed. -/
structure Stores (files : FileTree) (place : Place) (keys : List String) (later : FileTree) :
    Prop where
  wellFormed : later.WellFormed
  current_eq : later.current = files.current
  isDirectory : later.entry? place = some .directory
  notItself : [] ∉ later.filesBelow place
  mem_keys_iff : ∀ key, key ∈ (later.filesBelow place).map keyOf ↔ key ∈ keys
  elsewhere : ∀ other, ¬ place <+: other → later.content? other = files.content? other

namespace Stores

theorem grows (stores : files.Stores place keys later) (grows : later.Grows last fresh)
    (wellFormed : last.WellFormed) : files.Stores place keys last where
  wellFormed := wellFormed
  current_eq := grows.current_eq.trans stores.current_eq
  isDirectory := grows.entry?_of_some stores.isDirectory
  notItself := by
    rw [grows.filesBelow_eq]
    exact stores.notItself
  mem_keys_iff := by
    rw [grows.filesBelow_eq]
    exact stores.mem_keys_iff
  elsewhere other outside := (grows.content?_eq other).trans (stores.elsewhere other outside)

/-- A file at a key, be it a new one or not. -/
theorem put {content : ByteArray} (stores : files.Stores place keys later) (nonempty : below ≠ [])
    (wellFormed : (later.put (place ++ below) (.file content)).WellFormed) :
    files.Stores place (keys ++ [keyOf below]) (later.put (place ++ below) (.file content)) where
  wellFormed := wellFormed
  current_eq := stores.current_eq
  isDirectory := by
    rw [entry?_put_of_ne _ (by simpa using nonempty), stores.isDirectory]
  notItself member := by
    rcases mem_filesBelow_put.mp member with isBelow | member
    · exact nonempty isBelow.symm
    · exact stores.notItself member
  mem_keys_iff key := by
    rw [List.mem_append, List.mem_singleton, ← stores.mem_keys_iff key]
    simp only [List.mem_map, mem_filesBelow_put, or_and_right, exists_or, exists_eq_left]
    rw [or_comm, eq_comm]
  elsewhere other outside := by
    have differs : other ≠ place ++ below := by
      rintro rfl
      exact outside (List.prefix_append _ _)
    rw [content?, entry?_put_of_ne _ differs, ← content?, stores.elsewhere other outside]

end Stores
end FileTree

namespace Site

open FileTree

variable {files later : FileTree} {config : Config} {output directory : Path} {place below : Place}
  {keys : List String}

/-! ## Sources elsewhere -/

/-- A source of a directory elsewhere is one of the other tree if no file elsewhere differs. -/
theorem IsSource.transfer {other : FileTree} {content : ByteArray}
    (source : IsSource files directory below content) (wellFormed : other.WellFormed)
    (current_eq : other.current = files.current)
    (same : ∀ there, ¬ place <+: there → other.content? there = files.content? there)
    (plain : directory.IsPlain) (apart : place.IsApart (files.placeOf directory)) :
    IsSource other directory below content := by
  obtain ⟨there, located, nonempty, seen, stands⟩ := source
  have permits := permits_of_locate plain located
  obtain rfl := eq_placeOf_of_locate plain located
  have outside := (apart.below (List.prefix_append _ below)).1
  have stays : other.entry? (files.placeOf directory ++ below) = some (.file content) := by
    rw [← content?_eq_some_iff, same _ outside, content?_eq_some_iff, stands]
  have above := wellFormed.entry?_of_prefix (Option.isSome_of_eq_some stays)
    (List.prefix_append _ below) (by simpa using nonempty)
  rw [← placeOf_congr current_eq] at stays above
  exact ⟨_, wellFormed.locate_of_isDirectory plain permits above, nonempty, seen, stays⟩

/-- What is found in a source directory elsewhere is the same. -/
theorem keyedFiles_perm (wellFormed : files.WellFormed) (stores : files.Stores place keys later)
    (plain : directory.IsPlain) (apart : place.IsApart (files.placeOf directory)) :
    (keyedFiles later directory).Perm (keyedFiles files directory) := by
  have isSource (below : Place) (content : ByteArray) :
      IsSource later directory below content ↔ IsSource files directory below content := by
    constructor
    · intro source
      refine source.transfer wellFormed stores.current_eq.symm
        (fun there outside => (stores.elsewhere there outside).symm) plain ?_
      rwa [placeOf_congr stores.current_eq]
    · exact fun source => source.transfer stores.wellFormed stores.current_eq stores.elsewhere
        plain apart
  rw [List.perm_ext_iff_of_nodup (nodup_keys stores.wellFormed directory).of_map
    (nodup_keys wellFormed directory).of_map]
  intro entry
  simp only [mem_keyedFiles_iff stores.wellFormed, mem_keyedFiles_iff wellFormed, isSource]

/-! ## Storing file by file -/

/-- Clearing leaves a directory without files. -/
theorem gives_clear_stores (wellFormed : files.WellFormed) (isText : output.text ≠ "")
    (free : files.isThere output = true ∨ files.filesBelow (files.destination output) = []) :
    (clear output).Gives files
      (fun _ later => files.Stores (files.destination output) [] later) fun _ _ => True := by
  refine gives_clear (fun emptied origin => ?_) fun _ _ => trivial
  obtain ⟨emptiedFormed, current_eq, none, elsewhere⟩ : emptied.WellFormed ∧
      emptied.current = files.current ∧ emptied.filesBelow (files.destination output) = [] ∧
      ∀ other, ¬ files.destination output <+: other →
        emptied.content? other = files.content? other := by
    rcases origin with ⟨rfl, notThere⟩ | ⟨there, located, rfl⟩
    · exact ⟨wellFormed, rfl, free.resolve_left (by simp [notThere]), fun _ _ => rfl⟩
    · obtain rfl := eq_destination_of_locate located
      exact ⟨wellFormed.without _, rfl, filesBelow_without files _, fun _ => content?_without⟩
  have grows := emptied.makeDirectories_keeps output
  refine .attempt (fun done => ?_) fun _ _ => trivial
  have isDirectory := makeDirectories_isDirectory isText done
  rw [destination_congr current_eq] at isDirectory
  refine ⟨emptiedFormed.makeDirectories output, grows.current_eq.trans current_eq, isDirectory,
    ?_, ?_, fun other outside => (grows.content?_eq other).trans (elsewhere other outside)⟩
  · simp [grows.filesBelow_eq, none]
  · simp [grows.filesBelow_eq, none]

/-- Making room for a file makes directories only. -/
theorem gives_makeRoom_stores (target : Path) (stores : files.Stores place keys later) :
    (makeRoom target).Gives later (fun _ last => files.Stores place keys last) fun _ _ => True := by
  rw [makeRoom]
  split
  · exact .pure stores
  · next directory _ =>
    refine .attempt (fun _ => ?_) fun _ _ => trivial
    exact stores.grows (later.makeDirectories_keeps directory)
      (stores.wellFormed.makeDirectories directory)

section

variable (isText : output.text ≠ "") (proper : ∀ name ∈ below, IsName name)
  (nonempty : below ≠ []) (stores : files.Stores (files.destination output) keys later)
include isText proper nonempty stores

/-- What puts a file at the destination of a key stores a file with that key. -/
theorem gives_store {act : FileTree → Except FileFault FileTree} {wrap : FileFault → SiteError}
    (puts : ∀ tree last : FileTree, act tree = .ok last →
      (tree.WellFormed → last.WellFormed) ∧ ∃ content,
        last = tree.put (tree.destination (output.join ⟨keyOf below⟩)) (.file content)) :
    (makeRoom (output.join ⟨keyOf below⟩) >>= fun _ => Task.change act wrap).Gives later
      (fun _ last => files.Stores (files.destination output) (keys ++ [keyOf below]) last)
      fun _ _ => True := by
  refine (gives_makeRoom_stores _ stores).bind fun _ ready stores => ?_
  refine .change (fun last acted => ?_) fun _ _ => trivial
  obtain ⟨staysFormed, content, rfl⟩ := puts ready last acted
  have lastFormed := staysFormed stores.wellFormed
  rw [destination_join isText proper nonempty, destination_congr stores.current_eq]
    at lastFormed ⊢
  exact stores.put nonempty lastFormed

theorem gives_writePage_stores (text : String) :
    (writePage output (keyOf below) text).Gives later
      (fun _ last => files.Stores (files.destination output) (keys ++ [keyOf below]) last)
      fun _ _ => True := by
  refine .tell_then (gives_store isText proper nonempty stores fun tree last written => ?_)
  exact ⟨fun treeFormed => treeFormed.write written, _, (write_eq_ok written).1⟩

theorem gives_copyAsset_stores (source : Path) :
    (copyAsset output (keyOf below) source).Gives later
      (fun _ last => files.Stores (files.destination output) (keys ++ [keyOf below]) last)
      fun _ _ => True := by
  refine gives_store isText proper nonempty stores fun tree last copied => ?_
  obtain ⟨-, content, -, -, isLast⟩ := copy_eq_ok copied
  exact ⟨fun treeFormed => treeFormed.copy copied, content, isLast⟩

end

/-- Whether a key is made of names. -/
def IsKey (key : String) : Prop :=
  ∃ below, below ≠ [] ∧ (∀ name ∈ below, IsName name) ∧ key = keyOf below

theorem isKey_of_mem_keyedFiles (wellFormed : files.WellFormed) {entry : String × Path}
    (member : entry ∈ keyedFiles files directory) : IsKey entry.1 := by
  obtain ⟨below, content, source, rfl⟩ := (mem_keyedFiles_iff wellFormed).mp member
  exact ⟨below, source.nonempty, source.proper wellFormed, rfl⟩

/-- Where each item stores a file at its key, all of them together store files at these keys. -/
theorem gives_storeAll {α : Type} (act : String → α → Task Unit) {items : List (String × α)}
    (areKeys : ∀ item ∈ items, IsKey item.1) (stores : files.Stores place keys later)
    (step : ∀ below value, below ≠ [] → (∀ name ∈ below, IsName name) → ∀ keys later,
      files.Stores place keys later → (act (keyOf below) value).Gives later
        (fun _ last => files.Stores place (keys ++ [keyOf below]) last) fun _ _ => True) :
    (items.forM fun (key, value) => act key value).Gives later
      (fun _ last => files.Stores place (keys ++ items.map Prod.fst) last) fun _ _ => True := by
  refine @Task.Gives.forM _ _ _ _
    (fun before last => files.Stores place (keys ++ before.map Prod.fst) last) items ?_ ?_
  · simpa using stores
  · rintro before ⟨key, value⟩ after whole later stores
    obtain ⟨below, nonempty, proper, rfl⟩ := areKeys (key, value) (by simp [whole])
    simpa using step below value nonempty proper _ later stores

/-! ## The whole rendering -/

/-- The stages of a rendering that succeeds: the output directory is cleared, all pages are rendered
from the sources that are there then, their texts are written, and the assets that are there by then
are copied. -/
structure Stages (config : Config) (files cleared : FileTree) (texts : List (String × String))
    (written last : FileTree) (report : Report) : Prop where
  clears : (clear config.build.output).Turns files cleared
  renders : ∃ graph resolved pages, register config cleared = .ok graph ∧
    graph.resolvePages cleared = (resolved, .ok pages) ∧
    (renderEach resolved cleared pages).2 = .ok texts
  writes : (texts.forM fun (key, text) => writePage config.build.output key text).Turns
    cleared written
  copies : ((keyedFiles written config.assetsDirectory).forM fun (key, source) =>
    copyAsset config.build.output key source).Turns written last
  pages : report.pages = texts.length
  assets : report.assets = (keyedFiles written config.assetsDirectory).length

/-- How all pages are baked: sources are registered on a graph, the pages are decoded, and one after
the other is baked on the graph that is left. -/
structure BakesPages (config : Config) (sources : FileTree) (graph resolved : Graph)
    (pages : List Page) (baked : Graph) (texts : List (String × String)) : Prop where
  registers : register config sources = .ok graph
  resolves : graph.resolvePages sources = (resolved, .ok pages)
  bakes : renderEach resolved sources pages = (baked, .ok texts)

/-- A rendering that succeeds goes through all stages, and reports as unused what the graph does
that is left by the pages. -/
theorem gives_stages_unused (config : Config) (files : FileTree) :
    (render config).Gives files
      (fun report last => ∃ cleared texts written,
        Stages config files cleared texts written last report ∧
          ∃ graph resolved pages baked, BakesPages config cleared graph resolved pages baked texts ∧
            report.unused = baked.unused.map Prod.fst) fun _ _ => True := by
  unfold render
  dsimp only
  refine .tell_then (.bind (.turns _ files) ?_)
  intro _ cleared clears
  refine .files_then (.ofExcept_then (fun graph registered => ?_) fun _ _ => trivial)
  refine .tell_then ?_
  cases given : graph.resolvePages cleared with
  | mk resolved result =>
      refine .ofExcept_then (fun pages isPages => .tell_then ?_) fun _ _ => trivial
      obtain rfl : result = .ok pages := isPages
      cases rendering : renderEach resolved cleared pages with
      | mk rendered result =>
          refine .ofExcept_then (fun texts areTexts => ?_) fun _ _ => trivial
          obtain rfl : result = .ok texts := areTexts
          refine .bind (.turns _ cleared) fun _ written writes => ?_
          refine .files_then (.tell_then (.bind (.turns _ written) fun _ last copies => ?_))
          have stages (unused : List String) : Stages config files cleared texts written last
              ⟨texts.length, (keyedFiles written config.assetsDirectory).length, unused⟩ :=
            ⟨clears, ⟨graph, resolved, pages, registered, given, congrArg Prod.snd rendering⟩,
              writes, copies, rfl, rfl⟩
          have bakes : ∃ graph resolved pages baked,
              BakesPages config cleared graph resolved pages baked texts ∧
                rendered.unused.map Prod.fst = baked.unused.map Prod.fst :=
            ⟨graph, resolved, pages, rendered, ⟨registered, given, rendering⟩, rfl⟩
          split
          · refine (gives_tellUnused rendered.unused).bind ?_
            rintro _ _ rfl
            exact .tell_then (.pure ⟨cleared, texts, written, stages _, bakes⟩)
          · exact .tell_then (.pure ⟨cleared, texts, written, stages _, bakes⟩)

theorem gives_stages (config : Config) (files : FileTree) :
    (render config).Gives files
      (fun report last => ∃ cleared texts written,
        Stages config files cleared texts written last report) fun _ _ => True :=
  (gives_stages_unused config files).mono
    (fun _ _ ⟨cleared, texts, written, stages, _⟩ => ⟨cleared, texts, written, stages⟩)
    fun _ _ => id

namespace Stages

variable {cleared written last : FileTree} {texts : List (String × String)} {report : Report}
  (stages : Stages config files cleared texts written last report)
include stages

/-- There is a text for every page, and no other. -/
theorem perm_keys :
    (texts.map Prod.fst).Perm ((keyedFiles cleared config.pagesDirectory).map Prod.fst) := by
  obtain ⟨graph, resolved, pages, registered, given, rendered⟩ := stages.renders
  have keys := (of_renderEach registered given rendered).1
  rwa [eq_of_register registered] at keys

variable (isText : config.build.output.text ≠ "")
include isText

theorem stores_written
    (stores : files.Stores (files.destination config.build.output) [] cleared) :
    files.Stores (files.destination config.build.output) (texts.map Prod.fst) written := by
  have areKeys (entry : String × String) (member : entry ∈ texts) : IsKey entry.1 := by
    obtain ⟨source, isSource, same⟩ :=
      List.mem_map.mp (stages.perm_keys.mem_iff.mp (List.mem_map_of_mem member))
    exact same ▸ isKey_of_mem_keyedFiles stores.wellFormed isSource
  have all := gives_storeAll (writePage config.build.output) areKeys stores
    fun below text nonempty proper keys later stores =>
      gives_writePage_stores isText proper nonempty stores text
  exact all.done_of_turns stages.writes

theorem stores_last
    (stores : files.Stores (files.destination config.build.output) keys written) :
    files.Stores (files.destination config.build.output)
      (keys ++ (keyedFiles written config.assetsDirectory).map Prod.fst) last := by
  have areKeys (entry : String × Path)
      (member : entry ∈ keyedFiles written config.assetsDirectory) : IsKey entry.1 :=
    isKey_of_mem_keyedFiles stores.wellFormed member
  have all := gives_storeAll (copyAsset config.build.output) areKeys stores
    fun below source nonempty proper keys later stores =>
      gives_copyAsset_stores isText proper nonempty stores source
  exact all.done_of_turns stages.copies

end Stages

theorem text_ne_of_validate {line : CommandLine} (valid : config.validate line = .ok ()) :
    config.build.output.text ≠ "" := by
  intro noText
  have isEmpty : config.build.output = ⟨""⟩ := congrArg Path.mk noText
  have noComponent : (⟨""⟩ : Path).components = [] := by decide
  simp [Config.validate, Config.namedSources, Path.startsWith, isEmpty, noComponent] at valid

theorem length_union_add_length_inter {pages assets : List String} (pagesDistinct : pages.Nodup)
    (assetsDistinct : assets.Nodup) :
    (pages ∪ assets).length + (pages ∩ assets).length = pages.length + assets.length := by
  have card := Finset.card_union_add_card_inter pages.toFinset assets.toFinset
  rwa [← List.toFinset_union, ← List.toFinset_inter,
    List.toFinset_card_of_nodup (assetsDistinct.union pages),
    List.toFinset_card_of_nodup (pagesDistinct.inter assets),
    List.toFinset_card_of_nodup pagesDistinct, List.toFinset_card_of_nodup assetsDistinct] at card

/-- A rendering that succeeds leaves a file at the key of every page and of every asset, and no
other file.  There are as many as it tells to have rendered and copied, less one for every key of a
page that is also the key of an asset.  What is found in a source directory elsewhere is the same
all the time.

The output path has to be found beforehand, or its destination must have no files: otherwise these
would not be cleared. -/
theorem render_counts (wellFormed : files.WellFormed) {line : CommandLine}
    (valid : config.validate line = .ok ())
    (free : files.isThere config.build.output = true ∨
      files.filesBelow (files.destination config.build.output) = [])
    {log : List LogLine} {report : Report} {last : Workspace}
    (performed : (render config).perform ⟨files, log⟩ = (.ok report, last)) :
    let place := files.destination config.build.output
    ∃ cleared texts written, Stages config files cleared texts written last.files report ∧
      (∀ directory : Path, directory.IsPlain → place.IsApart (files.placeOf directory) →
        (keyedFiles cleared directory).Perm (keyedFiles files directory) ∧
          (keyedFiles written directory).Perm (keyedFiles files directory)) ∧
      let pages := (keyedFiles cleared config.pagesDirectory).map Prod.fst
      let assets := (keyedFiles written config.assetsDirectory).map Prod.fst
      report.pages = pages.length ∧ report.assets = assets.length ∧
        last.files.entry? place = some .directory ∧
        ((last.files.filesBelow place).map keyOf).Perm (pages ∪ assets) ∧
        (last.files.filesBelow place).length + (pages ∩ assets).length =
          report.pages + report.assets := by
  intro place
  have isText := text_ne_of_validate valid
  obtain ⟨cleared, texts, written, stages⟩ : ∃ cleared texts written,
      Stages config files cleared texts written last.files report := by
    have given := (gives_stages config files).ended log
    rwa [performed] at given
  have isCleared := (gives_clear_stores wellFormed isText free).done_of_turns stages.clears
  have isWritten := stages.stores_written isText isCleared
  have isLast := stages.stores_last isText isWritten
  have textKeys := stages.perm_keys
  have pagesDistinct := nodup_keys isCleared.wellFormed config.pagesDirectory
  have assetsDistinct := nodup_keys isWritten.wellFormed config.assetsDirectory
  have isUnion : ((last.files.filesBelow place).map keyOf).Perm
      ((keyedFiles cleared config.pagesDirectory).map Prod.fst ∪
        (keyedFiles written config.assetsDirectory).map Prod.fst) := by
    have distinct := nodup_map_keyOf isLast.wellFormed (List.Sublist.refl _) isLast.notItself
    rw [List.perm_ext_iff_of_nodup distinct (assetsDistinct.union _)]
    intro key
    rw [isLast.mem_keys_iff, List.mem_append, List.mem_union_iff, textKeys.mem_iff]
  have pageCount : report.pages =
      ((keyedFiles cleared config.pagesDirectory).map Prod.fst).length := by
    rw [stages.pages, ← textKeys.length_eq, List.length_map]
  have assetCount : report.assets =
      ((keyedFiles written config.assetsDirectory).map Prod.fst).length := by
    rw [stages.assets, List.length_map]
  refine ⟨cleared, texts, written, stages, fun directory plain apart =>
    ⟨keyedFiles_perm wellFormed isCleared plain apart,
      keyedFiles_perm wellFormed isWritten plain apart⟩, pageCount, assetCount,
    isLast.isDirectory, isUnion, ?_⟩
  rw [pageCount, assetCount, ← length_union_add_length_inter pagesDistinct assetsDistinct,
    ← isUnion.length_eq, List.length_map]

theorem validate_small : smallConfig.validate Config.buildLine = .ok () := by
  have isOk : (smallConfig.validate Config.buildLine).isOk = true := by decide +kernel
  obtain ⟨_, valid⟩ := Except.exists_of_isOk isOk
  exact valid

/-- A page and an asset with different keys have two files. -/
theorem render_counts_small :
    ∃ report last, (render smallConfig).perform ⟨smallFiles, []⟩ = (.ok report, last) ∧
      report.pages = 1 ∧ report.assets = 1 ∧ (last.files.filesBelow ["o"]).length = 2 := by
  have wellFormed := separates_small.wellFormed
  have isThere : smallFiles.isThere smallConfig.build.output = true := by cbv
  have place : smallFiles.destination smallConfig.build.output = ["o"] := by cbv
  obtain ⟨report, isReport⟩ := Except.exists_of_isOk isOk_render_small
  have performed : (render smallConfig).perform ⟨smallFiles, []⟩ = (.ok report, _) :=
    Prod.ext isReport rfl
  obtain ⟨cleared, texts, written, -, steady, pageCount, assetCount, -, -, counts⟩ :=
    render_counts wellFormed validate_small (.inl isThere) performed
  rw [place] at steady counts
  have pages : (keyedFiles cleared smallConfig.pagesDirectory).map Prod.fst = ["x.htm"] := by
    have known : (keyedFiles smallFiles smallConfig.pagesDirectory).map Prod.fst = ["x.htm"] := by
      cbv
    have perm := (steady smallConfig.pagesDirectory (by decide +kernel) (by decide +kernel)).1
    exact List.perm_singleton.mp (known ▸ perm.map Prod.fst)
  have assets : (keyedFiles written smallConfig.assetsDirectory).map Prod.fst = ["y"] := by
    have known : (keyedFiles smallFiles smallConfig.assetsDirectory).map Prod.fst = ["y"] := by
      cbv
    have perm := (steady smallConfig.assetsDirectory (by decide +kernel) (by decide +kernel)).2
    exact List.perm_singleton.mp (known ▸ perm.map Prod.fst)
  rw [pages] at pageCount
  rw [assets] at assetCount
  rw [pages, assets, pageCount, assetCount] at counts
  exact ⟨report, _, performed, pageCount, assetCount, counts⟩

/-- Files of a site whose page has the name of an asset. -/
def sharedFiles : FileTree :=
  ⟨[(["o"], .directory),
    (["p"], .directory),
    (["p", "x.htm"], .file "Hi".toUTF8),
    (["a"], .directory),
    (["a", "x.htm"], .file "z".toUTF8)], []⟩

/-- The files when the page was rendered and the asset copied. -/
def sharedLast : FileTree :=
  ⟨(["o", "x.htm"], .file "z".toUTF8) :: sharedFiles.entries, []⟩

theorem perform_shared :
    ((render smallConfig).perform ⟨sharedFiles, []⟩).1 = .ok ⟨1, 1, []⟩ ∧
      ((render smallConfig).perform ⟨sharedFiles, []⟩).2.files = sharedLast := by
  have cleared (log : List LogLine) : (clear smallConfig.build.output).perform ⟨sharedFiles, log⟩ =
      (.ok (), ⟨sharedFiles, log⟩) := by
    cbv
  have registered : register smallConfig sharedFiles = .ok smallGraph.forgotten := by cbv
  have resolved : smallGraph.forgotten.resolvePages sharedFiles =
      (smallGraph, .ok [smallPage]) := by
    cbv
  simp only [render, Task.perform_bind, Task.perform_tell, Workspace.tell, cleared,
    Task.perform_files, registered, Task.perform_ofExcept_ok, resolved, renderEach_small]
  constructor <;> cbv

/-- A page and an asset with one key have one file, in which the asset is. -/
theorem render_overwrites :
    sharedFiles.WellFormed ∧ smallConfig.validate Config.buildLine = .ok () ∧
      (∀ directory ∈ smallConfig.sourceDirectories,
        Place.IsApart ["o"] (sharedFiles.placeOf directory)) ∧
      ∃ report last, (render smallConfig).perform ⟨sharedFiles, []⟩ = (.ok report, last) ∧
        report.pages = 1 ∧ report.assets = 1 ∧
        last.files.locate smallConfig.build.output = .ok ["o"] ∧
        last.files.filesBelow ["o"] = [["x.htm"]] ∧
        last.files.content? ["o", "x.htm"] = some "z".toUTF8 := by
  have wellFormed : sharedFiles.WellFormed := by
    refine ⟨by decide, by decide, fun entry member => ?_⟩
    simp only [sharedFiles, List.mem_cons, List.not_mem_nil, or_false] at member
    rcases member with rfl | rfl | rfl | rfl | rfl <;> rfl
  have apart : ∀ directory ∈ smallConfig.sourceDirectories,
      Place.IsApart ["o"] (sharedFiles.placeOf directory) := by
    simp only [Config.sourceDirectories, List.forall_mem_cons]
    refine ⟨?_, ?_, ?_, by simp⟩ <;> decide +kernel
  obtain ⟨isReport, isLast⟩ := perform_shared
  refine ⟨wellFormed, validate_small, apart, ⟨1, 1, []⟩, _, Prod.ext isReport rfl, rfl, rfl, ?_⟩
  rw [isLast]
  refine ⟨?_, ?_, rfl⟩
  · cbv
  · cbv

end Site
end StaticSite
