import StaticSite.Proofs.Files.Apart
import StaticSite.Proofs.Asset.Independence

/-!
# The sources of a site

The keys of a source directory are those of the files below it, each once.  Neither they nor what
is registered depend on anything around a place that the source directories are apart from.
-/

namespace StaticSite
namespace Site

open FileTree

variable {files later : FileTree} {output place below : Place} {directory : Path}

/-- Whether a file with some bytes is a source: it is below a source directory and not passed
over. -/
def IsSource (files : FileTree) (directory : Path) (below : Place) (content : ByteArray) : Prop :=
  ∃ place, files.locate directory = .ok place ∧ below ≠ [] ∧ isIgnored below = false ∧
    files.entry? (place ++ below) = some (.file content)

/-! ## Files and their keys -/

theorem below?_eq_some_iff {other : Place} :
    below? place other = some below ↔ other = place ++ below := by
  rw [below?]
  constructor
  · intro found
    split at found
    · next isBelow =>
      obtain ⟨suffix, rfl⟩ := List.isPrefixOf_iff_prefix.mp isBelow
      simpa using found
    · contradiction
  · rintro rfl
    simp

theorem mem_filesBelow_iff_mem_entries :
    below ∈ files.filesBelow place ↔
      ∃ content, (place ++ below, .file content) ∈ files.entries := by
  rw [filesBelow, List.mem_mergeSort, List.mem_filterMap]
  constructor
  · rintro ⟨⟨other, entry⟩, member, found⟩
    cases entry with
    | directory => contradiction
    | file content =>
        obtain rfl := below?_eq_some_iff.mp found
        exact ⟨content, member⟩
  · rintro ⟨content, member⟩
    exact ⟨_, member, below?_eq_some_iff.mpr rfl⟩

theorem mem_filesBelow_iff (wellFormed : files.WellFormed) (nonempty : below ≠ []) :
    below ∈ files.filesBelow place ↔
      ∃ content, files.entry? (place ++ below) = some (.file content) := by
  have isPlace : place ++ below ≠ [] := by simp [nonempty]
  rw [mem_filesBelow_iff_mem_entries]
  exact exists_congr fun content =>
    ⟨wellFormed.entry?_of_mem isPlace, mem_entries_of_eq_some isPlace⟩

theorem nodup_filesBelow (wellFormed : files.WellFormed) (place : Place) :
    (files.filesBelow place).Nodup := by
  rw [filesBelow, (List.mergeSort_perm _ _).nodup_iff, List.Nodup, List.pairwise_filterMap]
  have distinct := wellFormed.distinct
  rw [List.Nodup, List.pairwise_map] at distinct
  refine distinct.imp fun {first second} differs one isOne other isOther same => differs ?_
  obtain ⟨firstPlace, firstEntry⟩ := first
  obtain ⟨secondPlace, secondEntry⟩ := second
  cases firstEntry with
  | directory => contradiction
  | file content =>
      cases secondEntry with
      | directory => contradiction
      | file other => rw [below?_eq_some_iff.mp isOne, below?_eq_some_iff.mp isOther, same]

theorem IsSource.proper {content : ByteArray} (wellFormed : files.WellFormed)
    (source : IsSource files directory below content) : ∀ name ∈ below, IsName name := by
  obtain ⟨place, -, nonempty, -, stands⟩ := source
  have isPlace : place ++ below ≠ [] := by simp [nonempty]
  have named := wellFormed.named _ (mem_entries_of_eq_some isPlace stands)
  exact fun name member => named name (List.mem_append_right _ member)

theorem IsSource.nonempty {content : ByteArray} (source : IsSource files directory below content) :
    below ≠ [] := by
  obtain ⟨place, -, nonempty, -⟩ := source
  exact nonempty

/-- A source has one content. -/
theorem IsSource.content_eq {content other : ByteArray}
    (source : IsSource files directory below content)
    (same : IsSource files directory below other) : content = other := by
  obtain ⟨place, located, -, -, stands⟩ := source
  obtain ⟨samePlace, sameLocated, -, -, sameStands⟩ := same
  obtain rfl : place = samePlace := Except.ok.inj (located.symm.trans sameLocated)
  simpa [stands] using sameStands

/-- A key tells the names it was made of. -/
theorem names_keyOf (proper : ∀ name ∈ below, IsName name) (nonempty : below ≠ []) :
    (⟨keyOf below⟩ : Path).names = below := by
  rw [Path.names, keyOf, Path.segments_ofNames nonempty proper, Path.filter_isStep proper]

theorem keyOf_injective {other : Place} (proper : ∀ name ∈ below, IsName name)
    (nonempty : below ≠ []) (otherProper : ∀ name ∈ other, IsName name)
    (otherNonempty : other ≠ []) (same : keyOf below = keyOf other) : below = other := by
  rw [← names_keyOf proper nonempty, ← names_keyOf otherProper otherNonempty, same]

/-- Sources with the same key have the same names. -/
theorem IsSource.below_eq {other : Place} {otherDirectory : Path} {content otherContent : ByteArray}
    (wellFormed : files.WellFormed) (source : IsSource files directory below content)
    (otherSource : IsSource files otherDirectory other otherContent)
    (same : keyOf below = keyOf other) : below = other :=
  keyOf_injective (source.proper wellFormed) source.nonempty (otherSource.proper wellFormed)
    otherSource.nonempty same

theorem mem_keyedFiles_iff (wellFormed : files.WellFormed) {entry : String × Path} :
    entry ∈ keyedFiles files directory ↔ ∃ below content, IsSource files directory below content ∧
      entry = (keyOf below, directory.join ⟨keyOf below⟩) := by
  rw [keyedFiles]
  cases located : files.locate directory with
  | error fault => simp [IsSource, located]
  | ok place =>
      simp only [List.mem_map, List.mem_filter, Bool.and_eq_true, Bool.not_eq_true',
        List.isEmpty_eq_false_iff, IsSource, located, Except.ok.injEq, exists_eq_left']
      constructor
      · rintro ⟨below, ⟨member, nonempty, seen⟩, rfl⟩
        obtain ⟨content, stands⟩ := (mem_filesBelow_iff wellFormed nonempty).mp member
        exact ⟨below, content, ⟨nonempty, seen, stands⟩, rfl⟩
      · rintro ⟨below, content, ⟨nonempty, seen, stands⟩, rfl⟩
        have member := (mem_filesBelow_iff wellFormed nonempty).mpr ⟨content, stands⟩
        exact ⟨below, ⟨member, nonempty, seen⟩, rfl⟩

/-- Files below a directory have different keys. -/
theorem nodup_map_keyOf (wellFormed : files.WellFormed) {listed : List Place}
    (sublist : listed.Sublist (files.filesBelow place)) (notItself : [] ∉ listed) :
    (listed.map keyOf).Nodup := by
  have nonempty (below : Place) (member : below ∈ listed) : below ≠ [] := by
    rintro rfl
    exact notItself member
  have proper (below : Place) (member : below ∈ listed) : ∀ name ∈ below, IsName name := by
    obtain ⟨content, isEntry⟩ := mem_filesBelow_iff_mem_entries.mp (sublist.subset member)
    exact fun name isPart => wellFormed.named _ isEntry name (List.mem_append_right _ isPart)
  refine List.Nodup.map_on (fun below member other otherMember same => ?_)
    ((nodup_filesBelow wellFormed place).sublist sublist)
  exact keyOf_injective (proper below member) (nonempty below member) (proper other otherMember)
    (nonempty other otherMember) same

/-- Every key belongs to one file. -/
theorem nodup_keys (wellFormed : files.WellFormed) (directory : Path) :
    ((keyedFiles files directory).map Prod.fst).Nodup := by
  rw [keyedFiles]
  cases located : files.locate directory with
  | error fault => exact List.nodup_nil
  | ok place =>
      rw [List.map_map]
      exact nodup_map_keyOf wellFormed List.filter_sublist (by simp)

/-! ## What sources depend on -/

theorem keyedFiles_eq (spares : files.Spares output directory)
    (same : files.SameAround later output) :
    keyedFiles later directory = keyedFiles files directory := by
  have steady := spares.steady later same
  rw [keyedFiles, keyedFiles]
  cases located : files.locate directory with
  | error fault =>
      cases found : later.locate directory with
      | error other => rfl
      | ok place => simp [located, found, Except.toOption] at steady
  | ok place =>
      cases found : later.locate directory with
      | error other => simp [located, found, Except.toOption] at steady
      | ok other =>
          obtain rfl : other = place := by simpa [located, found, Except.toOption] using steady
          simp only [same.filesBelow_eq (spares.apart other located)]

theorem register_eq {config : Config}
    (spared : ∀ directory ∈ config.sourceDirectories, files.Spares output directory)
    (same : files.SameAround later output) : register config later = register config files := by
  rw [register, register, keyedFiles_eq (spared config.templatesDirectory ?_) same,
    keyedFiles_eq (spared config.pagesDirectory ?_) same]
  · simp [Config.sourceDirectories]
  · simp [Config.sourceDirectories]

/-- Registering entries one by one adds them, and of each the keys that are listed as pages. -/
theorem eq_of_foldlM_register {act : Graph → String × Path → Except RenderError Graph}
    {listed : String → List String}
    (step : ∀ graph entry later, act graph entry = .ok later → later =
      { graph with paths := graph.paths ++ [entry], pages := graph.pages ++ listed entry.1 })
    {entries : List (String × Path)} {graph later : Graph}
    (registered : entries.foldlM act graph = .ok later) :
    later = { graph with
      paths := graph.paths ++ entries
      pages := graph.pages ++ (entries.map Prod.fst).flatMap listed } := by
  induction entries generalizing graph with
  | nil =>
      obtain rfl := Except.ok.inj registered
      simp
  | cons entry rest induction =>
      rw [List.foldlM_cons, Except.bind_eq_ok_iff] at registered
      obtain ⟨next, first, others⟩ := registered
      rw [induction others, step graph entry next first]
      simp

theorem eq_of_registerTemplate {graph later : Graph} {key : String} {path : Path}
    (registered : graph.registerTemplate key path = .ok later) :
    later = { graph with paths := graph.paths ++ [(key, path)] } := by
  have added := Graph.registerTemplate_eq_ok_iff.mp registered
  cases place : graph.paths.lookup key with
  | some old =>
      rw [Graph.addTemplate_of_some place] at added
      cases added
  | none =>
      rw [Graph.addTemplate_of_none place] at added
      exact (Prod.mk.inj added).1.symm

theorem eq_of_registerPage {graph later : Graph} {key : String} {path : Path}
    (registered : graph.registerPage key path = .ok later) :
    later = { graph with
      paths := graph.paths ++ [(key, path)], pages := graph.pages ++ [key] } := by
  have added := Graph.registerPage_eq_ok_iff.mp registered
  cases place : graph.paths.lookup key with
  | some old =>
      rw [Graph.addPage_of_some place] at added
      cases added
  | none =>
      rw [Graph.addPage_of_none place] at added
      exact (Prod.mk.inj added).1.symm

/-- All templates and pages are registered, and nothing is decoded. -/
theorem eq_of_register {config : Config} {graph : Graph}
    (registered : register config files = .ok graph) :
    graph = { Graph.empty Format.all with
      paths := keyedFiles files config.templatesDirectory ++
        keyedFiles files config.pagesDirectory
      pages := (keyedFiles files config.pagesDirectory).map Prod.fst } := by
  rw [register, Except.bind_eq_ok_iff] at registered
  obtain ⟨templates, first, second⟩ := registered
  have withTemplates := @eq_of_foldlM_register _ (fun _ => [])
    (fun graph entry later done => by simpa using eq_of_registerTemplate done) _ _ _ first
  have withPages := @eq_of_foldlM_register _ (fun key => [key])
    (fun graph entry later done => eq_of_registerPage done) _ _ _ second
  rw [withPages, withTemplates]
  simp [Graph.empty]

/-- The pages are the files of the page directory, each once. -/
theorem mem_pages_iff (wellFormed : files.WellFormed) {config : Config} {graph : Graph}
    (registered : register config files = .ok graph) {key : String} :
    key ∈ graph.pages ↔
      ∃ below source, IsSource files config.pagesDirectory below source ∧ key = keyOf below := by
  rw [eq_of_register registered, List.mem_map]
  constructor
  · rintro ⟨entry, member, rfl⟩
    obtain ⟨below, source, isSource, rfl⟩ := (mem_keyedFiles_iff wellFormed).mp member
    exact ⟨below, source, isSource, rfl⟩
  · rintro ⟨below, source, isSource, rfl⟩
    exact ⟨_, (mem_keyedFiles_iff wellFormed).mpr ⟨below, source, isSource, rfl⟩, rfl⟩

theorem nodup_pages (wellFormed : files.WellFormed) {config : Config} {graph : Graph}
    (registered : register config files = .ok graph) : graph.pages.Nodup := by
  rw [eq_of_register registered]
  exact nodup_keys wellFormed config.pagesDirectory

end Site
end StaticSite
