import StaticSite.Proofs.Files.Growth

/-!
# Changes around a place

While files are only changed at, below and above one place, what stands at and below a place apart
from it is the same, and a path that leads there leads there afterwards.
-/

namespace StaticSite

namespace Place

/-- Whether neither of two places is at or below the other. -/
def IsApart (place other : Place) : Prop :=
  ¬ place <+: other ∧ ¬ other <+: place

instance (place other : Place) : Decidable (place.IsApart other) :=
  inferInstanceAs (Decidable (_ ∧ _))

/-- What is at or below a place apart from another is apart from it as well. -/
theorem IsApart.below {output place below : Place} (apart : output.IsApart place)
    (isBelow : place <+: below) : output.IsApart below := by
  refine ⟨fun within => ?_, fun above => apart.2 (isBelow.trans above)⟩
  rcases List.prefix_or_prefix_of_prefix within isBelow with above | within
  · exact apart.1 above
  · exact apart.2 within

/-- What is near a place but not at or below it is above it. -/
theorem prefix_of_not_isApart {output place : Place} (near : ¬ output.IsApart place)
    (outside : ¬ output <+: place) : place <+: output :=
  Decidable.byContradiction fun notAbove => near ⟨outside, notAbove⟩

theorem IsApart.ne_nil {output place : Place} (apart : output.IsApart place) : place ≠ [] := by
  rintro rfl
  exact apart.2 (List.nil_prefix)

end Place

namespace FileTree

variable {files later : FileTree} {output place : Place}

/-- The bytes of the file at a place. -/
def content? (tree : FileTree) (place : Place) : Option ByteArray :=
  match tree.entry? place with
  | some (.file content) => some content
  | _ => none

theorem content?_eq_some_iff {tree : FileTree} {content : ByteArray} :
    tree.content? place = some content ↔ tree.entry? place = some (.file content) := by
  rw [content?]
  cases tree.entry? place with
  | none => simp
  | some entry => cases entry <;> simp

/-- New directories change no file. -/
theorem Grows.content?_eq {fresh : Place → Prop} (grows : files.Grows later fresh)
    (place : Place) : later.content? place = files.content? place := by
  rw [content?, content?]
  rcases grows.entry?_eq_or place with same | ⟨absent, isDirectory, -⟩
  · rw [same]
  · rw [absent, isDirectory]

/-- What is added around a place is not apart from it. -/
theorem Grows.filter_isApart {fresh : Place → Prop} (grows : files.Grows later fresh)
    (around : ∀ place, fresh place → ¬ output.IsApart place) :
    later.entries.filter (fun entry => decide (output.IsApart entry.1)) =
      files.entries.filter fun entry => decide (output.IsApart entry.1) := by
  obtain ⟨new, entries, isNew⟩ := grows.exists_new
  have gone : new.filter (fun entry => decide (output.IsApart entry.1)) = [] := by
    refine List.filter_eq_nil_iff.mpr fun entry member => ?_
    simpa using around entry.1 (isNew entry member).2.1
  rw [entries, List.filter_append, gone, List.nil_append]

theorem filter_isApart_without (files : FileTree) (output : Place) :
    (files.without output).entries.filter (fun entry => decide (output.IsApart entry.1)) =
      files.entries.filter fun entry => decide (output.IsApart entry.1) := by
  rw [without, List.filter_filter]
  refine List.filter_congr fun entry _ => ?_
  by_cases apart : output.IsApart entry.1
  · have outside : output.isPrefixOf entry.1 = false :=
      Bool.eq_false_iff.mpr (mt List.isPrefixOf_iff_prefix.mp apart.1)
    simp [apart, outside]
  · simp [apart]

/-- Whether files have become others by changes at, below and above a place only, no file above it
among them, and directories lead to that place. -/
structure SameAround (files later : FileTree) (output : Place) : Prop where
  current_eq : later.current = files.current
  entries_eq : later.entries.filter (fun entry => decide (output.IsApart entry.1)) =
    files.entries.filter fun entry => decide (output.IsApart entry.1)
  onTheWay : ∀ place, place <+: output → later.entry? place = some .directory
  noFile : ∀ place, place <+: output → place ≠ output → files.content? place = none

namespace SameAround

theorem entry?_eq (same : files.SameAround later output) (apart : output.IsApart place) :
    later.entry? place = files.entry? place := by
  have entries : List.lookup place _ = List.lookup place _ := congrArg _ same.entries_eq
  rw [lookup_filter fun other => decide (output.IsApart other),
    lookup_filter fun other => decide (output.IsApart other)] at entries
  simpa [FileTree.entry?, apart, apart.ne_nil] using entries

/-- A file that is not at or below the place stays, and there is no other. -/
theorem content?_eq (same : files.SameAround later output) (outside : ¬ output <+: place) :
    later.content? place = files.content? place := by
  by_cases above : place <+: output
  · have differs : place ≠ output := by
      rintro rfl
      exact outside above
    rw [same.noFile place above differs, content?, same.onTheWay place above]
  · rw [content?, content?, same.entry?_eq ⟨outside, above⟩]

/-- The same files are below a place apart from the one that was changed. -/
theorem filesBelow_eq (same : files.SameAround later output) (apart : output.IsApart place) :
    later.filesBelow place = files.filesBelow place := by
  have onlyApart (tree : FileTree) : tree.filesBelow place =
      FileTree.filesBelow
        ⟨tree.entries.filter fun entry => decide (output.IsApart entry.1), tree.current⟩ place := by
    rw [filesBelow, filesBelow, List.filterMap_filter]
    congr 2
    funext ⟨other, entry⟩
    cases entry with
    | directory => simp
    | file content =>
        by_cases below : place <+: other
        · simp [apart.below below]
        · simp [below?, below]
  rw [onlyApart, onlyApart files, same.entries_eq]
  rfl

theorem trans_grows {last : FileTree} {fresh : Place → Prop}
    (same : files.SameAround later output) (grows : later.Grows last fresh)
    (around : ∀ place, fresh place → ¬ output.IsApart place) : files.SameAround last output := by
  exact ⟨grows.current_eq.trans same.current_eq,
    (grows.filter_isApart around).trans same.entries_eq,
    fun place above => grows.entry?_of_some (same.onTheWay place above), same.noFile⟩

theorem trans_put {entry : Entry} (same : files.SameAround later output)
    (below : output <+: place) (differs : place ≠ output) :
    files.SameAround (later.put place entry) output := by
  refine ⟨same.current_eq, ?_, fun other above => ?_, same.noFile⟩
  · rw [← same.entries_eq, put, List.filter_cons_of_neg (by simp [Place.IsApart, below]),
      List.filter_filter]
    refine List.filter_congr fun entry _ => ?_
    by_cases apart : output.IsApart entry.1
    · have other : entry.1 ≠ place := by
        intro same
        exact apart.1 (same ▸ below)
      simp [apart, other]
    · simp [apart]
  · have other_ne : other ≠ place := by
      rintro rfl
      exact differs (above.eq_of_length_le below.length_le)
    rw [entry?_put_of_ne _ other_ne, same.onTheWay other above]

end SameAround

/-! ## Directories that are left alone -/

/-- Whether a path leads to a place apart from another, and leads there or nowhere whatever is
done around that other place. -/
structure Spares (files : FileTree) (output : Place) (directory : Path) : Prop where
  apart : ∀ place, files.locate directory = .ok place → output.IsApart place
  steady : ∀ later, files.SameAround later output →
    (later.locate directory).toOption = (files.locate directory).toOption

/-- A path without `..` whose names spell a place apart from another is one of these. -/
theorem WellFormed.spares (wellFormed : files.WellFormed) {directory : Path}
    (plain : directory.IsPlain) (apart : output.IsApart (files.placeOf directory)) :
    files.Spares output directory := by
  have toPlace (tree : FileTree) (current_eq : tree.current = files.current) {place : Place}
      (located : tree.locate directory = .ok place) : place = files.placeOf directory :=
    (eq_placeOf_of_locate plain located).trans (placeOf_congr current_eq directory)
  refine ⟨fun place located => toPlace files rfl located ▸ apart, fun later same => ?_⟩
  have before {place : Place} (located : later.locate directory = .ok place) :
      files.locate directory = .ok place := by
    refine locate_transfer plain same.current_eq.symm located fun other isAbove => ?_
    obtain rfl := toPlace later same.current_eq located
    by_cases isApart : output.IsApart other
    · exact .inl (same.entry?_eq isApart).symm
    · have isThere := isSome_of_locate plain located
      rw [same.entry?_eq apart] at isThere
      refine .inr (wellFormed.entry?_of_prefix isThere isAbove ?_)
      rintro rfl
      exact isApart apart
  have after {place : Place} (located : files.locate directory = .ok place) :
      later.locate directory = .ok place := by
    refine locate_transfer plain same.current_eq located fun other isAbove => ?_
    obtain rfl := toPlace files rfl located
    by_cases isApart : output.IsApart other
    · exact .inl (same.entry?_eq isApart)
    · exact .inr (same.onTheWay other (Place.prefix_of_not_isApart isApart fun within =>
        apart.1 (within.trans isAbove)))
  cases located : files.locate directory with
  | ok place => rw [after located]
  | error fault =>
      cases found : later.locate directory with
      | error other => rfl
      | ok place =>
          rw [before found] at located
          contradiction

theorem Spares.locate_eq {directory : Path} (spares : files.Spares output directory)
    (same : files.SameAround later output) (located : files.locate directory = .ok place) :
    later.locate directory = .ok place := by
  have steady := spares.steady later same
  rw [located] at steady
  cases found : later.locate directory with
  | error fault => simp [found, Except.toOption] at steady
  | ok other =>
      rw [found] at steady
      exact congrArg Except.ok (Option.some.inj steady)

/-- What is read below a directory that is left alone is the same. -/
theorem Spares.read_join_eq {directory : Path} (spares : files.Spares output directory)
    (same : files.SameAround later output) (located : files.locate directory = .ok place)
    {below : Place} (proper : ∀ name ∈ below, IsName name) (nonempty : below ≠ []) :
    later.read (directory.join ⟨Site.keyOf below⟩) =
      files.read (directory.join ⟨Site.keyOf below⟩) := by
  have found := spares.locate_eq same located
  have apart := spares.apart place located
  have plain : ".." ∉ below := fun member => (proper ".." member).2.2.1 rfl
  have follows := foldlM_follow_congr plain fun other isBelow =>
    same.entry?_eq (apart.below isBelow)
  rw [read, read, locate_join found proper nonempty, locate_join located proper nonempty, follows]
  cases check (directory.join ⟨Site.keyOf below⟩) with
  | error fault => rfl
  | ok checked =>
      cases followed : below.foldlM files.follow place with
      | error fault => simp only [bind, Except.bind]
      | ok there =>
          have isBelow : place <+: there := ⟨_, (foldlM_follow_eq_ok plain followed).1.symm⟩
          simp only [bind, Except.bind, same.entry?_eq (apart.below isBelow)]

end FileTree
end StaticSite
