import StaticSite.Proofs.Files.Growth

/-!
# Paths component by component

Paths with the same components lead to the same directory, whatever slashes and single points they
are written with.  A set of paths is a list in which no two have the same components.
-/

namespace StaticSite

/-- The segment that a component is written as, if it leads anywhere. -/
def Component.step? : Component → Option String
  | root | current => none
  | parent => some ".."
  | name text => some text

namespace Path

theorem same_iff {path other : Path} :
    path.same other = true ↔ path.components = other.components :=
  beq_iff_eq

theorem same_comm (path other : Path) : path.same other = other.same path := by
  rw [Bool.eq_iff_iff, same_iff, same_iff, eq_comm]

/-! ## What components tell of a path -/

theorem filter_isStep_eq {segments : List (Option Component × String)}
    (written : ∀ segment ∈ segments, IsWritten segment) :
    (segments.map Prod.snd).filter isStep =
      (segments.filterMap Prod.fst).filterMap Component.step? := by
  induction segments with
  | nil => rfl
  | cons segment rest induction =>
      obtain ⟨first, others⟩ := List.forall_mem_cons.mp written
      obtain ⟨component, text⟩ := segment
      rw [List.map_cons, List.filter_cons, induction others]
      cases component with
      | none =>
          have noStep : isStep text = false := first
          simp [noStep]
      | some component =>
          cases component with
          | root =>
              obtain rfl : text = "" := first
              rfl
          | current =>
              obtain rfl : text = "." := first
              rfl
          | parent =>
              obtain rfl : text = ".." := first
              rfl
          | name =>
              obtain ⟨rfl, step⟩ := first
              simp [step, Component.step?]

/-- The names of a path, `..` included, are those of its components. -/
theorem names_eq (path : Path) : path.names = path.components.filterMap Component.step? := by
  obtain ⟨first, rest, starts⟩ := exists_startsAs path
  rw [names, ← map_snd_marked, components]
  exact filter_isStep_eq fun _ => starts.isWritten_of_mem

theorem isAbsolute_iff_components {path : Path} :
    path.isAbsolute = true ↔ path.components.head? = some .root := by
  obtain ⟨⟨component, text⟩, rest, starts⟩ := exists_startsAs path
  rw [starts.isAbsolute_iff, components, starts.marked_eq, List.filterMap_cons]
  cases component with
  | some component => simp
  | none =>
      refine iff_of_false (by simp) fun isRoot => ?_
      obtain ⟨⟨other, segment⟩, member, isOther⟩ :=
        List.mem_filterMap.mp (List.mem_of_mem_head? isRoot)
      exact starts.noRoot _ member isOther

/-! ## Joined paths -/

/-- The component that the first segment of a path stands for, unless it is the empty text. -/
def opening? (segment : String) : Option Component :=
  if segment = "" then some .root
  else if segment = "." then some .current
  else component? segment

theorem components_of_segments {path : Path} {first : String} {rest : List String}
    (segments : path.segments = first :: rest) (isText : first = "" → rest ≠ []) :
    path.components = (opening? first).toList ++ rest.filterMap component? := by
  have more : first = "" → rest.isEmpty = false := fun isEmpty => by simpa using isText isEmpty
  have marks : path.marked =
      (opening? first, first) :: rest.map fun segment => (component? segment, segment) := by
    simp only [marked, segments, opening?, beq_iff_eq]
    split
    · next isEmpty => simp [more isEmpty]
    · rfl
  rw [components, marks, List.filterMap_cons, List.filterMap_map]
  cases opening? first <;> rfl

/-- Names that are joined to a path are the last of its components. -/
theorem components_join {path : Path} {below : Place} (isText : path.text ≠ "")
    (proper : ∀ name ∈ below, IsName name) (nonempty : below ≠ []) :
    (path.join ⟨Site.keyOf below⟩).components = path.components ++ below.map .name := by
  obtain ⟨front, joined, ends⟩ :=
    exists_segments_join isText (FileTree.isAbsolute_keyOf proper nonempty)
  rw [Site.keyOf, segments_ofNames nonempty proper, ← Site.keyOf] at joined
  have plain : ".." ∉ below := fun member => (proper ".." member).2.2.1 rfl
  have names : below.filterMap component? = below.map .name := by
    rw [filterMap_component? plain, filter_isStep proper]
  have notEmpty : path.segments ≠ [""] := by
    intro lone
    rw [text_eq_intercalate, lone] at isText
    exact isText rfl
  cases front with
  | nil =>
      -- then the path itself would be the empty text
      rcases ends with none | lone
      · exact absurd none path.segments_ne_nil
      · exact absurd lone notEmpty
  | cons first rest =>
      have whole : (path.join ⟨Site.keyOf below⟩).components =
          (opening? first).toList ++ (rest ++ below).filterMap component? :=
        components_of_segments joined fun _ => by simp [nonempty]
      have start : path.components = (opening? first).toList ++ rest.filterMap component? := by
        rcases ends with same | same
        · refine components_of_segments same ?_
          rintro rfl rfl
          exact notEmpty same
        · rw [List.cons_append] at same
          rw [components_of_segments same fun _ => by simp, List.filterMap_append]
          exact congrArg _ (List.append_nil _)
      rw [whole, start, List.filterMap_append, names, List.append_assoc]

theorem startsWith_join {path : Path} {below : Place} (isText : path.text ≠ "")
    (proper : ∀ name ∈ below, IsName name) (nonempty : below ≠ []) :
    (path.join ⟨Site.keyOf below⟩).startsWith path = true := by
  rw [startsWith, components_join isText proper nonempty, List.isPrefixOf_iff_prefix]
  exact List.prefix_append _ _

theorem fileName?_join {path : Path} {below : Place} (isText : path.text ≠ "")
    (proper : ∀ name ∈ below, IsName name) (nonempty : below ≠ []) :
    (path.join ⟨Site.keyOf below⟩).fileName? = below.getLast? := by
  obtain ⟨front, last, rfl⟩ := (List.eq_nil_or_concat below).resolve_left nonempty
  rw [fileName?, components_join isText proper nonempty]
  simp

/-! ## Sets of paths -/

/-- Whether a path is in a set of paths. -/
def IsIn (path : Path) (paths : List Path) : Prop :=
  ∃ other ∈ paths, other.same path = true

theorem isIn_of_mem {path : Path} {paths : List Path} (member : path ∈ paths) : path.IsIn paths :=
  ⟨path, member, same_iff.mpr rfl⟩

theorem isIn_iff_any {path : Path} {paths : List Path} :
    path.IsIn paths ↔ paths.any path.same = true := by
  simp only [IsIn, List.any_eq_true, same_comm path]

theorem isIn_append {path : Path} {paths others : List Path} :
    path.IsIn (paths ++ others) ↔ path.IsIn paths ∨ path.IsIn others := by
  simp only [IsIn, List.mem_append, or_and_right, exists_or]

theorem isIn_singleton {path other : Path} : path.IsIn [other] ↔ other.same path = true := by
  simp [IsIn]

/-- Whether a set holds some paths and no others, each once. -/
structure ListsOnce (listed paths : List Path) : Prop where
  subset : ∀ path ∈ listed, path ∈ paths
  covers : ∀ path ∈ paths, path.IsIn listed
  once : listed.Pairwise fun path other => path.same other = false

end Path

namespace FileTree

variable {tree : FileTree} {here there : Place} {path other : Path}

/-! ## Directories -/

theorem isDirectory_of_foldlM {segments : List String}
    (followed : segments.foldlM tree.follow here = .ok there)
    (stands : tree.entry? there = some .directory) : tree.entry? here = some .directory := by
  cases segments with
  | nil => exact Except.ok.inj followed ▸ stands
  | cons segment rest =>
      rw [List.foldlM_cons, Except.bind_eq_ok_iff] at followed
      obtain ⟨next, first, -⟩ := followed
      exact (follow_cases first).1

/-- Segments that name nothing to go to do not matter on the way to a directory. -/
theorem foldlM_follow_names {segments : List String}
    (stands : tree.entry? there = some .directory) :
    segments.foldlM tree.follow here = .ok there ↔
      (segments.filter Path.isStep).foldlM tree.follow here = .ok there := by
  induction segments generalizing here with
  | nil => rfl
  | cons segment rest induction =>
      rw [List.filter_cons]
      split
      · rw [List.foldlM_cons, List.foldlM_cons, Except.bind_eq_ok_iff, Except.bind_eq_ok_iff]
        exact exists_congr fun next => and_congr_right fun _ => induction
      · next noStep =>
        have noStep : Path.isStep segment = false := by simpa using noStep
        have noParent : segment ≠ ".." := by
          rintro rfl
          contradiction
        rw [← induction, List.foldlM_cons, Except.bind_eq_ok_iff]
        constructor
        · rintro ⟨next, first, others⟩
          obtain ⟨-, ⟨-, rfl⟩ | ⟨step, -⟩⟩ := (follow_eq_ok_iff noParent).mp first
          · exact others
          · rw [noStep] at step
            contradiction
        · intro others
          have isHere := isDirectory_of_foldlM others stands
          exact ⟨here, (follow_eq_ok_iff noParent).mpr ⟨isHere, .inl ⟨noStep, rfl⟩⟩, others⟩

/-- Paths with the same components lead to the same directory, as long as neither is too long. -/
theorem locate_of_same (same : path.same other = true) (checked : check other = .ok ())
    (located : tree.locate path = .ok there) (stands : tree.entry? there = some .directory) :
    tree.locate other = .ok there := by
  have components := Path.same_iff.mp same
  have absolute : other.isAbsolute = path.isAbsolute := by
    rw [Bool.eq_iff_iff, Path.isAbsolute_iff_components, Path.isAbsolute_iff_components, components]
  have names : other.segments.filter Path.isStep = path.segments.filter Path.isStep :=
    (Path.names_eq other).trans (components ▸ (Path.names_eq path).symm)
  have followed := (foldlM_follow_names stands).mp (locate_eq_ok_iff.mp located).2
  refine locate_eq_ok_iff.mpr ⟨checked, (foldlM_follow_names stands).mpr ?_⟩
  rwa [absolute, names]

theorem isDirectory_of_same (same : path.same other = true) (checked : check other = .ok ())
    (isDirectory : tree.isDirectory path = true) : tree.isDirectory other = true := by
  obtain ⟨place, located, stands⟩ := isDirectory_iff.mp isDirectory
  exact isDirectory_iff.mpr ⟨place, locate_of_same same checked located stands, stands⟩

theorem check_of_isDirectory (isDirectory : tree.isDirectory path = true) :
    check path = .ok () := by
  obtain ⟨place, located, -⟩ := isDirectory_iff.mp isDirectory
  exact (locate_eq_ok_iff.mp located).1

end FileTree
end StaticSite
