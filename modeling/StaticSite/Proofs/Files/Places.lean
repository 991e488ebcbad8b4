import StaticSite.Proofs.Files.Names
import StaticSite.Proofs.Sequencing
import StaticSite.Site.Rendering

/-!
# Where paths lead

A path that is written without `..` leads, if it leads anywhere, to the place that its names spell.
Whether it does depends only on what stands at and above that place.
-/

namespace StaticSite

/-- Where a segment leads from a directory: nowhere else, to the directory above, or down. -/
def Place.step (here : Place) (segment : String) : Place :=
  if segment == ".." then here.dropLast
  else if Path.isStep segment then here ++ [segment]
  else here

namespace FileTree

variable {tree other : FileTree} {here there : Place}

/-- Where a path starts. -/
def startOf (tree : FileTree) (path : Path) : Place :=
  if path.isAbsolute then [] else tree.current

/-- The place that the names of a path spell. -/
def placeOf (tree : FileTree) (path : Path) : Place :=
  tree.startOf path ++ path.names

/-- The place to which a path leads if it leads anywhere. -/
def destination (tree : FileTree) (path : Path) : Place :=
  path.segments.foldl Place.step (tree.startOf path)

theorem check_eq_ok_iff {path : Path} :
    check path = .ok () ↔
      '\x00' ∉ path.text.toList ∧ path.text ≠ "" ∧ path.text.utf8ByteSize ≤ pathLimit := by
  simp only [check, String.contains_char_eq, decide_eq_true_eq, String.isEmpty_iff]
  split
  · next zero => simp [zero]
  · next noZero =>
    split
    · next isEmpty => simp [isEmpty]
    · next isText =>
      split
      · next long => simp [Nat.not_le.mpr long]
      · next fits => simp [noZero, isText, Nat.not_lt.mp fits]

/-! ## Following segments -/

/-- One segment leads on from a directory: nowhere else, to the directory above, or to what is
there under its name. -/
theorem follow_cases {segment : String} (followed : tree.follow here segment = .ok there) :
    tree.entry? here = some .directory ∧
      (Path.isStep segment = false ∧ there = here ∨
        segment = ".." ∧ there = here.dropLast ∨
        segment ≠ ".." ∧ Path.isStep segment = true ∧ segment.utf8ByteSize ≤ nameLimit ∧
          (tree.entry? there).isSome ∧ there = here ++ [segment]) := by
  rw [follow] at followed
  split at followed
  · contradiction
  · contradiction
  · next stands =>
    refine ⟨stands, ?_⟩
    split at followed
    · next noStep =>
      refine .inl ⟨Path.isStep_eq_false_iff.mpr ?_, (Except.ok.inj followed).symm⟩
      simpa using noStep
    · next step =>
      have isStep := Path.isStep_iff.mpr (by simpa using step)
      split at followed
      · next isParent =>
        exact .inr (.inl ⟨by simpa using isParent, (Except.ok.inj followed).symm⟩)
      · next noParent =>
        split at followed
        · contradiction
        · next fits =>
          split at followed
          · contradiction
          · next isThere =>
            obtain rfl := Except.ok.inj followed
            exact .inr (.inr ⟨by simpa using noParent, isStep, Nat.not_lt.mp fits,
              Option.isSome_of_eq_some isThere, rfl⟩)

/-- The same for a segment that does not lead upwards. -/
theorem follow_eq_ok_iff {segment : String} (noParent : segment ≠ "..") :
    tree.follow here segment = .ok there ↔
      tree.entry? here = some .directory ∧
        (Path.isStep segment = false ∧ there = here ∨
          Path.isStep segment = true ∧ segment.utf8ByteSize ≤ nameLimit ∧
            (tree.entry? there).isSome ∧ there = here ++ [segment]) := by
  constructor
  · intro followed
    obtain ⟨stands, stays | ⟨isParent, -⟩ | ⟨-, leads⟩⟩ := follow_cases followed
    · exact ⟨stands, .inl stays⟩
    · exact absurd isParent noParent
    · exact ⟨stands, .inr leads⟩
  · rintro ⟨stands, ⟨noStep, rfl⟩ | ⟨step, fits, isThere, rfl⟩⟩
    · rw [follow, stands]
      exact if_pos (by simpa using Path.isStep_eq_false_iff.mp noStep)
    · obtain ⟨entry, isEntry⟩ := Option.isSome_iff_exists.mp isThere
      have step := Path.isStep_iff.mp step
      simp [follow, stands, isEntry, step.1, step.2, noParent, Nat.not_lt.mpr fits]

/-- What segments without `..` lead to. -/
theorem foldlM_follow_eq_ok {segments : List String} (plain : ".." ∉ segments)
    (followed : segments.foldlM tree.follow here = .ok there) :
    there = here ++ segments.filter Path.isStep ∧
      ∀ name ∈ segments.filter Path.isStep, name.utf8ByteSize ≤ nameLimit := by
  induction segments generalizing here with
  | nil =>
      obtain rfl := Except.ok.inj followed
      simp
  | cons segment rest induction =>
      obtain ⟨noParent, plain⟩ := List.ne_and_not_mem_of_not_mem_cons plain
      rw [List.foldlM_cons, Except.bind_eq_ok_iff] at followed
      obtain ⟨next, first, followed⟩ := followed
      obtain ⟨rfl, fits⟩ := induction plain followed
      obtain ⟨-, ⟨noStep, rfl⟩ | ⟨step, short, -, rfl⟩⟩ :=
        (follow_eq_ok_iff (Ne.symm noParent)).mp first
      · simpa [noStep] using fits
      · simpa [step, short] using fits

theorem locate_eq_ok_iff {path : Path} :
    tree.locate path = .ok there ↔
      check path = .ok () ∧ tree.followAll path path.segments = .ok there := by
  rw [locate, Except.bind_eq_ok_iff]
  exact ⟨fun ⟨(), checked, followed⟩ => ⟨checked, followed⟩,
    fun ⟨checked, followed⟩ => ⟨(), checked, followed⟩⟩

/-- A path leads to the place that its names spell, if it leads anywhere. -/
theorem eq_placeOf_of_locate {path : Path} (plain : path.IsPlain)
    (located : tree.locate path = .ok there) : there = tree.placeOf path :=
  (foldlM_follow_eq_ok plain (locate_eq_ok_iff.mp located).2).1

/-- Whether the limits on names and paths permit a path. -/
def Permits (path : Path) : Prop :=
  check path = .ok () ∧ ∀ name ∈ path.names, name.utf8ByteSize ≤ nameLimit

theorem permits_of_locate {path : Path} (plain : path.IsPlain)
    (located : tree.locate path = .ok there) : Permits path := by
  obtain ⟨checked, followed⟩ := locate_eq_ok_iff.mp located
  exact ⟨checked, (foldlM_follow_eq_ok plain followed).2⟩

theorem placeOf_congr (current_eq : other.current = tree.current) (path : Path) :
    other.placeOf path = tree.placeOf path := by
  rw [placeOf, placeOf, startOf, startOf, current_eq]

/-- A path leads on by one of its segments at last. -/
theorem exists_follow_of_locate {path : Path} (located : tree.locate path = .ok there) :
    ∃ segment ∈ path.segments, ∃ here, tree.follow here segment = .ok there := by
  have followed := (locate_eq_ok_iff.mp located).2
  rcases List.eq_nil_or_concat path.segments with none | ⟨front, last, segments⟩
  · exact absurd none path.segments_ne_nil
  · rw [List.concat_eq_append] at segments
    rw [followAll, segments, List.foldlM_append, Except.bind_eq_ok_iff] at followed
    obtain ⟨here, -, final⟩ := followed
    simp only [List.foldlM_cons, List.foldlM_nil, bind_pure] at final
    exact ⟨last, by simp [segments], here, final⟩

/-- Something stands where a path leads. -/
theorem isSome_of_locate {path : Path} (plain : path.IsPlain)
    (located : tree.locate path = .ok there) : (tree.entry? there).isSome := by
  obtain ⟨segment, member, here, followed⟩ := exists_follow_of_locate located
  have noParent : segment ≠ ".." := by
    rintro rfl
    exact plain member
  obtain ⟨stands, ⟨-, rfl⟩ | ⟨-, -, isThere, -⟩⟩ := (follow_eq_ok_iff noParent).mp followed
  · exact Option.isSome_of_eq_some stands
  · exact isThere

/-! ## Destinations -/

theorem eq_step_of_follow {segment : String} (followed : tree.follow here segment = .ok there) :
    there = here.step segment := by
  obtain ⟨-, ⟨noStep, rfl⟩ | ⟨rfl, rfl⟩ | ⟨noParent, step, -, -, rfl⟩⟩ := follow_cases followed
  · have noParent : segment ≠ ".." := by
      rintro rfl
      contradiction
    simp [Place.step, noParent, noStep]
  · rfl
  · simp [Place.step, noParent, step]

theorem eq_foldl_step_of_foldlM {segments : List String}
    (followed : segments.foldlM tree.follow here = .ok there) :
    there = segments.foldl Place.step here := by
  induction segments generalizing here with
  | nil => exact (Except.ok.inj followed).symm
  | cons segment rest induction =>
      rw [List.foldlM_cons, Except.bind_eq_ok_iff] at followed
      obtain ⟨next, first, followed⟩ := followed
      obtain rfl := eq_step_of_follow first
      exact induction followed

theorem eq_destination_of_locate {path : Path} (located : tree.locate path = .ok there) :
    there = tree.destination path :=
  eq_foldl_step_of_foldlM (locate_eq_ok_iff.mp located).2

theorem foldl_step_of_not_mem {segments : List String} (plain : ".." ∉ segments) :
    segments.foldl Place.step here = here ++ segments.filter Path.isStep := by
  induction segments generalizing here with
  | nil => simp
  | cons segment rest induction =>
      obtain ⟨noParent, plain⟩ := List.ne_and_not_mem_of_not_mem_cons plain
      rw [List.foldl_cons, induction plain]
      cases step : Path.isStep segment <;> simp [Place.step, Ne.symm noParent, step]

theorem destination_eq_placeOf {path : Path} (plain : path.IsPlain) :
    tree.destination path = tree.placeOf path :=
  foldl_step_of_not_mem plain

theorem destination_congr (current_eq : other.current = tree.current) (path : Path) :
    other.destination path = tree.destination path := by
  rw [destination, destination, startOf, startOf, current_eq]

/-! ## The same path in other trees -/

/-- Segments lead to the same place where the same stands on the way, or a directory. -/
theorem foldlM_follow_transfer {segments : List String} (plain : ".." ∉ segments)
    (followed : segments.foldlM tree.follow here = .ok there)
    (kept : ∀ place, place <+: there →
      other.entry? place = tree.entry? place ∨ other.entry? place = some .directory) :
    segments.foldlM other.follow here = .ok there := by
  induction segments generalizing here with
  | nil => exact followed
  | cons segment rest induction =>
      obtain ⟨noParent, plain⟩ := List.ne_and_not_mem_of_not_mem_cons plain
      rw [List.foldlM_cons, Except.bind_eq_ok_iff] at followed ⊢
      obtain ⟨next, first, followed⟩ := followed
      have onward : next <+: there := ⟨_, (foldlM_follow_eq_ok plain followed).1.symm⟩
      refine ⟨next, ?_, induction plain followed⟩
      rw [follow_eq_ok_iff (Ne.symm noParent)] at first ⊢
      obtain ⟨stands, ⟨noStep, rfl⟩ | ⟨step, short, isThere, rfl⟩⟩ := first
      · exact ⟨(kept _ onward).elim (·.trans stands) id, .inl ⟨noStep, rfl⟩⟩
      · have above : here <+: there := (List.prefix_append here [segment]).trans onward
        refine ⟨(kept _ above).elim (·.trans stands) id, .inr ⟨step, short, ?_, rfl⟩⟩
        rcases kept _ onward with same | isDirectory
        · rwa [same]
        · exact Option.isSome_of_eq_some isDirectory

theorem locate_transfer {path : Path} (plain : path.IsPlain)
    (current_eq : other.current = tree.current) (located : tree.locate path = .ok there)
    (kept : ∀ place, place <+: there →
      other.entry? place = tree.entry? place ∨ other.entry? place = some .directory) :
    other.locate path = .ok there := by
  obtain ⟨checked, followed⟩ := locate_eq_ok_iff.mp located
  refine locate_eq_ok_iff.mpr ⟨checked, ?_⟩
  rw [followAll, current_eq]
  exact foldlM_follow_transfer plain followed kept

/-- Segments lead to the same where the same stands below the place from which they start. -/
theorem foldlM_follow_congr {segments : List String} (plain : ".." ∉ segments)
    (same : ∀ place, here <+: place → other.entry? place = tree.entry? place) :
    segments.foldlM other.follow here = segments.foldlM tree.follow here := by
  induction segments generalizing here with
  | nil => rfl
  | cons segment rest induction =>
      obtain ⟨noParent, plain⟩ := List.ne_and_not_mem_of_not_mem_cons plain
      have first : other.follow here segment = tree.follow here segment := by
        rw [follow, follow, same here (List.prefix_refl here),
          same (here ++ [segment]) (List.prefix_append here [segment])]
      rw [List.foldlM_cons, List.foldlM_cons, first]
      cases next : tree.follow here segment with
      | error fault => rfl
      | ok next =>
          refine induction plain fun place below => same place (.trans ?_ below)
          obtain ⟨-, ⟨-, rfl⟩ | ⟨-, -, -, rfl⟩⟩ := (follow_eq_ok_iff (Ne.symm noParent)).mp next
          · exact List.prefix_refl _
          · exact List.prefix_append _ _

/-- Segments lead through directories that are all there. -/
theorem foldlM_follow_of_isDirectory {segments : List String} (plain : ".." ∉ segments)
    (fits : ∀ name ∈ segments.filter Path.isStep, name.utf8ByteSize ≤ nameLimit)
    (stands : ∀ place, here <+: place → place <+: here ++ segments.filter Path.isStep →
      tree.entry? place = some .directory) :
    segments.foldlM tree.follow here = .ok (here ++ segments.filter Path.isStep) := by
  induction segments generalizing here with
  | nil => simp [pure, Except.pure]
  | cons segment rest induction =>
      obtain ⟨noParent, plain⟩ := List.ne_and_not_mem_of_not_mem_cons plain
      have isHere := stands here (List.prefix_refl here) (List.prefix_append _ _)
      rw [List.foldlM_cons]
      cases step : Path.isStep segment with
      | false =>
          have first : tree.follow here segment = .ok here :=
            (follow_eq_ok_iff (Ne.symm noParent)).mpr ⟨isHere, .inl ⟨step, rfl⟩⟩
          simp only [List.filter_cons, step, Bool.false_eq_true, ↓reduceIte] at fits stands ⊢
          rw [first]
          exact induction plain fits stands
      | true =>
          simp only [List.filter_cons, step, ↓reduceIte, List.mem_cons, forall_eq_or_imp]
            at fits stands ⊢
          have next := stands (here ++ [segment]) (List.prefix_append _ _) (by simp)
          have first : tree.follow here segment = .ok (here ++ [segment]) :=
            (follow_eq_ok_iff (Ne.symm noParent)).mpr
              ⟨isHere, .inr ⟨step, fits.1, by rw [next]; rfl, rfl⟩⟩
          rw [first]
          refine (induction plain fits.2 fun place below above => ?_).trans (by simp)
          have isBelow := (List.prefix_append here [segment]).trans below
          exact stands place isBelow (by simpa using above)

/-! ## Well-formed trees -/

/-- Whether a tree is one: nothing is listed twice, names are names, and what is in something is in
a directory. -/
structure WellFormed (tree : FileTree) : Prop where
  distinct : (tree.entries.map Prod.fst).Nodup
  named : ∀ entry ∈ tree.entries, ∀ name ∈ entry.1, IsName name
  nested : ∀ entry ∈ tree.entries, tree.entry? entry.1.dropLast = some .directory

theorem mem_entries_of_eq_some {place : Place} {entry : Entry} (nonempty : place ≠ [])
    (stands : tree.entry? place = some entry) : (place, entry) ∈ tree.entries := by
  rw [FileTree.entry?, if_neg (by simpa using nonempty)] at stands
  obtain ⟨before, after, entries, -⟩ := List.lookup_eq_some_iff.mp stands
  rw [entries]
  simp

theorem WellFormed.entry?_of_mem (wellFormed : tree.WellFormed) {place : Place} {entry : Entry}
    (nonempty : place ≠ []) (member : (place, entry) ∈ tree.entries) :
    tree.entry? place = some entry := by
  obtain ⟨before, after, entries⟩ := List.append_of_mem member
  rw [FileTree.entry?, if_neg (by simpa using nonempty), List.lookup_eq_some_iff]
  refine ⟨before, after, entries, fun earlier isEarlier => ?_⟩
  have distinct := wellFormed.distinct
  rw [entries, List.map_append, List.map_cons, List.nodup_append] at distinct
  have differs := distinct.2.2 _ (List.mem_map_of_mem isEarlier) place List.mem_cons_self
  simpa using Ne.symm differs

/-- What stands above something is a directory. -/
theorem WellFormed.entry?_of_prefix (wellFormed : tree.WellFormed) {place above : Place}
    (isThere : (tree.entry? place).isSome) (isAbove : above <+: place) (differs : above ≠ place) :
    tree.entry? above = some .directory := by
  obtain ⟨suffix, rfl⟩ := isAbove
  induction length : suffix.length generalizing suffix with
  | zero =>
      obtain rfl := List.length_eq_zero_iff.mp length
      simp at differs
  | succ count induction =>
      rcases List.eq_nil_or_concat suffix with rfl | ⟨front, last, rfl⟩
      · contradiction
      · obtain ⟨entry, stands⟩ := Option.isSome_iff_exists.mp isThere
        have parent := wellFormed.nested _ (mem_entries_of_eq_some (by simp) stands)
        simp only [List.concat_eq_append, ← List.append_assoc, List.dropLast_concat] at parent
        by_cases isParent : front = []
        · rwa [isParent, List.append_nil] at parent
        · refine induction front (by rw [parent]; rfl) ?_ (by simpa using length)
          simpa using isParent

/-- Directories lead to a directory. -/
theorem WellFormed.isDirectory_above (wellFormed : tree.WellFormed) {place above : Place}
    (stands : tree.entry? place = some .directory) (isAbove : above <+: place) :
    tree.entry? above = some .directory := by
  by_cases same : above = place
  · rw [same, stands]
  · exact wellFormed.entry?_of_prefix (Option.isSome_of_eq_some stands) isAbove same

/-- Something stands where a path leads, also by way of `..`. -/
theorem WellFormed.isSome_entry?_of_locate (wellFormed : tree.WellFormed) {path : Path}
    (located : tree.locate path = .ok there) : (tree.entry? there).isSome := by
  obtain ⟨segment, -, here, followed⟩ := exists_follow_of_locate located
  obtain ⟨stands, ⟨-, rfl⟩ | ⟨-, rfl⟩ | ⟨-, -, -, isThere, -⟩⟩ := follow_cases followed
  · exact Option.isSome_of_eq_some stands
  · exact Option.isSome_of_eq_some
      (wellFormed.isDirectory_above stands (List.dropLast_prefix here))
  · exact isThere

/-- A path leads to a directory that stands at the place its names spell. -/
theorem WellFormed.locate_of_isDirectory (wellFormed : tree.WellFormed) {path : Path}
    (plain : path.IsPlain) (permits : Permits path)
    (stands : tree.entry? (tree.placeOf path) = some .directory) :
    tree.locate path = .ok (tree.placeOf path) := by
  refine locate_eq_ok_iff.mpr ⟨permits.1, ?_⟩
  exact foldlM_follow_of_isDirectory plain permits.2 fun _ _ isAbove =>
    wellFormed.isDirectory_above stands isAbove

/-! ## Paths below a directory -/

theorem isAbsolute_keyOf {below : Place} (proper : ∀ name ∈ below, IsName name)
    (nonempty : below ≠ []) : (⟨Site.keyOf below⟩ : Path).isAbsolute = false := by
  refine Bool.eq_false_iff.mpr fun absolute => ?_
  obtain ⟨rest, -, segments⟩ := Path.isAbsolute_iff.mp absolute
  rw [Site.keyOf, Path.segments_ofNames nonempty proper] at segments
  exact (proper "" (segments ▸ List.mem_cons_self)).1 rfl

/-- What is below the place of a path is found by going on from there. -/
theorem locate_join {path : Path} {below : Place} (located : tree.locate path = .ok there)
    (proper : ∀ name ∈ below, IsName name) (nonempty : below ≠ []) :
    tree.locate (path.join ⟨Site.keyOf below⟩) =
      check (path.join ⟨Site.keyOf below⟩) >>= fun _ => below.foldlM tree.follow there := by
  obtain ⟨checked, followed⟩ := locate_eq_ok_iff.mp located
  have isText := (check_eq_ok_iff.mp checked).2.1
  have relative := isAbsolute_keyOf proper nonempty
  obtain ⟨front, joined, segments⟩ := Path.exists_segments_join isText relative
  rw [Site.keyOf, Path.segments_ofNames nonempty proper] at joined
  have toFront : front.foldlM tree.follow (tree.startOf path) = .ok there := by
    have followed : path.segments.foldlM tree.follow (tree.startOf path) = .ok there := followed
    rcases segments with same | same
    · rwa [same] at followed
    · rw [same, List.foldlM_append, Except.bind_eq_ok_iff] at followed
      obtain ⟨middle, before, final⟩ := followed
      obtain rfl : there = middle := by
        simpa [Path.isStep] using (foldlM_follow_eq_ok (by decide) final).1
      exact before
  have start : tree.startOf (path.join ⟨Site.keyOf below⟩) = tree.startOf path := by
    rw [startOf, Path.isAbsolute_join isText relative, startOf]
  have whole : tree.followAll (path.join ⟨Site.keyOf below⟩)
      (path.join ⟨Site.keyOf below⟩).segments = below.foldlM tree.follow there := by
    calc
      _ = (front ++ below).foldlM tree.follow (tree.startOf path) := by
          rw [← start, ← joined]
          rfl
      _ = below.foldlM tree.follow there := by
          rw [List.foldlM_append, toFront]
          rfl
  rw [locate, whole]

/-- The limits on paths permit the start of a path that they permit. -/
theorem check_of_append {front back : String} (isText : front ≠ "")
    (checked : check ⟨front ++ back⟩ = .ok ()) : check ⟨front⟩ = .ok () := by
  rw [check_eq_ok_iff] at checked ⊢
  obtain ⟨noZero, -, fits⟩ := checked
  simp only [String.toList_append, List.mem_append, not_or] at noZero
  rw [String.utf8ByteSize_append] at fits
  exact ⟨noZero.1, isText, Nat.le_trans (Nat.le_add_right _ _) fits⟩

/-- Where a joined path leads somewhere, so does the path to which something was joined. -/
theorem exists_locate_of_join {path other : Path} (isText : path.text ≠ "")
    (relative : other.isAbsolute = false) (located : tree.locate (path.join other) = .ok there) :
    ∃ place, tree.locate path = .ok place := by
  obtain ⟨checked, followed⟩ := locate_eq_ok_iff.mp located
  obtain ⟨front, joined, segments⟩ := Path.exists_segments_join isText relative
  rw [followAll, joined, Path.isAbsolute_join isText relative, List.foldlM_append,
    Except.bind_eq_ok_iff] at followed
  obtain ⟨middle, toMiddle, onward⟩ := followed
  refine ⟨middle, locate_eq_ok_iff.mpr ⟨?_, ?_⟩⟩
  · obtain ⟨back, text⟩ : ∃ back, (path.join other).text = path.text ++ back := by
      rw [Path.join, if_neg (by simpa [relative] using isText)]
      split
      · exact ⟨other.text, rfl⟩
      · exact ⟨"/" ++ other.text, String.append_assoc⟩
    have checked : check ⟨(path.join other).text⟩ = .ok () := checked
    rw [text] at checked
    exact check_of_append isText checked
  · rw [followAll]
    rcases segments with same | same
    · rwa [same]
    · -- the empty segment at the end asks for a directory, and so does what was joined
      cases others : other.segments with
      | nil => exact absurd others other.segments_ne_nil
      | cons segment rest =>
          rw [others, List.foldlM_cons, Except.bind_eq_ok_iff] at onward
          obtain ⟨next, isNext, -⟩ := onward
          have stands := (follow_cases isNext).1
          have stays : tree.follow middle "" = .ok middle :=
            (follow_eq_ok_iff (by decide)).mpr ⟨stands, .inl ⟨rfl, rfl⟩⟩
          rw [same, List.foldlM_append, toMiddle]
          exact (congrArg (· >>= pure) stays).trans rfl

/-- What is below a path has its destination below that of the path. -/
theorem destination_join {path : Path} {below : Place} (isText : path.text ≠ "")
    (proper : ∀ name ∈ below, IsName name) (nonempty : below ≠ []) :
    tree.destination (path.join ⟨Site.keyOf below⟩) = tree.destination path ++ below := by
  have relative := isAbsolute_keyOf proper nonempty
  obtain ⟨front, joined, segments⟩ := Path.exists_segments_join isText relative
  rw [Site.keyOf, Path.segments_ofNames nonempty proper] at joined
  have toFront : front.foldl Place.step (tree.startOf path) = tree.destination path := by
    rcases segments with same | same
    · rw [destination, same]
    · rw [destination, same, List.foldl_append]
      rfl
  have plain : ".." ∉ below := fun member => (proper ".." member).2.2.1 rfl
  have start : tree.startOf (path.join ⟨Site.keyOf below⟩) = tree.startOf path := by
    rw [startOf, Path.isAbsolute_join isText relative, startOf]
  have whole : (path.join ⟨Site.keyOf below⟩).segments = front ++ below := joined
  rw [destination, start, whole, List.foldl_append, toFront, foldl_step_of_not_mem plain,
    Path.filter_isStep proper]

end FileTree
end StaticSite
