import StaticSite.Proofs.Files.Places

/-!
# What operations do to files

Making directories adds directories at and above a place and leaves everything else as it was.
Removing a directory takes away what is at and below its place, and writing a file changes what
stands at its place and nothing else.
-/

namespace StaticSite
namespace FileTree

variable {tree later : FileTree} {place : Place} {fresh : Place → Prop}

/-! ## Entries -/

theorem lookup_filter {α : Type} (keep : Place → Bool) (entries : List (Place × α))
    (place : Place) :
    (entries.filter fun entry => keep entry.1).lookup place =
      if keep place then entries.lookup place else none := by
  induction entries with
  | nil => simp
  | cons entry rest induction =>
      obtain ⟨other, content⟩ := entry
      have kept : ((other, content) :: rest).filter (fun entry => keep entry.1) =
          if keep other then (other, content) :: rest.filter (fun entry => keep entry.1)
          else rest.filter fun entry => keep entry.1 := List.filter_cons
      by_cases same : place = other
      · subst same
        cases isKept : keep place <;> simp [kept, isKept, induction]
      · have further (rest : List (Place × α)) :
            ((other, content) :: rest).lookup place = rest.lookup place := by
          rw [List.lookup_cons, beq_false_of_ne same]
        cases isKept : keep other <;> simp [kept, isKept, further, induction]

/-- The tree without what stands at and below a place. -/
def without (tree : FileTree) (place : Place) : FileTree :=
  { tree with entries := tree.entries.filter fun entry => !place.isPrefixOf entry.1 }

theorem entry?_without (tree : FileTree) {place other : Place} (nonempty : other ≠ []) :
    entry? (tree.without place) other =
      if place.isPrefixOf other then none else tree.entry? other := by
  simp only [FileTree.entry?, without, nonempty, List.isEmpty_iff, ↓reduceIte]
  rw [lookup_filter fun other => !place.isPrefixOf other]
  cases place.isPrefixOf other <;> rfl

@[simp]
theorem entry?_nil (tree : FileTree) : tree.entry? [] = some .directory := rfl

theorem entry?_put_self (tree : FileTree) (nonempty : place ≠ []) (entry : Entry) :
    entry? (tree.put place entry) place = some entry := by
  simp [FileTree.entry?, put, nonempty]

theorem entry?_put_of_ne (tree : FileTree) {other : Place} (differs : other ≠ place)
    (entry : Entry) : entry? (tree.put place entry) other = tree.entry? other := by
  simp only [FileTree.entry?, put, List.lookup_cons, beq_false_of_ne differs]
  rw [lookup_filter fun other => other != place]
  simp [differs]

theorem put_put (tree : FileTree) (place : Place) (first second : Entry) :
    (tree.put place first).put place second = tree.put place second := by
  simp [put, List.filter_filter]

theorem entries_put_of_none (nonempty : place ≠ []) (free : tree.entry? place = none)
    (entry : Entry) : (tree.put place entry).entries = (place, entry) :: tree.entries := by
  refine congrArg ((place, entry) :: ·) (List.filter_eq_self.mpr fun other member => ?_)
  rw [bne_iff_ne]
  rintro rfl
  rw [FileTree.entry?, if_neg (by simpa using nonempty), List.lookup_eq_none_iff] at free
  simpa using free other member

/-! ## Growth -/

/-- Whether a tree has become another by new directories, all at certain places. -/
structure Grows (tree later : FileTree) (fresh : Place → Prop) : Prop where
  current_eq : later.current = tree.current
  exists_new : ∃ new : List (Place × Entry), later.entries = new ++ tree.entries ∧
    ∀ entry ∈ new, entry.2 = .directory ∧ fresh entry.1 ∧ entry.1 ≠ [] ∧
      tree.entry? entry.1 = none

namespace Grows

theorem refl (tree : FileTree) (fresh : Place → Prop) : tree.Grows tree fresh :=
  ⟨rfl, [], rfl, by simp⟩

theorem entry?_of_some (grows : tree.Grows later fresh) {entry : Entry}
    (stands : tree.entry? place = some entry) : later.entry? place = some entry := by
  by_cases isRoot : place = []
  · subst isRoot
    exact stands
  · obtain ⟨new, entries, isNew⟩ := grows.exists_new
    have absent : new.lookup place = none := by
      refine List.lookup_eq_none_iff.mpr fun entry member => ?_
      rw [bne_iff_ne]
      rintro rfl
      simp [(isNew entry member).2.2.2] at stands
    rw [FileTree.entry?, if_neg (by simpa using isRoot)] at stands ⊢
    rw [entries, List.lookup_append, absent, stands]
    rfl

/-- What is new is a directory at one of the places. -/
theorem entry?_eq_or (grows : tree.Grows later fresh) (place : Place) :
    later.entry? place = tree.entry? place ∨
      tree.entry? place = none ∧ later.entry? place = some .directory ∧ fresh place := by
  by_cases isRoot : place = []
  · subst isRoot
    exact .inl rfl
  · obtain ⟨new, entries, isNew⟩ := grows.exists_new
    simp only [FileTree.entry?, isRoot, List.isEmpty_iff, ↓reduceIte, entries, List.lookup_append]
    cases found : new.lookup place with
    | none => exact .inl rfl
    | some entry =>
        obtain ⟨before, after, split, -⟩ := List.lookup_eq_some_iff.mp found
        obtain ⟨rfl, isFresh, -, free⟩ := isNew (place, entry) (by simp [split])
        rw [FileTree.entry?, if_neg (by simpa using isRoot)] at free
        exact .inr ⟨free, rfl, isFresh⟩

theorem trans {last : FileTree} (first : tree.Grows later fresh)
    (second : later.Grows last fresh) : tree.Grows last fresh := by
  obtain ⟨new, entries, isNew⟩ := first.exists_new
  obtain ⟨more, moreEntries, isMore⟩ := second.exists_new
  refine ⟨second.current_eq.trans first.current_eq, more ++ new, ?_, fun entry member => ?_⟩
  · rw [moreEntries, entries, List.append_assoc]
  · rcases List.mem_append.mp member with inMore | inNew
    · obtain ⟨isDirectory, isFresh, nonempty, free⟩ := isMore entry inMore
      refine ⟨isDirectory, isFresh, nonempty, ?_⟩
      cases stands : tree.entry? entry.1 with
      | none => rfl
      | some other => rw [first.entry?_of_some stands] at free; contradiction
    · exact isNew entry inNew

theorem mono {wider : Place → Prop} (grows : tree.Grows later fresh)
    (implies : ∀ place, fresh place → wider place) : tree.Grows later wider := by
  obtain ⟨new, entries, isNew⟩ := grows.exists_new
  refine ⟨grows.current_eq, new, entries, fun entry member => ?_⟩
  obtain ⟨isDirectory, isFresh, rest⟩ := isNew entry member
  exact ⟨isDirectory, implies _ isFresh, rest⟩

end Grows

/-! ## New places -/

/-- The segments of a path are those above its last name, that name, and empty ones. -/
theorem exists_segments_eq (path : Path) (named : (splitLast path).2 ≠ "") :
    ∃ count, path.segments =
      (splitLast path).1 ++ (splitLast path).2 :: List.replicate count "" := by
  have ends : path.segments = (path.segments.reverse.dropWhile (· == "")).reverse ++
      (path.segments.reverse.takeWhile (· == "")).reverse := by
    rw [← List.reverse_append, List.takeWhile_append_dropWhile, List.reverse_reverse]
  have empties : (path.segments.reverse.takeWhile (· == "")).reverse =
      List.replicate (path.segments.reverse.takeWhile (· == "")).length "" := by
    refine List.eq_replicate_iff.mpr ⟨List.length_reverse, fun segment member => ?_⟩
    have all := List.all_eq_true.mp
      (List.all_takeWhile (p := (· == "")) (l := path.segments.reverse))
    simpa using all segment (List.mem_reverse.mp member)
  refine ⟨(path.segments.reverse.takeWhile (· == "")).length, ends.trans ?_⟩
  rw [empties]
  unfold splitLast at named ⊢
  rcases List.eq_nil_or_concat (path.segments.reverse.dropWhile (· == "")).reverse with
    none | ⟨front, last, segments⟩
  · simp [none] at named
  · simp [segments]

/-- A new entry gets a proper name in the directory to which the segments before it lead. -/
theorem exists_of_newPlace {path : Path} (isNew : tree.newPlace path = .ok place) :
    ∃ above name count directory, path.segments = above ++ name :: List.replicate count "" ∧
      check path = .ok () ∧ tree.followAll path above = .ok directory ∧
      tree.entry? directory = some .directory ∧ IsName name ∧
      name.utf8ByteSize ≤ nameLimit ∧ place = directory ++ [name] := by
  simp only [newPlace, Except.bind_eq_ok_iff] at isNew
  obtain ⟨_, checked, directory, followed, isNew⟩ := isNew
  split at isNew
  · next stands =>
    split at isNew
    · contradiction
    · next isName =>
      split at isNew
      · contradiction
      · next fits =>
        simp only [Bool.or_eq_true, beq_iff_eq, not_or] at isName
        obtain ⟨count, segments⟩ := exists_segments_eq path isName.1.1
        have noSlash := Path.slash_not_mem
          (segments ▸ List.mem_append_right _ List.mem_cons_self :
            (splitLast path).2 ∈ path.segments)
        exact ⟨_, _, count, directory, segments, checked, followed, stands,
          ⟨isName.1.1, isName.1.2, isName.2, noSlash⟩, Nat.not_lt.mp fits,
          (Except.ok.inj isNew).symm⟩
  · contradiction
  · contradiction

/-- A new entry gets the place that is the destination of its path. -/
theorem newPlace_eq_ok {path : Path} (isNew : tree.newPlace path = .ok place) :
    place = tree.destination path ∧ place ≠ [] ∧
      (tree.entry? place = some .directory → tree.locate path = .ok place) := by
  obtain ⟨above, name, count, directory, segments, checked, followed, isDirectory, isName, fits,
    rfl⟩ := exists_of_newPlace isNew
  have isStep := Path.isStep_iff.mpr ⟨isName.1, isName.2.1⟩
  have empties : (List.replicate count "").filter Path.isStep = [] := by
    simp [Path.isStep]
  have toDirectory : directory = above.foldl Place.step (tree.startOf path) :=
    eq_foldl_step_of_foldlM followed
  refine ⟨?_, by simp, fun stands => locate_eq_ok_iff.mpr ⟨checked, ?_⟩⟩
  · have last : Place.step directory name = directory ++ [name] := by
      simp [Place.step, isName.2.2.1, isStep]
    rw [destination, segments, List.foldl_append, ← toDirectory, List.foldl_cons, last,
      foldl_step_of_not_mem (by simp), empties, List.append_nil]
  · have last : tree.follow directory name = .ok (directory ++ [name]) :=
      (follow_eq_ok_iff isName.2.2.1).mpr ⟨isDirectory,
        .inr ⟨isStep, fits, Option.isSome_of_eq_some stands, rfl⟩⟩
    have rest := @foldlM_follow_of_isDirectory tree (directory ++ [name])
      (List.replicate count "") (by simp) (by simp [empties]) fun other below isAbove => by
        rw [empties, List.append_nil] at isAbove
        rwa [isAbove.eq_of_length_le below.length_le]
    rw [empties, List.append_nil] at rest
    rw [followAll] at followed ⊢
    rw [segments, List.foldlM_append, Except.bind_eq_ok_iff]
    refine ⟨directory, followed, ?_⟩
    rw [List.foldlM_cons, last]
    exact rest

/-! ## Making directories -/

/-- A directory is made where nothing was. -/
theorem exists_of_makeDirectory {path : Path} (made : tree.makeDirectory path = .ok later) :
    ∃ place, tree.newPlace path = .ok place ∧ tree.entry? place = none ∧
      later = tree.put place .directory := by
  rw [makeDirectory] at made
  split at made
  · contradiction
  · rw [Except.bind_eq_ok_iff] at made
    obtain ⟨place, isNew, made⟩ := made
    split at made
    · contradiction
    · next free => exact ⟨place, isNew, free, (Except.ok.inj made).symm⟩

theorem grows_put (free : tree.entry? place = none) (isFresh : fresh place) :
    tree.Grows (tree.put place .directory) fresh := by
  have nonempty : place ≠ [] := by
    rintro rfl
    simp at free
  refine ⟨rfl, [(_, .directory)], entries_put_of_none nonempty free _, ?_⟩
  simpa [nonempty, isFresh] using free

theorem makeDirectory_eq_ok {path : Path} (made : tree.makeDirectory path = .ok later) :
    tree.Grows later (· = tree.destination path) ∧
      later.entry? (tree.destination path) = some .directory := by
  obtain ⟨place, isNew, free, rfl⟩ := exists_of_makeDirectory made
  obtain ⟨rfl, nonempty, -⟩ := newPlace_eq_ok isNew
  exact ⟨grows_put free rfl, entry?_put_self tree nonempty _⟩

theorem isDirectory_iff {path : Path} :
    tree.isDirectory path = true ↔
      ∃ place, tree.locate path = .ok place ∧ tree.entry? place = some .directory := by
  rw [isDirectory, at?]
  cases tree.locate path with
  | error fault => simp [Except.toOption]
  | ok place =>
      simp only [Except.toOption, Option.bind_some, Except.ok.injEq, exists_eq_left']
      cases tree.entry? place with
      | none => simp
      | some entry => cases entry <;> simp

/-- Making directories one after the other adds what making each of them can add. -/
theorem makeEach_grows {paths : List Path}
    (each : ∀ path ∈ paths, ∀ before later : FileTree, before.current = tree.current →
      before.makeDirectory path = .ok later → before.Grows later fresh) :
    tree.Grows (tree.makeEach paths).files fresh := by
  induction paths generalizing tree with
  | nil => exact .refl tree fresh
  | cons path rest induction =>
      obtain ⟨first, others⟩ := List.forall_mem_cons.mp each
      rw [makeEach]
      cases made : tree.makeDirectory path with
      | ok next =>
          have grows := first tree next rfl made
          refine grows.trans (induction fun path member before later current_eq => ?_)
          exact others path member before later (current_eq.trans grows.current_eq)
      | error fault =>
          dsimp only
          split
          · exact induction others
          · exact .refl tree fresh

/-- Whatever directories are made, what was there stays. -/
theorem makeEach_keeps (tree : FileTree) (paths : List Path) :
    tree.Grows (tree.makeEach paths).files fun _ => True := by
  refine makeEach_grows fun path _ before later _ made => ?_
  obtain ⟨place, -, free, rfl⟩ := exists_of_makeDirectory made
  exact grows_put free trivial

theorem makeEach_grows_of_isPlain {paths : List Path} {down : Place}
    (above : ∀ path ∈ paths, path.IsPlain ∧ tree.placeOf path <+: down) :
    tree.Grows (tree.makeEach paths).files (· <+: down) := by
  refine makeEach_grows fun path member before later current_eq made => ?_
  obtain ⟨plain, isAbove⟩ := above path member
  refine (makeDirectory_eq_ok made).1.mono fun place same => ?_
  rw [same, destination_eq_placeOf plain, placeOf_congr current_eq]
  exact isAbove

/-- Directories that were to be made are there if that has not failed. -/
theorem makeEach_isDirectory {paths : List Path} (done : (tree.makeEach paths).fault = none) :
    ∀ path ∈ paths,
      (tree.makeEach paths).files.entry? (tree.destination path) = some .directory := by
  induction paths generalizing tree with
  | nil => simp
  | cons path rest induction =>
      rw [makeEach] at done ⊢
      cases made : tree.makeDirectory path with
      | ok next =>
          obtain ⟨grows, isDirectory⟩ := makeDirectory_eq_ok made
          simp only [made] at done ⊢
          have kept := (next.makeEach_keeps rest).entry?_of_some isDirectory
          refine List.forall_mem_cons.mpr ⟨kept, fun path member => ?_⟩
          rw [← destination_congr grows.current_eq path]
          exact induction done path member
      | error fault =>
          simp only [made] at done ⊢
          split at done
          · next isThere =>
            rw [if_pos isThere]
            simp only [Bool.and_eq_true, isDirectory_iff] at isThere
            obtain ⟨-, place, located, stands⟩ := isThere
            obtain rfl := eq_destination_of_locate located
            have kept := (tree.makeEach_keeps rest).entry?_of_some stands
            exact List.forall_mem_cons.mpr ⟨kept, induction done⟩
          · contradiction

theorem missing_subset {paths missing : List Path} (found : tree.missing paths = .ok missing) :
    missing ⊆ paths := by
  induction paths generalizing missing with
  | nil =>
      obtain rfl := Except.ok.inj found
      exact List.Subset.refl _
  | cons path rest induction =>
      rw [FileTree.missing] at found
      split at found
      · obtain rfl := Except.ok.inj found
        exact List.nil_subset _
      · split at found
        · obtain rfl := Except.ok.inj found
          simp
        · obtain ⟨others, higher, rfl⟩ := Except.map_eq_ok_iff.mp found
          exact List.cons_subset_cons path (induction higher)
        · split at found
          · obtain rfl := Except.ok.inj found
            exact List.nil_subset _
          · contradiction

/-- The first of some paths is missing, or it is there, or it has no parent. -/
theorem mem_missing_or {path : Path} {rest missing : List Path}
    (found : tree.missing (path :: rest) = .ok missing) :
    path ∈ missing ∨ tree.isDirectory path = true ∨ path.text = "" ∨ path.parent? = none := by
  rw [FileTree.missing] at found
  split at found
  · next isTop => exact .inr (.inr (by simpa using isTop))
  · split at found
    · obtain rfl := Except.ok.inj found
      exact .inl List.mem_cons_self
    · obtain ⟨others, -, rfl⟩ := Except.map_eq_ok_iff.mp found
      exact .inl List.mem_cons_self
    · split at found
      · next isThere => exact .inr (.inl (Bool.and_eq_true_iff.mp isThere).2)
      · contradiction

theorem prefix_of_mem_ancestors {path above : Path} (plain : path.IsPlain)
    (member : above ∈ path.ancestors) :
    above.IsPlain ∧ tree.placeOf above <+: tree.placeOf path := by
  obtain ⟨isPlain, isAbsolute, names⟩ := Path.ancestors_spec plain member
  refine ⟨isPlain, ?_⟩
  rw [placeOf, placeOf, startOf, startOf, isAbsolute]
  exact (List.prefix_append_right_inj _).mpr names

theorem makeDirectories_keeps (tree : FileTree) (path : Path) :
    tree.Grows (tree.makeDirectories path).files fun _ => True := by
  rw [makeDirectories]
  cases tree.missing path.ancestors with
  | error fault => exact .refl tree _
  | ok paths => exact tree.makeEach_keeps _

theorem makeDirectories_grows {path : Path} (plain : path.IsPlain) :
    tree.Grows (tree.makeDirectories path).files (· <+: tree.placeOf path) := by
  rw [makeDirectories]
  cases found : tree.missing path.ancestors with
  | error fault => exact .refl tree _
  | ok paths =>
      refine makeEach_grows_of_isPlain fun above member => prefix_of_mem_ancestors plain ?_
      exact missing_subset found (List.mem_reverse.mp member)

/-- A directory that was to be made is there if that has not failed. -/
theorem makeDirectories_isDirectory {path : Path} (isText : path.text ≠ "")
    (done : (tree.makeDirectories path).fault = none) :
    (tree.makeDirectories path).files.entry? (tree.destination path) = some .directory := by
  have kept := tree.makeDirectories_keeps path
  rw [makeDirectories] at done kept ⊢
  cases found : tree.missing path.ancestors with
  | error fault => simp [found] at done
  | ok paths =>
      simp only [found] at done kept ⊢
      obtain ⟨rest, ancestors⟩ := path.exists_ancestors_eq
      rw [ancestors] at found
      rcases mem_missing_or found with member | isThere | isEmpty | noParent
      · exact makeEach_isDirectory done path (List.mem_reverse.mpr member)
      · obtain ⟨place, located, stands⟩ := isDirectory_iff.mp isThere
        obtain rfl := eq_destination_of_locate located
        exact kept.entry?_of_some stands
      · contradiction
      · obtain ⟨isAbsolute, names⟩ := Path.of_parent?_eq_none isText noParent
        have plain : path.IsPlain := fun member => by
          have isName : ".." ∈ path.names := List.mem_filter.mpr ⟨member, by decide⟩
          simp [names] at isName
        rw [destination_eq_placeOf plain, placeOf, startOf, isAbsolute, names]
        rfl

/-! ## Trees stay trees -/

/-- A tree stays one when an entry with a proper name is put into a directory, and not over a
directory. -/
theorem WellFormed.put (wellFormed : tree.WellFormed) {directory : Place} {name : String}
    (stands : tree.entry? directory = some .directory) (isName : IsName name)
    (noDirectory : tree.entry? (directory ++ [name]) ≠ some .directory) (entry : Entry) :
    (tree.put (directory ++ [name]) entry).WellFormed := by
  have kept {other : Place} (isThere : tree.entry? other = some .directory) :
      entry? (tree.put (directory ++ [name]) entry) other = some .directory := by
    have differs : other ≠ directory ++ [name] := by
      rintro rfl
      exact noDirectory isThere
    rw [entry?_put_of_ne _ differs, isThere]
  have properAbove : ∀ name ∈ directory, IsName name := by
    by_cases isRoot : directory = []
    · simp [isRoot]
    · exact wellFormed.named _ (mem_entries_of_eq_some isRoot stands)
  have entries : (tree.put (directory ++ [name]) entry).entries = (directory ++ [name], entry) ::
      tree.entries.filter fun other => other.1 != directory ++ [name] := rfl
  refine ⟨?_, fun other member => ?_, fun other member => ?_⟩
  · rw [entries, List.map_cons, List.nodup_cons]
    refine ⟨fun listed => ?_, wellFormed.distinct.sublist (List.filter_sublist.map _)⟩
    obtain ⟨other, member, same⟩ := List.mem_map.mp listed
    simp [same] at member
  · rcases List.mem_cons.mp (entries ▸ member) with rfl | member
    · simpa [or_imp, forall_and, isName] using properAbove
    · exact wellFormed.named other (List.mem_filter.mp member).1
  · rcases List.mem_cons.mp (entries ▸ member) with rfl | member
    · simpa using kept stands
    · exact kept (wellFormed.nested other (List.mem_filter.mp member).1)

theorem WellFormed.makeDirectory (wellFormed : tree.WellFormed) {path : Path}
    (made : tree.makeDirectory path = .ok later) : later.WellFormed := by
  obtain ⟨place, isNew, free, rfl⟩ := exists_of_makeDirectory made
  obtain ⟨-, name, -, directory, -, -, -, stands, isName, -, rfl⟩ := exists_of_newPlace isNew
  exact wellFormed.put stands isName (by simp [free]) .directory

theorem WellFormed.makeEach (wellFormed : tree.WellFormed) (paths : List Path) :
    (tree.makeEach paths).files.WellFormed := by
  induction paths generalizing tree with
  | nil => exact wellFormed
  | cons path rest induction =>
      rw [FileTree.makeEach]
      cases made : tree.makeDirectory path with
      | ok next => exact induction (wellFormed.makeDirectory made)
      | error fault =>
          dsimp only
          split
          · exact induction wellFormed
          · exact wellFormed

theorem WellFormed.makeDirectories (wellFormed : tree.WellFormed) (path : Path) :
    (tree.makeDirectories path).files.WellFormed := by
  rw [FileTree.makeDirectories]
  cases tree.missing path.ancestors with
  | error fault => exact wellFormed
  | ok paths => exact wellFormed.makeEach _

theorem WellFormed.without (wellFormed : tree.WellFormed) (place : Place) :
    (tree.without place).WellFormed := by
  have sublist : (tree.without place).entries.Sublist tree.entries := List.filter_sublist
  refine ⟨wellFormed.distinct.sublist (sublist.map _),
    fun entry member => wellFormed.named entry (sublist.subset member), fun entry member => ?_⟩
  have parent := wellFormed.nested entry (sublist.subset member)
  by_cases isRoot : entry.1.dropLast = []
  · rw [isRoot, entry?_nil]
  · rw [entry?_without _ isRoot, if_neg, parent]
    intro within
    have isBelow := (List.isPrefixOf_iff_prefix.mp within).trans (List.dropLast_prefix entry.1)
    have kept := (List.mem_filter.mp member).2
    rw [List.isPrefixOf_iff_prefix.mpr isBelow] at kept
    contradiction

/-- Nothing stands at or below a place where nothing stands. -/
theorem WellFormed.without_eq_self (wellFormed : tree.WellFormed)
    (absent : tree.entry? place = none) : tree.without place = tree := by
  have all : tree.entries.filter (fun entry => !place.isPrefixOf entry.1) = tree.entries := by
    refine List.filter_eq_self.mpr fun entry member => ?_
    rw [Bool.not_eq_true', ← Bool.not_eq_true, List.isPrefixOf_iff_prefix]
    intro within
    have nonempty : entry.1 ≠ [] := by
      intro isRoot
      rw [isRoot, List.prefix_nil] at within
      rw [within, entry?_nil] at absent
      contradiction
    have stands := wellFormed.entry?_of_mem nonempty member
    by_cases same : place = entry.1
    · rw [same, stands] at absent
      contradiction
    · rw [wellFormed.entry?_of_prefix (Option.isSome_of_eq_some stands) within same] at absent
      contradiction
  rw [FileTree.without, all]

/-! ## Removing, writing and copying -/

theorem exists_of_removeDirectory {path : Path}
    (removed : tree.removeDirectory path = .ok later) :
    ∃ place, tree.locate path = .ok place ∧ later = tree.without place := by
  rw [removeDirectory, Except.bind_eq_ok_iff] at removed
  obtain ⟨place, located, removed⟩ := removed
  split at removed
  · exact ⟨place, located, (Except.ok.inj removed).symm⟩
  · contradiction

theorem removeDirectory_of_isDirectory {path : Path} (located : tree.locate path = .ok place)
    (stands : tree.entry? place = some .directory) :
    tree.removeDirectory path = .ok (tree.without place) := by
  rw [removeDirectory, located]
  simp only [bind, Except.bind, stands]
  rfl

/-- A file is written at the destination of its path, and not over a directory. -/
theorem write_eq_ok {path : Path} {content : ByteArray}
    (written : tree.write path content = .ok later) :
    later = tree.put (tree.destination path) (.file content) ∧
      tree.entry? (tree.destination path) ≠ some .directory := by
  rw [write] at written
  split at written
  · next place located =>
    obtain rfl := eq_destination_of_locate located
    split at written
    · contradiction
    · next noDirectory => exact ⟨(Except.ok.inj written).symm, noDirectory⟩
  · next fault missed =>
    split at written
    · contradiction
    · rw [Except.bind_eq_ok_iff] at written
      obtain ⟨place, isNew, written⟩ := written
      obtain ⟨rfl, -, located⟩ := newPlace_eq_ok isNew
      refine ⟨(Except.ok.inj written).symm, fun stands => ?_⟩
      rw [located stands] at missed
      contradiction

/-- What is at the place of a file can be put there anew. -/
theorem WellFormed.exists_of_file (wellFormed : tree.WellFormed) {content : ByteArray}
    (stands : tree.entry? place = some (.file content)) :
    ∃ directory name, place = directory ++ [name] ∧ IsName name ∧
      tree.entry? directory = some .directory := by
  rcases List.eq_nil_or_concat place with rfl | ⟨directory, name, rfl⟩
  · simp at stands
  · rw [List.concat_eq_append] at stands ⊢
    have member := mem_entries_of_eq_some (by simp) stands
    exact ⟨directory, name, rfl, wellFormed.named _ member name (by simp), by
      simpa using wellFormed.nested _ member⟩

theorem WellFormed.write (wellFormed : tree.WellFormed) {path : Path} {content : ByteArray}
    (written : tree.write path content = .ok later) : later.WellFormed := by
  obtain ⟨rfl, noDirectory⟩ := write_eq_ok written
  obtain ⟨directory, name, isPlace, isName, stands⟩ : ∃ directory name,
      tree.destination path = directory ++ [name] ∧ IsName name ∧
        tree.entry? directory = some .directory := by
    rw [FileTree.write] at written
    split at written
    · next place located =>
      obtain ⟨entry, stands⟩ := Option.isSome_iff_exists.mp (wellFormed.isSome_entry?_of_locate located)
      obtain rfl := eq_destination_of_locate located
      cases entry with
      | directory => exact absurd stands noDirectory
      | file old => exact wellFormed.exists_of_file stands
    · split at written
      · contradiction
      · obtain ⟨place, isNew, -⟩ := Except.bind_eq_ok_iff.mp written
        obtain rfl := (newPlace_eq_ok isNew).1
        obtain ⟨-, name, -, directory, -, -, -, stands, isName, -, isPlace⟩ :=
          exists_of_newPlace isNew
        exact ⟨directory, name, isPlace, isName, stands⟩
  rw [isPlace] at noDirectory ⊢
  exact wellFormed.put stands isName noDirectory _

theorem read_eq_ok_iff {path : Path} {content : ByteArray} :
    tree.read path = .ok content ↔
      ∃ place, tree.locate path = .ok place ∧ tree.entry? place = some (.file content) := by
  rw [read, Except.bind_eq_ok_iff]
  refine exists_congr fun place => and_congr_right fun _ => ?_
  cases tree.entry? place with
  | none => simp [throw, throwThe, MonadExceptOf.throw]
  | some entry =>
      cases entry with
      | directory => simp [throw, throwThe, MonadExceptOf.throw]
      | file other => simp [pure, Except.pure]

/-- What is read below a directory is the file at that place. -/
theorem entry?_of_read_join {path : Path} {below : Place} {content : ByteArray}
    (located : tree.locate path = .ok place) (proper : ∀ name ∈ below, IsName name)
    (nonempty : below ≠ []) (isRead : tree.read (path.join ⟨Site.keyOf below⟩) = .ok content) :
    tree.entry? (place ++ below) = some (.file content) := by
  obtain ⟨there, found, stands⟩ := read_eq_ok_iff.mp isRead
  rw [locate_join located proper nonempty, Except.bind_eq_ok_iff] at found
  obtain ⟨-, -, followed⟩ := found
  have plain : ".." ∉ below := fun member => (proper ".." member).2.2.1 rfl
  rw [(foldlM_follow_eq_ok plain followed).1, Path.filter_isStep proper] at stands
  exact stands

/-- A copy is first made empty and then filled with what the source holds by then. -/
theorem copy_eq_ok {source target : Path} (copied : tree.copy source target = .ok later) :
    ∃ first content, tree.read source = .ok first ∧
      (tree.put (tree.destination target) (.file .empty)).read source = .ok content ∧
      later = tree.put (tree.destination target) (.file content) := by
  simp only [copy, Except.bind_eq_ok_iff] at copied
  obtain ⟨first, isFirst, emptied, written, content, isContent, filled⟩ := copied
  obtain ⟨rfl, -⟩ := write_eq_ok written
  refine ⟨first, content, isFirst, isContent, (write_eq_ok filled).1.trans ?_⟩
  exact put_put tree _ _ _

theorem WellFormed.copy (wellFormed : tree.WellFormed) {source target : Path}
    (copied : tree.copy source target = .ok later) : later.WellFormed := by
  simp only [FileTree.copy, Except.bind_eq_ok_iff] at copied
  obtain ⟨-, -, emptied, written, content, -, filled⟩ := copied
  exact (wellFormed.write written).write filled

end FileTree
end StaticSite
