import StaticSite.Proofs.Site.Clearing
import StaticSite.Proofs.Site.Pages

/-!
# Writing and copying into the output directory

The files below the output directory are followed from the moment when it was cleared: every page
and every asset adds one file at its key, and nothing is changed elsewhere.
-/

namespace StaticSite

/-- Whether an error is that of an operation on files. -/
def SiteError.IsFileFault : SiteError → Prop
  | config _ | render _ => False
  | clearing .. | creating .. | nesting .. | writing .. | copying .. => True

namespace FileTree

variable {files later last : FileTree} {output place below : Place}
  {wrote : Place → ByteArray → Prop} {content : ByteArray}

/-- Whether files have become others by changes around a place only, and the files below that place
are those that were written. -/
structure Holds (files : FileTree) (output : Place) (wrote : Place → ByteArray → Prop)
    (later : FileTree) : Prop extends files.SameAround later output where
  content?_iff : ∀ below content, below ≠ [] →
    (later.content? (output ++ below) = some content ↔ wrote below content)

namespace Holds

theorem congr {other : Place → ByteArray → Prop} (holds : files.Holds output wrote later)
    (same : ∀ below content, wrote below content ↔ other below content) :
    files.Holds output other later :=
  ⟨holds.toSameAround, fun below content nonempty =>
    (holds.content?_iff below content nonempty).trans (same below content)⟩

theorem grows {fresh : Place → Prop} (holds : files.Holds output wrote later)
    (grows : later.Grows last fresh) (around : ∀ place, fresh place → ¬ output.IsApart place) :
    files.Holds output wrote last := by
  refine ⟨holds.toSameAround.trans_grows grows around, fun below content nonempty => ?_⟩
  rw [← holds.content?_iff below content nonempty, grows.content?_eq]

/-- One more file. -/
theorem put (holds : files.Holds output wrote later) (nonempty : below ≠ [])
    (isNew : ∀ content, ¬ wrote below content) :
    files.Holds output (fun other bytes => wrote other bytes ∨ other = below ∧ bytes = content)
      (later.put (output ++ below) (.file content)) := by
  have isBelow : output <+: output ++ below := List.prefix_append _ _
  refine ⟨holds.toSameAround.trans_put isBelow (by simpa using nonempty),
    fun other bytes otherNonempty => ?_⟩
  by_cases same : other = below
  · subst same
    have stands : entry? (later.put (output ++ other) (.file content)) (output ++ other) =
        some (.file content) := entry?_put_self _ (by simp [nonempty]) _
    rw [content?, stands]
    simpa [isNew] using eq_comm
  · have differs : output ++ other ≠ output ++ below := by simpa using same
    rw [content?, entry?_put_of_ne _ differs, ← content?]
    simpa [same] using holds.content?_iff other bytes otherNonempty

end Holds
end FileTree

namespace Site

open FileTree

variable {files later : FileTree} {config : Config} {output directory target : Path}
  {below : Place} {wrote : Place → ByteArray → Prop}

/-! ## The cleared directory -/

/-- Nothing stands below a place that was cleared when directories were made on the way to it. -/
theorem entry?_below_eq_none {there : Place}
    (grows : (files.without there).Grows later (· <+: there)) (nonempty : below ≠ []) :
    later.entry? (there ++ below) = none := by
  have gone : entry? (files.without there) (there ++ below) = none := by
    rw [entry?_without _ (by simp [nonempty]), if_pos (by simp)]
  rcases grows.entry?_eq_or (there ++ below) with same | ⟨-, -, isAbove⟩
  · rwa [same]
  · have shorter := isAbove.length_le
    simp only [List.length_append] at shorter
    exact absurd (List.length_eq_zero_iff.mp (by omega)) nonempty

/-- No file stood where a directory stands on the way to a place that was cleared. -/
theorem content?_above_eq_none {there above : Place}
    (grows : (files.without there).Grows later (· <+: there))
    (isDirectory : later.entry? above = some .directory) (isAbove : above <+: there)
    (differs : above ≠ there) : files.content? above = none := by
  refine Option.eq_none_iff_forall_ne_some.mpr fun content isFile => ?_
  have stands := content?_eq_some_iff.mp isFile
  have nonempty : above ≠ [] := by
    rintro rfl
    simp at stands
  have outside : ¬ there <+: above := fun within =>
    differs (isAbove.eq_of_length_le within.length_le)
  have stayed : entry? (files.without there) above = some (.file content) := by
    rwa [entry?_without _ nonempty, if_neg (by simpa using outside)]
  have stays := grows.entry?_of_some stayed
  simp [isDirectory] at stays

/-- A directory that was made anew is empty, and nothing was changed but around it. -/
theorem holds_makeDirectories (wellFormed : files.WellFormed) (plain : output.IsPlain)
    (isText : output.text ≠ "")
    (done : ((files.without (files.placeOf output)).makeDirectories output).fault = none) :
    let later := ((files.without (files.placeOf output)).makeDirectories output).files
    files.Holds (files.placeOf output) (fun _ _ => False) later ∧
      ∀ below, below ≠ [] → later.entry? (files.placeOf output ++ below) = none := by
  intro later
  have grows : (files.without (files.placeOf output)).Grows later (· <+: files.placeOf output) :=
    makeDirectories_grows plain
  have laterFormed : later.WellFormed := (wellFormed.without _).makeDirectories output
  have isMade : later.entry? (files.placeOf output) = some .directory := by
    have isDirectory := makeDirectories_isDirectory isText done
    rwa [destination_eq_placeOf plain] at isDirectory
  have onTheWay (place : Place) (above : place <+: files.placeOf output) :=
    laterFormed.isDirectory_above isMade above
  have around (place : Place) (above : place <+: files.placeOf output) :
      ¬ (files.placeOf output).IsApart place := fun apart => apart.2 above
  refine ⟨⟨⟨grows.current_eq, ?_, onTheWay, ?_⟩, fun below content nonempty => ?_⟩, ?_⟩
  · exact (grows.filter_isApart around).trans (filter_isApart_without files _)
  · exact fun place above => content?_above_eq_none grows (onTheWay place above) above
  · rw [content?, entry?_below_eq_none grows nonempty]
    simp
  · exact fun below => entry?_below_eq_none grows

/-- Clearing leaves an empty directory. -/
theorem gives_clear_holds (wellFormed : files.WellFormed) (plain : output.IsPlain)
    (permits : Permits output)
    (free : files.entry? (files.placeOf output) = none ∨
      files.entry? (files.placeOf output) = some .directory) :
    (clear output).Gives files
      (fun _ later => files.Holds (files.placeOf output) (fun _ _ => False) later ∧
        ∀ below, below ≠ [] → later.entry? (files.placeOf output ++ below) = none)
      fun error _ => error.IsFileFault := by
  have isText := (check_eq_ok_iff.mp permits.1).2.1
  refine .of_perform_eq (perform_clear wellFormed plain permits free) (.attempt (fun done => ?_) ?_)
  · exact holds_makeDirectories wellFormed plain isText done
  · exact fun _ _ => trivial

/-! ## Writing and copying -/

/-- Making room for a file adds directories on the way to it. -/
theorem gives_makeRoom (plain : target.IsPlain)
    (isTarget : files.placeOf target = files.placeOf output ++ below)
    (holds : files.Holds (files.placeOf output) wrote later) :
    (makeRoom target).Gives later (fun _ last => files.Holds (files.placeOf output) wrote last)
      fun error _ => error.IsFileFault := by
  rw [makeRoom]
  split
  · exact .pure holds
  · next directory isParent =>
    obtain ⟨parentPlain, absolute, names⟩ := Path.parent?_spec plain isParent
    have isAbove : later.placeOf directory <+: files.placeOf output ++ below := by
      rw [← isTarget, placeOf_congr holds.current_eq, placeOf, placeOf, startOf, startOf, absolute,
        names]
      exact (List.prefix_append_right_inj _).mpr (List.dropLast_prefix _)
    refine .attempt (fun _ => ?_) fun _ _ => trivial
    refine holds.grows (makeDirectories_grows parentPlain) fun place above apart => ?_
    rcases List.prefix_or_prefix_of_prefix (List.prefix_append (files.placeOf output) below)
      (above.trans isAbove) with within | beyond
    · exact apart.1 within
    · exact apart.2 beyond

/-- The file at a key stands below the directory under the names of the key. -/
theorem placeOf_join_keyOf (isText : output.text ≠ "") (proper : ∀ name ∈ below, IsName name)
    (nonempty : below ≠ []) :
    files.placeOf (output.join ⟨keyOf below⟩) = files.placeOf output ++ below := by
  have relative := isAbsolute_keyOf proper nonempty
  rw [placeOf, startOf, Path.isAbsolute_join isText relative, Path.names_join isText relative,
    names_keyOf proper nonempty, ← List.append_assoc]
  rfl

theorem isPlain_join_keyOf (plain : output.IsPlain) (isText : output.text ≠ "")
    (proper : ∀ name ∈ below, IsName name) (nonempty : below ≠ []) :
    (output.join ⟨keyOf below⟩).IsPlain := by
  have keyPlain : (⟨keyOf below⟩ : Path).IsPlain := by
    rw [Path.IsPlain, keyOf, Path.segments_ofNames nonempty proper]
    exact fun member => (proper ".." member).2.2.1 rfl
  exact Path.isPlain_join plain keyPlain isText (isAbsolute_keyOf proper nonempty)

/-- A page is written at its key. -/
theorem gives_writePage (plain : output.IsPlain) (isText : output.text ≠ "")
    (proper : ∀ name ∈ below, IsName name) (nonempty : below ≠ [])
    (isNew : ∀ content, ¬ wrote below content)
    (holds : files.Holds (files.placeOf output) wrote later) (text : String) :
    (writePage output (keyOf below) text).Gives later
      (fun _ last => files.Holds (files.placeOf output)
        (fun other bytes => wrote other bytes ∨ other = below ∧ bytes = text.toUTF8) last)
      fun error _ => error.IsFileFault := by
  have targetPlain := isPlain_join_keyOf plain isText proper nonempty
  have isTarget (tree : FileTree) := @placeOf_join_keyOf tree output below isText proper nonempty
  refine .tell_then ?_
  refine (gives_makeRoom targetPlain (isTarget files) holds).bind fun _ later holds => ?_
  refine .change (fun last written => ?_) fun _ _ => trivial
  rw [(write_eq_ok written).1, destination_eq_placeOf targetPlain, isTarget,
    placeOf_congr holds.current_eq]
  exact holds.put nonempty isNew

/-- An asset is copied to its key. -/
theorem gives_copyAsset (plain : output.IsPlain) (isText : output.text ≠ "")
    (wellFormed : files.WellFormed) (spares : files.Spares (files.placeOf output) directory)
    {content : ByteArray} (source : IsSource files directory below content)
    (isNew : ∀ content, ¬ wrote below content)
    (holds : files.Holds (files.placeOf output) wrote later) :
    (copyAsset output (keyOf below) (directory.join ⟨keyOf below⟩)).Gives later
      (fun _ last => files.Holds (files.placeOf output)
        (fun other bytes => wrote other bytes ∨ other = below ∧ bytes = content) last)
      fun error _ => error.IsFileFault := by
  have proper := source.proper wellFormed
  obtain ⟨place, located, nonempty, -, stands⟩ := source
  have targetPlain := isPlain_join_keyOf plain isText proper nonempty
  have isTarget (tree : FileTree) := @placeOf_join_keyOf tree output below isText proper nonempty
  refine (gives_makeRoom targetPlain (isTarget files) holds).bind fun _ later holds => ?_
  refine .change (fun last copied => ?_) fun _ _ => trivial
  obtain ⟨_, copy, -, isRead, rfl⟩ := copy_eq_ok copied
  rw [destination_eq_placeOf targetPlain, isTarget, placeOf_congr holds.current_eq] at isRead ⊢
  -- the source is apart from the copy, which was emptied before
  have same : files.SameAround (later.put (files.placeOf output ++ below) (.file .empty))
      (files.placeOf output) :=
    holds.toSameAround.trans_put (List.prefix_append _ _) (by simpa using nonempty)
  have found := entry?_of_read_join (spares.locate_eq same located) proper nonempty isRead
  have apart := (spares.apart place located).below (List.prefix_append place below)
  obtain rfl : content = copy := by
    rw [same.entry?_eq apart, stands] at found
    simpa using found
  exact holds.put nonempty isNew

/-- Where each item adds a file under the names of a source, all of them together add these files.
The content of each depends on the item and on the source. -/
theorem gives_each {α : Type} {act : String × α → Task Unit}
    {failed : SiteError → FileTree → Prop} {items : List (String × α)}
    (content : String × α → ByteArray → ByteArray) (wellFormed : files.WellFormed)
    (distinct : (items.map Prod.fst).Nodup)
    (sources : ∀ item ∈ items, ∃ below source, IsSource files directory below source ∧
      item.1 = keyOf below)
    (fresh : ∀ below source, IsSource files directory below source →
      ∀ content, ¬ wrote below content)
    (step : ∀ item ∈ items, ∀ below source, IsSource files directory below source →
      item.1 = keyOf below → ∀ (wrote : Place → ByteArray → Prop) later,
      (∀ content, ¬ wrote below content) → files.Holds (files.placeOf output) wrote later →
      (act item).Gives later (fun _ last => files.Holds (files.placeOf output)
        (fun other bytes => wrote other bytes ∨ other = below ∧ bytes = content item source) last)
        failed)
    (holds : files.Holds (files.placeOf output) wrote later) :
    (items.forM act).Gives later
      (fun _ last => files.Holds (files.placeOf output) (fun below bytes => wrote below bytes ∨
        ∃ source, IsSource files directory below source ∧
          ∃ item ∈ items, item.1 = keyOf below ∧ bytes = content item source) last)
      failed := by
  let added (before : List (String × α)) (below : Place) (bytes : ByteArray) : Prop :=
    wrote below bytes ∨ ∃ source, IsSource files directory below source ∧
      ∃ item ∈ before, item.1 = keyOf below ∧ bytes = content item source
  refine @Task.Gives.forM _ _ _ _
    (fun before last => files.Holds (files.placeOf output) (added before) last) items ?_ ?_
  · exact holds.congr (by simp [added])
  · intro before item after whole later holds
    have member : item ∈ items := whole ▸ List.mem_append_right _ List.mem_cons_self
    obtain ⟨below, source, isSource, isKey⟩ := sources item member
    have isNew (bytes : ByteArray) : ¬ added before below bytes := by
      rintro (isWritten | ⟨-, -, earlier, isEarlier, sameKey, -⟩)
      · exact fresh below source isSource bytes isWritten
      · rw [whole, List.map_append, List.nodup_append] at distinct
        exact distinct.2.2 _ (List.mem_map_of_mem isEarlier) item.1 (by simp)
          (sameKey.trans isKey.symm)
    refine (step item member below source isSource isKey _ later isNew holds).mono
      (fun _ last holds => holds.congr fun other bytes => ?_) fun _ _ => id
    constructor
    · rintro ((isWritten | ⟨otherSource, isOther, earlier, isEarlier, rest⟩) | ⟨rfl, rfl⟩)
      · exact .inl isWritten
      · exact .inr ⟨otherSource, isOther, earlier, List.mem_append_left _ isEarlier, rest⟩
      · exact .inr ⟨source, isSource, item, by simp, isKey, rfl⟩
    · rintro (isWritten | ⟨otherSource, isOther, one, isOne, sameKey, rfl⟩)
      · exact .inl (.inl isWritten)
      · rcases List.mem_append.mp isOne with earlier | isLast
        · exact .inl (.inr ⟨otherSource, isOther, one, earlier, sameKey, rfl⟩)
        · obtain rfl := List.mem_singleton.mp isLast
          obtain rfl := isOther.below_eq wellFormed isSource (sameKey.symm.trans isKey)
          exact .inr ⟨rfl, congrArg (content one) (isOther.content_eq isSource)⟩

/-- All pages are written. -/
theorem gives_writePages (plain : output.IsPlain) (isText : output.text ≠ "")
    (wellFormed : files.WellFormed) {texts : List (String × String)}
    (distinct : (texts.map Prod.fst).Nodup)
    (sources : ∀ entry ∈ texts, ∃ below source, IsSource files directory below source ∧
      entry.1 = keyOf below)
    (holds : files.Holds (files.placeOf output) (fun _ _ => False) later) :
    (texts.forM fun (key, text) => writePage output key text).Gives later
      (fun _ last => files.Holds (files.placeOf output) (fun below content =>
        (∃ source, IsSource files directory below source) ∧
          ∃ text, (keyOf below, text) ∈ texts ∧ content = text.toUTF8) last)
      fun error _ => error.IsFileFault := by
  refine (gives_each (fun entry _ => entry.2.toUTF8) wellFormed distinct sources (by simp) ?_
    holds).mono (fun _ last holds => holds.congr fun below content => ?_)
    fun _ _ => id
  · rintro ⟨key, text⟩ - below source isSource rfl wrote later isNew holds
    exact gives_writePage plain isText (isSource.proper wellFormed) isSource.nonempty isNew holds
      text
  · constructor
    · rintro (isWritten | ⟨source, isSource, ⟨key, text⟩, member, rfl, isContent⟩)
      · contradiction
      · exact ⟨⟨source, isSource⟩, text, member, isContent⟩
    · rintro ⟨⟨source, isSource⟩, text, member, isContent⟩
      exact .inr ⟨source, isSource, (keyOf below, text), member, rfl, isContent⟩

/-- All assets are copied. -/
theorem gives_copyAssets (plain : output.IsPlain) (isText : output.text ≠ "")
    (wellFormed : files.WellFormed) (spares : files.Spares (files.placeOf output) directory)
    (disjoint : ∀ below content source, wrote below content →
      ¬ IsSource files directory below source)
    (holds : files.Holds (files.placeOf output) wrote later) :
    ((keyedFiles files directory).forM fun (key, source) => copyAsset output key source).Gives later
      (fun _ last => files.Holds (files.placeOf output) (fun below content =>
        wrote below content ∨ IsSource files directory below content) last)
      fun error _ => error.IsFileFault := by
  have sources (entry : String × Path) (member : entry ∈ keyedFiles files directory) :
      ∃ below source, IsSource files directory below source ∧ entry.1 = keyOf below := by
    obtain ⟨below, source, isSource, rfl⟩ := (mem_keyedFiles_iff wellFormed).mp member
    exact ⟨below, source, isSource, rfl⟩
  refine (gives_each (fun _ source => source) wellFormed (nodup_keys wellFormed directory) sources
    (fun below source isSource content isWritten =>
      disjoint below content source isWritten isSource) ?_ holds).mono
    (fun _ last holds => holds.congr fun below content => or_congr_right ?_) fun _ _ => id
  · intro entry member below source isSource isKey wrote later isNew holds
    obtain ⟨same, copy, isCopy, rfl⟩ := (mem_keyedFiles_iff wellFormed).mp member
    obtain rfl := isCopy.below_eq wellFormed isSource isKey
    exact gives_copyAsset plain isText wellFormed spares isSource isNew holds
  · constructor
    · rintro ⟨source, isSource, -, -, -, rfl⟩
      exact isSource
    · intro isSource
      exact ⟨content, isSource, _,
        (mem_keyedFiles_iff wellFormed).mpr ⟨below, content, isSource, rfl⟩, rfl, rfl⟩

/-- Naming unused assets leaves files alone. -/
theorem gives_tellUnused {failed : SiteError → FileTree → Prop} (entries : List (String × Path)) :
    (entries.forM fun (key, path) => tellUnused key path).Gives files
      (fun _ later => later = files) failed := by
  refine @Task.Gives.forM _ _ _ _ (fun _ later => later = files) entries rfl ?_
  rintro _ _ _ _ later rfl
  exact .tell rfl

end Site
end StaticSite
