import StaticSite.Proofs.Site.Tasks

/-!
# Clearing the output directory

Clearing takes away everything below the directory and nothing elsewhere; what it adds are
directories only.
-/

namespace StaticSite
namespace Site

open FileTree (exists_of_removeDirectory)

variable {files : FileTree} {output : Path} {place : Place}

theorem isThere_of_locate (located : files.locate output = .ok place)
    (isSome : (files.entry? place).isSome) : files.isThere output = true := by
  rw [FileTree.isThere, FileTree.at?, located]
  exact isSome

/-- The directory is made, in the files without it if it was there. -/
theorem gives_clear {done : Unit → FileTree → Prop} {failed : SiteError → FileTree → Prop}
    (making : ∀ later, later = files ∧ files.isThere output = false ∨
      (∃ cleared, files.locate output = .ok cleared ∧ later = files.without cleared) →
      (Task.attempt (·.makeDirectories output) (.creating output)).Gives later done failed)
    (notRemoved : ∀ fault, files.removeDirectory output = .error fault →
      failed (.clearing output fault) files) :
    (clear output).Gives files done failed := by
  unfold clear
  refine .files_then ?_
  split
  · exact Task.Gives.bind
      (.change (fun _ removed => .inr (exists_of_removeDirectory removed)) notRemoved)
      fun _ later => making later
  · next notThere => exact making _ (.inl ⟨rfl, Bool.eq_false_iff.mpr notThere⟩)

/-- What stands elsewhere stays. -/
theorem gives_clear_keeps {entry : Entry}
    (elsewhere : ∀ cleared, files.locate output = .ok cleared → ¬ cleared <+: place)
    (stands : files.entry? place = some entry) :
    (clear output).Gives files (fun _ later => later.entry? place = some entry)
      fun _ later => later.entry? place = some entry := by
  refine gives_clear (fun later origin => ?_) fun _ _ => stands
  have kept : later.entry? place = some entry := by
    rcases origin with ⟨rfl, -⟩ | ⟨cleared, located, rfl⟩
    · exact stands
    · by_cases isRoot : place = []
      · rwa [isRoot] at stands ⊢
      · rwa [FileTree.entry?_without _ isRoot,
          if_neg (by simpa using elsewhere cleared located)]
  have keeps := (later.makeDirectories_keeps output).entry?_of_some kept
  exact .attempt (fun _ => keeps) fun _ _ => keeps

/-- Nothing is left below the directory. -/
theorem gives_clear_removes (plain : output.IsPlain)
    (located : files.locate output = .ok (files.placeOf output))
    (stands : files.entry? (files.placeOf output) = some .directory)
    (below : files.placeOf output <+: place) (differs : place ≠ files.placeOf output) :
    (clear output).Gives files (fun _ later => later.entry? place = none)
      fun _ later => later.entry? place = none := by
  have isThere := isThere_of_locate located (Option.isSome_of_eq_some stands)
  refine gives_clear (fun later origin => ?_) fun fault notRemoved => ?_
  · rcases origin with ⟨-, notThere⟩ | ⟨cleared, isCleared, rfl⟩
    · rw [isThere] at notThere
      contradiction
    · obtain rfl : files.placeOf output = cleared := by
        rw [located] at isCleared
        exact Except.ok.inj isCleared
      have nonempty : place ≠ [] := by
        rintro rfl
        exact differs (List.prefix_nil.mp below).symm
      have gone : FileTree.entry? (files.without (files.placeOf output)) place = none := by
        rw [FileTree.entry?_without _ nonempty, if_pos (by simpa using below)]
      have stays : FileTree.entry?
          ((files.without (files.placeOf output)).makeDirectories output).files place = none := by
        rcases (FileTree.makeDirectories_grows plain).entry?_eq_or place with same | ⟨-, -, isAbove⟩
        · rwa [same]
        · rw [FileTree.placeOf_congr rfl] at isAbove
          exact absurd (isAbove.eq_of_length_le below.length_le) differs
      exact .attempt (fun _ => stays) fun _ _ => stays
  · rw [FileTree.removeDirectory_of_isDirectory located stands] at notRemoved
    contradiction

/-- Whatever was at and below the directory, it is made in the files without that. -/
theorem perform_clear (wellFormed : files.WellFormed) (plain : output.IsPlain)
    (permits : FileTree.Permits output)
    (free : files.entry? (files.placeOf output) = none ∨
      files.entry? (files.placeOf output) = some .directory) (log : List LogLine) :
    (clear output).perform ⟨files, log⟩ =
      (Task.attempt (·.makeDirectories output) (.creating output)).perform
        ⟨files.without (files.placeOf output), log⟩ := by
  rw [clear, Task.perform_bind, Task.perform_files]
  dsimp only
  rcases free with absent | stands
  · have notThere : files.isThere output = false := by
      rw [FileTree.isThere, FileTree.at?]
      cases located : files.locate output with
      | error fault => rfl
      | ok place =>
          obtain rfl := FileTree.eq_placeOf_of_locate plain located
          simp [Except.toOption, absent]
    rw [if_neg (by simp [notThere]), wellFormed.without_eq_self absent]
  · have located := wellFormed.locate_of_isDirectory plain permits stands
    have isThere := isThere_of_locate located (Option.isSome_of_eq_some stands)
    rw [if_pos isThere, Task.perform_bind, Task.perform_change,
      FileTree.removeDirectory_of_isDirectory located stands]

end Site
end StaticSite
