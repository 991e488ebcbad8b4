import Mathlib
import StaticSite.Proofs.Site.Sources
import StaticSite.Proofs.Watch.Gathering

/-!
# Noticing changes of sources

An event about a file that is rendered or copied is relevant and touches the sources, whatever the
settings are.  The file is then among the gathered changes, unless its name is one that editors give
to temporary files: such files are rendered and copied as well, but their changes are not noticed.
-/

namespace StaticSite
namespace Watch

/-- Whether a name is one that editors give to files that they make for a while. -/
def isTemporaryName (name : String) : Bool :=
  temporaryExtensions.contains ((Path.extensionOf? name).getD "") || name.endsWith "~" ||
    name.startsWith "."

theorem isTemporary_eq {path : Path} {name : String} (isName : path.fileName? = some name) :
    isTemporary path = isTemporaryName name := by
  rw [isTemporary, Path.extension?, isName]
  rfl

theorem isTemporary_of_same {path other : Path} (same : path.same other = true) :
    isTemporary path = isTemporary other := by
  rw [isTemporary, isTemporary, Path.extension?, Path.extension?, Path.fileName?, Path.fileName?,
    Path.same_iff.mp same]

/-- What an event adds to what is pending. -/
theorem isIn_pending_add {debouncer : Debouncer} {now : Nat} {event : Event} {path : Path}
    (about : path ∈ event.paths) :
    path.IsIn (debouncer.add now event).pending ↔
      path.IsIn debouncer.pending ∨ isTemporary path = false := by
  rw [Debouncer.add, isIn_foldl_insertPath]
  refine or_congr_right ⟨?_, fun lasting => ?_⟩
  · rintro ⟨other, member, same⟩
    rw [← isTemporary_of_same same]
    simpa using (List.mem_filter.mp member).2
  · exact Path.isIn_of_mem (List.mem_filter.mpr ⟨about, by simp [lasting]⟩)

/-- What lies below a source directory touches the sources. -/
theorem touchesSources_of_startsWith {config : Config} {event : Event} {directory path : Path}
    (isSource : directory ∈ config.sourceDirectories) (about : path ∈ event.paths)
    (starts : path.startsWith directory = true) : event.touchesSources config = true :=
  List.any_eq_true.mpr ⟨path, about, List.any_eq_true.mpr ⟨directory, isSource, starts⟩⟩

/-- An event that changes a source is relevant and touches the sources; the source has a name. -/
theorem concerns_source {config : Config} {files : FileTree} (wellFormed : files.WellFormed)
    {directory path : Path} {key : String} (isSource : directory ∈ config.sourceDirectories)
    (keyed : (key, path) ∈ Site.keyedFiles files directory) {event : Event}
    (changes : event.kind = .create ∨ event.kind = .modify ∨ event.kind = .remove)
    (about : path ∈ event.paths) :
    event.isRelevant = true ∧ event.touchesSources config = true ∧
      ∃ name, path.fileName? = some name := by
  obtain ⟨below, content, source, isEntry⟩ := (Site.mem_keyedFiles_iff wellFormed).mp keyed
  obtain ⟨rfl, rfl⟩ := Prod.mk.inj isEntry
  have proper := source.proper wellFormed
  have nonempty := source.nonempty
  have isText : directory.text ≠ "" := by
    obtain ⟨place, located, -⟩ := source
    exact (FileTree.check_eq_ok_iff.mp (FileTree.locate_eq_ok_iff.mp located).1).2.1
  have named : (directory.join ⟨Site.keyOf below⟩).fileName? = some (below.getLast nonempty) := by
    rw [Path.fileName?_join isText proper nonempty, List.getLast?_eq_some_getLast nonempty]
  refine ⟨?_, ?_, _, named⟩
  · rcases changes with kind | kind | kind <;> simp [Event.isRelevant, kind]
  · exact touchesSources_of_startsWith isSource about
      (Path.startsWith_join isText proper nonempty)

/-- Every change of a source is relevant and touches the sources, and it is gathered unless the
source has the name of a temporary file. -/
theorem notices_source {config : Config} {files : FileTree} (wellFormed : files.WellFormed)
    {directory path : Path} {key : String} (isSource : directory ∈ config.sourceDirectories)
    (keyed : (key, path) ∈ Site.keyedFiles files directory) {event : Event}
    (changes : event.kind = .create ∨ event.kind = .modify ∨ event.kind = .remove)
    (about : path ∈ event.paths) :
    event.isRelevant = true ∧ event.touchesSources config = true ∧
      ∃ name, path.fileName? = some name ∧ ∀ (debouncer : Debouncer) (now : Nat),
        path.IsIn (debouncer.add now event).pending ↔
          path.IsIn debouncer.pending ∨ isTemporaryName name = false := by
  obtain ⟨relevant, touches, name, named⟩ :=
    concerns_source wellFormed isSource keyed changes about
  refine ⟨relevant, touches, name, named, fun debouncer now => ?_⟩
  rw [isIn_pending_add about, isTemporary_eq named]

/-! ## Examples -/

def notesConfig : Config where
  build := { input := ⟨"/"⟩, pages := ⟨"p"⟩ }

/-- A page, and notes beside it that are rendered as well. -/
def notesFiles : FileTree :=
  ⟨[(["p"], .directory),
    (["p", "x.htm"], .file .empty),
    (["p", ".notes.htm"], .file .empty)], []⟩

theorem wellFormed_notes : notesFiles.WellFormed := by
  refine ⟨by decide, by decide, fun entry member => ?_⟩
  simp only [notesFiles, List.mem_cons, List.not_mem_nil, or_false] at member
  rcases member with rfl | rfl | rfl <;> rfl

theorem keyed_notes {name : String} (isName : name = "x.htm" ∨ name = ".notes.htm") :
    (name, notesConfig.pagesDirectory.join ⟨name⟩) ∈
      Site.keyedFiles notesFiles notesConfig.pagesDirectory := by
  have located : notesFiles.locate notesConfig.pagesDirectory = .ok ["p"] := by cbv
  refine (Site.mem_keyedFiles_iff wellFormed_notes).mpr
    ⟨[name], .empty, ⟨["p"], located, by simp, ?_, ?_⟩, by simp [Site.keyOf]⟩
  · rcases isName with rfl | rfl <;> decide
  · rcases isName with rfl | rfl <;> rfl

def pageEvent : Event :=
  ⟨.modify, [⟨"/p/x.htm"⟩]⟩

theorem notices_source_page :
    notesFiles.WellFormed ∧ notesConfig.pagesDirectory ∈ notesConfig.sourceDirectories ∧
      ("x.htm", ⟨"/p/x.htm"⟩) ∈ Site.keyedFiles notesFiles notesConfig.pagesDirectory ∧
      pageEvent.kind = .modify ∧ ⟨"/p/x.htm"⟩ ∈ pageEvent.paths ∧
      pageEvent.isRelevant = true ∧ pageEvent.touchesSources notesConfig = true ∧
      (⟨"/p/x.htm"⟩ : Path).IsIn (Debouncer.empty.add 0 pageEvent).pending := by
  have isSource : notesConfig.pagesDirectory ∈ notesConfig.sourceDirectories :=
    List.mem_cons_self
  have joined : notesConfig.pagesDirectory.join ⟨"x.htm"⟩ = ⟨"/p/x.htm"⟩ := by cbv
  have keyed := keyed_notes (.inl rfl)
  rw [joined] at keyed
  have about : (⟨"/p/x.htm"⟩ : Path) ∈ pageEvent.paths := List.mem_cons_self
  obtain ⟨relevant, touches, name, isName, gathered⟩ :=
    notices_source wellFormed_notes isSource keyed (.inr (.inl rfl)) about
  refine ⟨wellFormed_notes, isSource, keyed, rfl, about, relevant, touches,
    (gathered _ 0).mpr (.inr ?_)⟩
  have known : (⟨"/p/x.htm"⟩ : Path).fileName? = some "x.htm" := by cbv
  obtain rfl := Option.some.inj (known.symm.trans isName)
  cbv

/-- The notes are rendered, but a change of them is not gathered. -/
theorem misses_notes :
    notesFiles.WellFormed ∧ notesConfig.pagesDirectory ∈ notesConfig.sourceDirectories ∧
      (".notes.htm", ⟨"/p/.notes.htm"⟩) ∈
        Site.keyedFiles notesFiles notesConfig.pagesDirectory ∧
      ¬(⟨"/p/.notes.htm"⟩ : Path).IsIn
        (Debouncer.empty.add 0 ⟨.modify, [⟨"/p/.notes.htm"⟩]⟩).pending := by
  have joined : notesConfig.pagesDirectory.join ⟨".notes.htm"⟩ = ⟨"/p/.notes.htm"⟩ := by cbv
  have keyed := keyed_notes (.inr rfl)
  rw [joined] at keyed
  have none : (Debouncer.empty.add 0 ⟨.modify, [⟨"/p/.notes.htm"⟩]⟩).pending = [] := by cbv
  refine ⟨wellFormed_notes, List.mem_cons_self, keyed, ?_⟩
  rw [none]
  rintro ⟨other, member, -⟩
  contradiction

end Watch
end StaticSite
