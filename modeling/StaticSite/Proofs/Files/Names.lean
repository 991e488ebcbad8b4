import StaticSite.FileTree

/-!
# Names in paths

A path that is written without `..` leads through the directories with its names, one after the
other.  This file gives these names, and tells what becomes of them when paths are joined, compared
component by component, and shortened to their parents.
-/

namespace StaticSite

/-- Whether a text can be the name of a file or a directory. -/
def IsName (text : String) : Prop :=
  text ≠ "" ∧ text ≠ "." ∧ text ≠ ".." ∧ '/' ∉ text.toList

instance : DecidablePred IsName := fun text =>
  inferInstanceAs (Decidable (text ≠ "" ∧ text ≠ "." ∧ text ≠ ".." ∧ '/' ∉ text.toList))

namespace Path

/-- Whether a path is written without `..`. -/
def IsPlain (path : Path) : Prop :=
  ".." ∉ path.segments

instance (path : Path) : Decidable path.IsPlain :=
  inferInstanceAs (Decidable (".." ∉ path.segments))

/-- Whether a segment names something to go to. -/
def isStep (segment : String) : Bool :=
  segment != "" && segment != "."

/-- The segments that name something to go to. -/
def names (path : Path) : List String :=
  path.segments.filter isStep

theorem isStep_iff {segment : String} : isStep segment = true ↔ segment ≠ "" ∧ segment ≠ "." := by
  simp [isStep]

theorem isStep_eq_false_iff {segment : String} :
    isStep segment = false ↔ segment = "" ∨ segment = "." := by
  rw [isStep, Bool.and_eq_false_iff]
  simp

/-! ## Segments -/

theorem segments_ne_nil (path : Path) : path.segments ≠ [] := by
  simp [segments]

theorem text_eq_intercalate (path : Path) : path.text = String.intercalate "/" path.segments := by
  apply String.toList_inj.mp
  simp [segments, String.toList_intercalate, Function.comp_def]

theorem segments_intercalate {segments : List String} (nonempty : segments ≠ [])
    (noSlash : ∀ segment ∈ segments, '/' ∉ segment.toList) :
    (⟨String.intercalate "/" segments⟩ : Path).segments = segments := by
  have chars : (['/'].intercalate (segments.map String.toList)).splitOn '/' =
      segments.map String.toList :=
    List.splitOn_intercalate '/' (by simpa using noSlash) (by simpa using nonempty)
  simp [Path.segments, String.toList_intercalate, chars, Function.comp_def]

theorem segments_append (front back : String) :
    (⟨front ++ "/" ++ back⟩ : Path).segments =
      (⟨front⟩ : Path).segments ++ (⟨back⟩ : Path).segments := by
  simp [segments, List.splitOn_append_cons_self]

/-- No segment holds a slash. -/
theorem slash_not_mem {path : Path} {segment : String} (member : segment ∈ path.segments) :
    '/' ∉ segment.toList := by
  have pieces (chars : List Char) : ∀ piece ∈ chars.splitOn '/', '/' ∉ piece := by
    induction chars with
    | nil => simp
    | cons c rest induction =>
        rw [List.splitOn_cons_eq_if_modifyHead]
        split
        · simpa using induction
        · next differs =>
          cases split : rest.splitOn '/' with
          | nil => simp
          | cons first others =>
              rw [split] at induction
              simp only [List.mem_cons, forall_eq_or_imp, List.modifyHead_cons] at induction ⊢
              refine ⟨?_, induction.2⟩
              rintro (rfl | later)
              · exact differs (beq_self_eq_true _)
              · exact induction.1 later
  obtain ⟨piece, isPiece, rfl⟩ := List.mem_map.mp member
  simpa using pieces _ piece isPiece

/-- An absolute path begins with an empty segment, which others follow. -/
theorem isAbsolute_iff {path : Path} :
    path.isAbsolute = true ↔ ∃ rest, rest ≠ [] ∧ path.segments = "" :: rest := by
  obtain ⟨text⟩ := path
  rw [isAbsolute, String.startsWith_string_iff]
  constructor
  · rintro ⟨chars, same⟩
    obtain rfl : "" ++ "/" ++ String.ofList chars = text := by
      apply String.toList_inj.mp
      simpa using same
    exact ⟨_, segments_ne_nil _, segments_append _ _⟩
  · rintro ⟨rest, nonempty, same⟩
    have isText := text_eq_intercalate ⟨text⟩
    rw [same, String.intercalate_cons_of_ne_nil nonempty] at isText
    simp only at isText
    rw [isText]
    exact ⟨(String.intercalate "/" rest).toList, by simp⟩

/-- Names between slashes are a path with these names. -/
theorem segments_ofNames {names : List String} (nonempty : names ≠ [])
    (proper : ∀ name ∈ names, IsName name) :
    (⟨String.intercalate "/" names⟩ : Path).segments = names :=
  segments_intercalate nonempty fun name member => (proper name member).2.2.2

theorem filter_isStep {names : List String} (proper : ∀ name ∈ names, IsName name) :
    names.filter isStep = names := by
  refine List.filter_eq_self.mpr fun name member => isStep_iff.mpr ?_
  exact ⟨(proper name member).1, (proper name member).2.1⟩

/-! ## Joined paths -/

/-- Joining puts the segments of a relative path after those of a path, apart from an empty segment
at the end of that path. -/
theorem exists_segments_join {path other : Path} (nonempty : path.text ≠ "")
    (relative : other.isAbsolute = false) :
    ∃ front, (path.join other).segments = front ++ other.segments ∧
      (path.segments = front ∨ path.segments = front ++ [""]) := by
  obtain ⟨text⟩ := path
  rw [join, if_neg (by simpa [relative] using nonempty)]
  split
  · next ends =>
    rw [String.endsWith_eq_endsWith_toSlice, String.Slice.endsWith_string_iff] at ends
    obtain ⟨chars, same⟩ := ends
    obtain rfl : String.ofList chars ++ "/" ++ "" = text := by
      apply String.toList_inj.mp
      simpa using same
    refine ⟨_, ?_, .inr (segments_append _ _)⟩
    simpa using segments_append (String.ofList chars) other.text
  · exact ⟨_, segments_append text other.text, .inl rfl⟩

section

variable {path other : Path}

theorem names_join (nonempty : path.text ≠ "") (relative : other.isAbsolute = false) :
    (path.join other).names = path.names ++ other.names := by
  obtain ⟨front, joined, same | same⟩ := exists_segments_join nonempty relative
  · simp [names, joined, same]
  · simp [names, joined, same, isStep]

theorem isPlain_join (plain : path.IsPlain) (otherPlain : other.IsPlain)
    (nonempty : path.text ≠ "") (relative : other.isAbsolute = false) :
    (path.join other).IsPlain := by
  unfold IsPlain at plain
  obtain ⟨front, joined, same | same⟩ := exists_segments_join nonempty relative <;>
  · rw [same] at plain
    simp only [IsPlain, joined, List.mem_append, not_or] at plain ⊢
    exact ⟨by simp_all, otherPlain⟩

theorem isAbsolute_join (nonempty : path.text ≠ "") (relative : other.isAbsolute = false) :
    (path.join other).isAbsolute = path.isAbsolute := by
  obtain ⟨text⟩ := path
  have begins (back : String) : (text ++ back).startsWith "/" = text.startsWith "/" := by
    rw [Bool.eq_iff_iff, String.startsWith_string_iff, String.startsWith_string_iff,
      String.toList_append]
    cases chars : text.toList with
    | nil => exact absurd (String.toList_eq_nil_iff.mp chars) nonempty
    | cons c rest => simp
  rw [join, if_neg (by simpa [relative] using nonempty)]
  split
  · exact begins _
  · rw [String.append_assoc]
    exact begins _

end

/-! ## Components -/

theorem component?_of_ne {segment : String} (noParent : segment ≠ "..") :
    component? segment = if isStep segment then some (.name segment) else none := by
  unfold component?
  split
  · rfl
  · rfl
  · contradiction
  · simp_all [isStep]

theorem filterMap_component? {segments : List String} (plain : ".." ∉ segments) :
    segments.filterMap component? = (segments.filter isStep).map .name := by
  induction segments with
  | nil => rfl
  | cons segment rest induction =>
      obtain ⟨noParent, plain⟩ := List.ne_and_not_mem_of_not_mem_cons plain
      rw [List.filterMap_cons, component?_of_ne (Ne.symm noParent), List.filter_cons]
      split <;> simp_all

/-- A plain absolute path has the root and then its names as components. -/
theorem components_eq {path : Path} (plain : path.IsPlain) (absolute : path.isAbsolute = true) :
    path.components = .root :: path.names.map .name := by
  obtain ⟨rest, nonempty, segments⟩ := isAbsolute_iff.mp absolute
  have restPlain : ".." ∉ rest := by
    unfold IsPlain at plain
    rw [segments] at plain
    exact List.not_mem_of_not_mem_cons plain
  have names : path.names = rest.filter isStep := by
    rw [Path.names, segments]
    rfl
  have marks : path.marked =
      (some .root, "") :: rest.map fun segment => (component? segment, segment) := by
    simp [marked, segments, nonempty]
  rw [components, marks, names, ← filterMap_component? restPlain, List.filterMap_cons,
    List.filterMap_map]
  rfl

/-! ## Parents -/

/-- How a segment is written that stands for a component, or for none. -/
def IsWritten : Option Component × String → Prop
  | (none, segment) => isStep segment = false
  | (some .root, segment) => segment = ""
  | (some .current, segment) => segment = "."
  | (some .parent, segment) => segment = ".."
  | (some (.name text), segment) => segment = text ∧ isStep segment = true

theorem map_snd_marked (path : Path) : path.marked.map Prod.snd = path.segments := by
  unfold marked
  cases path.segments with
  | nil => rfl
  | cons first rest => simp [Function.comp_def]

theorem isWritten_component? (segment : String) : IsWritten (component? segment, segment) := by
  unfold component?
  split <;> simp_all [IsWritten, isStep]

/-- What the first segment of a path stands for, with the segments after it. -/
theorem marked_cases (path : Path) :
    ∃ component text rest, path.segments = text :: rest ∧
      path.marked =
        (component, text) :: rest.map (fun segment => (component? segment, segment)) ∧
      (component = none ∧ text = "" ∧ rest = [] ∨
        component = some .root ∧ text = "" ∧ rest ≠ [] ∨
        component = some .current ∧ text = "." ∨
        component = some .parent ∧ text = ".." ∨
        component = some (.name text) ∧ isStep text = true) := by
  cases segments : path.segments with
  | nil => exact absurd segments path.segments_ne_nil
  | cons text rest =>
      refine ⟨_, text, rest, rfl, by rw [marked, segments], ?_⟩
      by_cases isEmpty : text = ""
      · by_cases lone : rest = [] <;> simp [isEmpty, lone]
      · by_cases isCurrent : text = "."
        · simp [isCurrent]
        · by_cases isParent : text = ".."
          · simp [isParent, component?]
          · have step : isStep text = true := isStep_iff.mpr ⟨isEmpty, isCurrent⟩
            simp [isEmpty, isCurrent, step, component?_of_ne isParent]

/-- What the segments of a path tell of it.  Only the first can stand for the root or the current
directory. -/
structure StartsAs (path : Path) (first : Option Component × String)
    (rest : List (Option Component × String)) : Prop where
  marked_eq : path.marked = first :: rest
  written : IsWritten first
  isWritten : ∀ segment ∈ rest, IsWritten segment
  noRoot : ∀ segment ∈ rest, segment.1 ≠ some .root
  noCurrent : ∀ segment ∈ rest, segment.1 ≠ some .current
  isAbsolute_iff : path.isAbsolute = true ↔ first.1 = some .root
  isRoot : rest ≠ [] → first.2 = "" → first.1 = some .root
  isEmpty : first.1 = none → path.text = ""

theorem exists_startsAs (path : Path) : ∃ first rest, path.StartsAs first rest := by
  have plainly (segment : String) :
      component? segment ≠ some .root ∧ component? segment ≠ some .current := by
    unfold component?
    split <;> simp
  obtain ⟨component, text, rest, segments, marked, start⟩ := path.marked_cases
  have later {segment : Option Component × String}
      (member : segment ∈ rest.map fun text => (component? text, text)) :
      IsWritten segment ∧ segment.1 ≠ some .root ∧ segment.1 ≠ some .current := by
    obtain ⟨text, -, rfl⟩ := List.mem_map.mp member
    exact ⟨isWritten_component? text, plainly text⟩
  refine ⟨(component, text), _, marked, ?_, fun _ member => (later member).1,
    fun _ member => (later member).2.1, fun _ member => (later member).2.2, ?_, ?_, ?_⟩
  · rcases start with ⟨rfl, rfl, -⟩ | ⟨rfl, rfl, -⟩ | ⟨rfl, rfl⟩ | ⟨rfl, rfl⟩ | ⟨rfl, step⟩
    · rfl
    · rfl
    · rfl
    · rfl
    · exact ⟨rfl, step⟩
  · rw [Path.isAbsolute_iff, segments]
    rcases start with ⟨rfl, rfl, rfl⟩ | ⟨rfl, rfl, more⟩ | ⟨rfl, rfl⟩ | ⟨rfl, rfl⟩ | ⟨rfl, step⟩
    · simp
    · simpa using more
    · simp
    · simp
    · simp [(isStep_iff.mp step).1]
  · intro more isEmpty
    rcases start with ⟨-, -, rfl⟩ | ⟨isRoot, -⟩ | ⟨-, rfl⟩ | ⟨-, rfl⟩ | ⟨-, step⟩
    · contradiction
    · exact isRoot
    · simp at isEmpty
    · simp at isEmpty
    · exact absurd isEmpty (isStep_iff.mp step).1
  · intro absent
    obtain rfl : component = none := absent
    rw [text_eq_intercalate, segments]
    rcases start with ⟨-, rfl, rfl⟩ | ⟨isRoot, -⟩ | ⟨isCurrent, -⟩ | ⟨isParent, -⟩ | ⟨isName, -⟩
    · rfl
    all_goals contradiction

theorem StartsAs.segments_eq {path : Path} {first : Option Component × String}
    {rest : List (Option Component × String)} (starts : path.StartsAs first rest) :
    path.segments = (first :: rest).map Prod.snd := by
  rw [← map_snd_marked, starts.marked_eq]

theorem StartsAs.isWritten_of_mem {path : Path} {first segment : Option Component × String}
    {rest : List (Option Component × String)} (starts : path.StartsAs first rest)
    (member : segment ∈ path.marked) : IsWritten segment := by
  rw [starts.marked_eq] at member
  rcases List.mem_cons.mp member with rfl | later
  · exact starts.written
  · exact starts.isWritten segment later

/-- What is trimmed stands for no component, and what is left ends with one. -/
theorem exists_trimmedEnd (segments : List (Option Component × String)) :
    ∃ dropped, segments = trimmedEnd segments ++ dropped ∧ (∀ segment ∈ dropped, segment.1 = none) ∧
      ∀ last, (trimmedEnd segments).getLast? = some last → last.1 ≠ none := by
  let absent (segment : Option Component × String) : Bool := segment.1.isNone
  refine ⟨(segments.reverse.takeWhile absent).reverse, ?_, fun segment member => ?_,
    fun last isLast => ?_⟩
  · rw [trimmedEnd, ← List.reverse_append, List.takeWhile_append_dropWhile, List.reverse_reverse]
  · have all := List.all_eq_true.mp (List.all_takeWhile (p := absent) (l := segments.reverse))
    simpa [absent] using all segment (List.mem_reverse.mp member)
  · have kept := List.head?_dropWhile_not absent segments.reverse
    rw [trimmedEnd, List.getLast?_reverse] at isLast
    rw [isLast] at kept
    simpa [absent, Option.isSome_iff_ne_none] using kept

theorem filter_isStep_of_none {segments : List (Option Component × String)}
    (written : ∀ segment ∈ segments, IsWritten segment)
    (absent : ∀ segment ∈ segments, segment.1 = none) :
    (segments.map Prod.snd).filter isStep = [] := by
  refine List.filter_eq_nil_iff.mpr fun text member => ?_
  obtain ⟨⟨component, segment⟩, isSegment, rfl⟩ := List.mem_map.mp member
  obtain rfl : component = none := absent _ isSegment
  have := written _ isSegment
  simpa [IsWritten] using this

/-- The path of the first segments of a path has the names among them. -/
theorem ofMarked_spec {first : Option Component × String}
    {rest : List (Option Component × String)} (written : IsWritten first)
    (noSlash : ∀ segment ∈ first :: rest, '/' ∉ segment.2.toList)
    (begins : first.2 = "" → first.1 = some .root) :
    (ofMarked (first :: rest)).names = ((first :: rest).map Prod.snd).filter isStep ∧
      ((ofMarked (first :: rest)).isAbsolute = true ↔ first.1 = some .root) ∧
      (".." ∉ (first :: rest).map Prod.snd → (ofMarked (first :: rest)).IsPlain) := by
  obtain ⟨component, text⟩ := first
  by_cases lone : component = some .root ∧ rest = []
  · obtain ⟨rfl, rfl⟩ := lone
    obtain rfl : text = "" := written
    have isRoot : (⟨"/"⟩ : Path).isAbsolute = true := isAbsolute_iff.mpr ⟨[""], by decide⟩
    exact ⟨rfl, iff_of_true isRoot rfl, fun _ => by decide⟩
  · have segments : (ofMarked ((component, text) :: rest)).segments =
        ((component, text) :: rest).map Prod.snd := by
      have unfolded : ofMarked ((component, text) :: rest) =
          ⟨String.intercalate "/" (((component, text) :: rest).map Prod.snd)⟩ := by
        unfold ofMarked
        split <;> simp_all
      rw [unfolded]
      refine segments_intercalate (by simp) fun segment member => ?_
      obtain ⟨other, isOther, rfl⟩ := List.mem_map.mp member
      exact noSlash other isOther
    refine ⟨by rw [names, segments], ?_, fun plain => by rwa [IsPlain, segments]⟩
    rw [isAbsolute_iff, segments]
    constructor
    · rintro ⟨others, -, same⟩
      exact begins (List.cons.inj same).1
    · rintro rfl
      obtain rfl : text = "" := written
      exact ⟨_, by simpa using lone, rfl⟩

/-- The same for a path that is cut after some of its segments. -/
theorem ofMarked_front {path : Path} {front back : List (Option Component × String)}
    (plain : path.IsPlain) (whole : path.marked = front ++ back) (more : back ≠ [])
    (noRoot : ∀ segment ∈ back, segment.1 ≠ some .root) :
    (ofMarked front).IsPlain ∧ (ofMarked front).isAbsolute = path.isAbsolute ∧
      (ofMarked front).names = (front.map Prod.snd).filter isStep := by
  obtain ⟨first, rest, starts⟩ := exists_startsAs path
  cases front with
  | nil =>
      have relative : path.isAbsolute = false := by
        refine Bool.eq_false_iff.mpr fun isAbsolute =>
          noRoot first ?_ (starts.isAbsolute_iff.mp isAbsolute)
        rw [List.nil_append] at whole
        rw [← whole, starts.marked_eq]
        exact List.mem_cons_self
      exact ⟨by decide, relative.symm ▸ by decide, rfl⟩
  | cons start others =>
      obtain ⟨rfl, rest_eq⟩ := List.cons.inj (starts.marked_eq.symm.trans whole)
      have front_subset : (first :: others).map Prod.snd ⊆ path.segments := by
        rw [starts.segments_eq, rest_eq]
        simp
      obtain ⟨names, isAbsolute, isPlain⟩ := @ofMarked_spec first others starts.written
        (fun segment member => slash_not_mem (front_subset (List.mem_map_of_mem member)))
        (starts.isRoot (by rw [rest_eq]; simp [more]))
      exact ⟨isPlain fun member => plain (front_subset member),
        Bool.eq_iff_iff.mpr (isAbsolute.trans starts.isAbsolute_iff.symm), names⟩

/-- A path that is no longer than its root has no parent; from any other path the last component
is cut off. -/
theorem parent?_cases (path : Path) :
    (∀ segment ∈ path.marked, segment.1 = none) ∧ path.parent? = none ∨
      ∃ init component text dropped, path.marked = init ++ (some component, text) :: dropped ∧
        (∀ segment ∈ dropped, segment.1 = none) ∧
        path.parent? = if component = .root then none else some (ofMarked (trimmedEnd init)) := by
  obtain ⟨dropped, cut, absent, ends⟩ := exists_trimmedEnd path.marked
  rw [parent?]
  generalize trimmedEnd path.marked = trimmed at *
  rcases List.eq_nil_or_concat trimmed with rfl | ⟨init, ⟨component, text⟩, rfl⟩
  · rw [List.nil_append] at cut
    exact .inl ⟨cut ▸ absent, rfl⟩
  · rw [List.concat_eq_append] at cut ends
    simp only [List.concat_eq_append, List.getLast?_concat, List.dropLast_concat]
    cases component with
    | none => exact absurd rfl (ends (none, text) (by simp))
    | some component =>
        refine .inr ⟨init, component, text, dropped, by simpa using cut, absent, ?_⟩
        cases component <;> rfl

/-- The names of a path are those of its segments that stand for something. -/
theorem names_of_marked {path : Path} {kept gap dropped : List (Option Component × String)}
    {last : Option Component × String}
    (whole : path.marked = kept ++ (gap ++ last :: dropped))
    (noGap : ∀ segment ∈ gap, segment.1 = none)
    (noDropped : ∀ segment ∈ dropped, segment.1 = none) :
    path.names = (kept.map Prod.snd).filter isStep ++ [last.2].filter isStep := by
  obtain ⟨first, rest, starts⟩ := exists_startsAs path
  have gapFree : (gap.map Prod.snd).filter isStep = [] := filter_isStep_of_none
    (fun segment member => starts.isWritten_of_mem (by rw [whole]; simp [member])) noGap
  have endFree : (dropped.map Prod.snd).filter isStep = [] := filter_isStep_of_none
    (fun segment member => starts.isWritten_of_mem (by rw [whole]; simp [member])) noDropped
  rw [names, ← map_snd_marked, whole, List.map_append, List.map_append, List.map_cons,
    List.filter_append, List.filter_append, gapFree, List.nil_append, List.filter_cons, endFree]
  simp only [List.filter_cons, List.filter_nil]

/-- The parent of a plain path is plain as well, and has all names but the last. -/
theorem parent?_spec {path parent : Path} (plain : path.IsPlain)
    (isParent : path.parent? = some parent) :
    parent.IsPlain ∧ parent.isAbsolute = path.isAbsolute ∧ parent.names = path.names.dropLast := by
  obtain ⟨first, rest, starts⟩ := exists_startsAs path
  obtain ⟨-, noParent⟩ | ⟨init, component, text, dropped, cut, noDropped, found⟩ :=
    parent?_cases path
  · rw [noParent] at isParent
    contradiction
  · obtain ⟨gap, innerCut, noGap, -⟩ := exists_trimmedEnd init
    rw [found] at isParent
    split at isParent
    · contradiction
    · next noRoot =>
      obtain rfl := Option.some.inj isParent
      generalize trimmedEnd init = kept at *
      have whole : path.marked = kept ++ (gap ++ (some component, text) :: dropped) := by
        rw [cut, innerCut, List.append_assoc]
      obtain ⟨isPlain, isAbsolute, keptNames⟩ := ofMarked_front plain whole (by simp) <| by
        intro segment member
        rcases List.mem_append.mp member with inGap | later
        · simp [noGap segment inGap]
        · rcases List.mem_cons.mp later with rfl | inDropped
          · simpa using noRoot
          · simp [noDropped segment inDropped]
      refine ⟨isPlain, isAbsolute, ?_⟩
      rw [names_of_marked whole noGap noDropped, keptNames]
      have written : IsWritten (some component, text) :=
        starts.isWritten_of_mem (by rw [cut]; simp)
      cases component with
      | root => contradiction
      | current =>
          -- only the first segment stands for the current directory, so that nothing is kept
          cases kept with
          | nil =>
              obtain rfl : text = "." := written
              rfl
          | cons start others =>
              have later : (some Component.current, text) ∈ rest := by
                rw [(List.cons.inj (starts.marked_eq.symm.trans whole)).2]
                simp
              exact absurd rfl (starts.noCurrent _ later)
      | parent =>
          obtain rfl : text = ".." := written
          refine absurd ?_ plain
          rw [← map_snd_marked, cut]
          simp
      | name => simp [written.2]

/-- Only the root and the empty path have no parent. -/
theorem of_parent?_eq_none {path : Path} (isText : path.text ≠ "")
    (noParent : path.parent? = none) :
    path.isAbsolute = true ∧ path.names = [] := by
  obtain ⟨first, rest, starts⟩ := exists_startsAs path
  obtain ⟨absent, -⟩ | ⟨init, component, text, dropped, cut, noDropped, found⟩ :=
    parent?_cases path
  · have isFirst : first ∈ path.marked := starts.marked_eq ▸ List.mem_cons_self
    exact absurd (starts.isEmpty (absent first isFirst)) isText
  · rw [found] at noParent
    split at noParent
    · next isRoot =>
      subst isRoot
      rw [starts.marked_eq] at cut
      cases init with
      | nil =>
          obtain ⟨rfl, rfl⟩ := List.cons.inj cut
          refine ⟨starts.isAbsolute_iff.mpr rfl, ?_⟩
          obtain rfl : text = "" := starts.written
          rw [names, starts.segments_eq, List.map_cons, List.filter_cons,
            filter_isStep_of_none starts.isWritten noDropped]
          rfl
      | cons start others =>
          have later : (some Component.root, text) ∈ rest := by
            rw [(List.cons.inj cut).2]
            simp
          exact absurd rfl (starts.noRoot _ later)
    · contradiction

/-- So has every path above it the first of its names. -/
theorem ancestors_spec {path above : Path} (plain : path.IsPlain)
    (member : above ∈ path.ancestors) :
    above.IsPlain ∧ above.isAbsolute = path.isAbsolute ∧ above.names <+: path.names := by
  have upward (count : Nat) (path : Path) (plain : path.IsPlain)
      (member : above ∈ ancestors.go count path) :
      above.IsPlain ∧ above.isAbsolute = path.isAbsolute ∧ above.names <+: path.names := by
    induction count generalizing path with
    | zero =>
        obtain rfl := List.mem_singleton.mp member
        exact ⟨plain, rfl, List.prefix_refl _⟩
    | succ count induction =>
        rcases List.mem_cons.mp member with rfl | higher
        · exact ⟨plain, rfl, List.prefix_refl _⟩
        · cases isParent : path.parent? with
          | none => simp [isParent] at higher
          | some parent =>
              rw [isParent] at higher
              obtain ⟨isPlain, isAbsolute, names⟩ := parent?_spec plain isParent
              obtain ⟨abovePlain, aboveAbsolute, aboveNames⟩ := induction parent isPlain higher
              refine ⟨abovePlain, aboveAbsolute.trans isAbsolute, aboveNames.trans ?_⟩
              exact names ▸ List.dropLast_prefix _
  exact upward _ path plain member

theorem exists_ancestors_eq (path : Path) : ∃ rest, path.ancestors = path :: rest := by
  unfold ancestors
  cases path.components.length with
  | zero => exact ⟨[], rfl⟩
  | succ count => exact ⟨_, rfl⟩

end Path

/-! ## Places -/

namespace Place

variable {place : Place}

theorem segments_toPath (proper : ∀ name ∈ place, IsName name) :
    place.toPath.segments = "" :: if place = [] then [""] else place := by
  rw [toPath]
  have text : "/" ++ String.intercalate "/" place = "" ++ "/" ++ String.intercalate "/" place := rfl
  rw [text, Path.segments_append]
  cases place with
  | nil => rfl
  | cons name rest =>
      rw [Path.segments_ofNames (List.cons_ne_nil _ _) proper, if_neg (List.cons_ne_nil _ _)]
      rfl

theorem isPlain_toPath (proper : ∀ name ∈ place, IsName name) : place.toPath.IsPlain := by
  rw [Path.IsPlain, segments_toPath proper]
  split
  · decide
  · intro member
    rcases List.mem_cons.mp member with isEmpty | isName
    · contradiction
    · exact (proper _ isName).2.2.1 rfl

theorem isAbsolute_toPath (place : Place) : place.toPath.isAbsolute = true := by
  rw [Path.isAbsolute, toPath, String.startsWith_string_iff]
  exact ⟨(String.intercalate "/" place).toList, by simp⟩

end Place

end StaticSite
