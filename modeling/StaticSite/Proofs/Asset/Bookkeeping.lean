import StaticSite.Proofs.Asset.Termination

/-!
# What a graph records

After every history of operations, on files that change in any way between them, the tables of a
graph tell what was done: which assets were registered and by which path first, and which were
decoded, be it by an operation itself or by an import deep within one.  What was recorded once
stays, so that an asset that was decoded is given again whatever has become of its file.
-/

namespace StaticSite

/-- Whether a run asks for the asset with a key, and what it is given. -/
def Run.Resolves (files : FileTree) (run : Run) (key : String)
    (result : Except RenderError Asset) : Prop :=
  ∃ graph address scope resume frames,
    run.Reaches files ⟨graph, .asking address scope key resume, frames⟩ ∧
      (graph.resolve files key).2 = result

/-- The key and the path of an asset that an operation registers, or tries to register. -/
def Operation.registers? : Operation → Option (String × Path)
  | registerTemplate key path | registerPage key path => some (key, path)
  | _ => none

/-- The path by which a key was first registered in the course of a history. -/
def firstPath? (history : List (FileTree × Operation)) (key : String) : Option Path :=
  (history.filterMap fun entry => entry.2.registers?).lookup key

namespace Graph

/-- Whether one of some keys is asked for, when those before it have been given, and what is given
for it. -/
def ResolvesOneOf (graph : Graph) (files : FileTree) (keys : List String) (key : String)
    (result : Except RenderError Asset) : Prop :=
  ∃ front back later pages, keys = front ++ key :: back ∧
    graph.resolveEach files front = (later, .ok pages) ∧ (later.resolve files key).2 = result

/-- Whether an operation asks for the asset with a key, and what it is given. -/
def Resolves (graph : Graph) (files : FileTree) (operation : Operation) (key : String)
    (result : Except RenderError Asset) : Prop :=
  match operation with
  | .registerTemplate .. | .registerPage .. | .unused => False
  | .resolve asked => asked = key ∧ (graph.resolve files key).2 = result
  | .resolvePages => graph.ResolvesOneOf files
      (graph.pages.mergeSort fun key other => decide (key ≤ other)) key result
  | .renderPage page => (graph.pageRun page).Resolves files key result
  | .bakeAsset asked scope => (graph.assetRun [] scope asked).Resolves files key result

/-- Whether an operation is a registration that is refused with an error. -/
def Refuses (graph : Graph) (operation : Operation) (error : RenderError) : Prop :=
  match operation with
  | .registerTemplate key path => (graph.addTemplate key path).2 = .error error
  | .registerPage key path => (graph.addPage key path).2 = .error error
  | _ => False

/-- Whether an asset was decoded in the course of a history: an operation, on the graph as it was
then, has asked for it and got it. -/
def Decodes (formats : List Format) (history : List (FileTree × Operation)) (key : String)
    (asset : Asset) : Prop :=
  ∃ before files operation after, history = before ++ (files, operation) :: after ∧
    ((empty formats).performAll before).Resolves files operation key (.ok asset)

/-- What the tables of a graph tell of the history that has led to it. -/
structure Records (formats : List Format) (history : List (FileTree × Operation)) (graph : Graph) :
    Prop where
  /-- No key is registered twice. -/
  distinct : graph.keys.Nodup
  pages : graph.pages ⊆ graph.keys
  decoded : graph.decoded.map Prod.fst ⊆ graph.keys
  /-- A registration is refused if its key was registered before, with the path of that time and
  the one that is refused. -/
  refused : ∀ operation key path error, operation.registers? = some (key, path) →
    (graph.Refuses operation error ↔
      ∃ first, firstPath? history key = some first ∧ error = .duplicateAsset key first path)
  /-- A refused registration leaves everything as it was. -/
  unchanged : ∀ files operation error, graph.Refuses operation error →
    graph.perform files operation = graph
  failing : ∀ files key error, (graph.resolve files key).2 = .error error →
    (graph.resolve files key).1 = graph
  /-- Within an operation an asset is the same whenever it is asked for. -/
  steady : ∀ files operation key result other, graph.Resolves files operation key result →
    graph.Resolves files operation key other → result = other
  /-- What was decoded once is given from then on, whatever becomes of its file. -/
  kept : ∀ key asset, Decodes formats history key asset → ∀ later files,
    (graph.performAll later).resolve files key = (graph.performAll later, .ok asset) ∧
      ∀ operation result, (graph.performAll later).Resolves files operation key result →
        result = .ok asset
  sorted : (graph.unused.map Prod.fst).Pairwise (· < ·)
  unused : ∀ key path, (key, path) ∈ graph.unused ↔
    firstPath? history key = some path ∧ ∀ asset, ¬Decodes formats history key asset
  /-- A registered asset that is not told to be unused is never told to be. -/
  gone : ∀ key ∈ graph.keys, key ∉ graph.unused.map Prod.fst → ∀ later,
    key ∉ (graph.performAll later).unused.map Prod.fst

variable {files : FileTree} {graph later : Graph} {key other : String} {asset : Asset}

/-! ## Tables of decoded assets -/

/-- Resolving keeps an asset if it is given, and nothing else. -/
theorem lookup_resolve_iff :
    (graph.resolve files other).1.decoded.lookup key = some asset ↔
      graph.decoded.lookup key = some asset ∨
        other = key ∧ (graph.resolve files key).2 = .ok asset := by
  by_cases same : other = key
  · subst same
    simp only [resolve]
    cases kept : graph.decoded.lookup other with
    | some old => simp [kept]
    | none =>
        cases graph.paths.lookup other with
        | none => simp [kept]
        | some path =>
            cases read : graph.decode files other path with
            | error error => simp [kept, read]
            | ok found => simp [kept, read, List.lookup_append]
  · simp only [resolve]
    cases graph.decoded.lookup other with
    | some old => simp [same]
    | none =>
        cases graph.paths.lookup other with
        | none => simp [same]
        | some path =>
            cases read : graph.decode files other path with
            | error error => simp [same, read]
            | ok found =>
              have differs : (key == other) = false := beq_false_of_ne (Ne.symm same)
              simp [same, read, List.lookup_append, List.lookup_cons, differs]

/-- An asset that is not given is not kept. -/
theorem resolve_eq_self_of_error {error : RenderError}
    (failed : (graph.resolve files key).2 = .error error) :
    (graph.resolve files key).1 = graph := by
  simp only [resolve] at failed ⊢
  split
  · rfl
  · split
    · rfl
    · next path place =>
      split
      · rfl
      · next kept _ read => simp [*] at failed

theorem resolvesOneOf_cons_iff {first : String} {rest : List String}
    {result : Except RenderError Asset} :
    graph.ResolvesOneOf files (first :: rest) key result ↔
      first = key ∧ (graph.resolve files key).2 = result ∨
        ∃ middle found, graph.resolve files first = (middle, .ok found) ∧
          middle.ResolvesOneOf files rest key result := by
  constructor
  · rintro ⟨front, back, later, pages, whole, given, resolved⟩
    cases front with
    | nil =>
        obtain ⟨rfl, rfl⟩ := List.cons.inj whole
        obtain ⟨rfl, -⟩ := Prod.mk.inj given
        exact .inl ⟨rfl, resolved⟩
    | cons head front =>
        obtain ⟨rfl, rfl⟩ := List.cons.inj whole
        rw [resolveEach] at given
        cases step : graph.resolve files first with
        | mk middle outcome =>
            cases outcome with
            | error error => simp [step] at given
            | ok found =>
                refine .inr ⟨middle, found, rfl, front, back, ?_⟩
                cases others : middle.resolveEach files front with
                | mk last listed =>
                    cases listed with
                    | error error => simp [step, others, Except.map] at given
                    | ok more =>
                        obtain ⟨rfl, -⟩ : last = later ∧ _ := by
                          simpa [step, others, Except.map] using given
                        exact ⟨last, more, rfl, rfl, resolved⟩
  · rintro (⟨rfl, resolved⟩ |
      ⟨middle, found, step, front, back, later, pages, rfl, given, resolved⟩)
    · exact ⟨[], rest, graph, [], rfl, rfl, resolved⟩
    · refine ⟨first :: front, back, later, ⟨first, found⟩ :: pages, rfl, ?_, resolved⟩
      simp [resolveEach, step, given, Except.map]

theorem lookup_resolveEach_iff {keys : List String} :
    (graph.resolveEach files keys).1.decoded.lookup key = some asset ↔
      graph.decoded.lookup key = some asset ∨ graph.ResolvesOneOf files keys key (.ok asset) := by
  induction keys generalizing graph with
  | nil => simp [resolveEach, ResolvesOneOf]
  | cons first rest induction =>
      have kept := @lookup_resolve_iff files graph key first asset
      rw [resolvesOneOf_cons_iff, resolveEach]
      cases step : graph.resolve files first with
      | mk middle outcome =>
          rw [step] at kept
          cases outcome with
          | error error => simpa using kept
          | ok found =>
              simp only [induction, kept, Prod.mk.injEq, Except.ok.injEq, or_assoc, ↓existsAndEq,
                true_and]

end Graph

namespace Run

variable {files : FileTree} {run later : Run} {key : String} {asset : Asset}

/-- A step keeps an asset if the run asks for it and gets it, and nothing else. -/
theorem lookup_next_iff (step : run.next files = .continues later) :
    later.graph.decoded.lookup key = some asset ↔
      run.graph.decoded.lookup key = some asset ∨
        ∃ address scope resume, run.current = .asking address scope key resume ∧
          (run.graph.resolve files key).2 = .ok asset := by
  obtain ⟨graph, current, frames⟩ := run
  cases current with
  | ended result =>
      cases frames with
      | nil => simp [next] at step
      | cons frame frames =>
          obtain rfl := Progress.continues.inj step
          simp [leave, Graph.pop]
  | asking address scope asked resume =>
      have kept := @Graph.lookup_resolve_iff files graph key asked asset
      simp only [next] at step
      cases resolved : graph.resolve files asked with
      | mk middle outcome =>
          rw [resolved] at step kept
          cases outcome with
          | error error =>
              obtain rfl := Progress.continues.inj step
              simpa using kept
          | ok found =>
              obtain rfl := Progress.continues.inj step
              have entered : (enter middle asked found address scope resume frames).graph.decoded =
                  middle.decoded := by
                unfold enter
                split <;> rfl
              rw [entered]
              simpa using kept

theorem graph_eq_of_next_eq_finished {graph : Graph} {result : Except RenderError Value}
    (last : run.next files = .finished graph result) : run.graph = graph := by
  obtain ⟨before, _ | ⟨address, scope, key, resume⟩, _ | ⟨frame, frames⟩⟩ := run
  · exact (Progress.finished.inj last).1
  all_goals
    simp only [next] at last
    first
    | contradiction
    | split at last <;> contradiction

theorem lookup_of_reaches (reach : run.Reaches files later)
    (kept : run.graph.decoded.lookup key = some asset) :
    later.graph.decoded.lookup key = some asset :=
  reach.induction kept fun _ _ step kept => (lookup_next_iff step).mpr (.inl kept)

theorem lookup_finish_of_some (kept : run.graph.decoded.lookup key = some asset) :
    (run.finish files).1.decoded.lookup key = some asset := by
  obtain ⟨last, final, result, reach, finished⟩ := run.finishes files
  rw [finish_of_reaches reach, finish_of_next_eq_finished finished]
  rw [← graph_eq_of_next_eq_finished finished]
  exact lookup_of_reaches reach kept

/-- A run keeps the assets that it asks for and gets, and nothing else. -/
theorem lookup_finish_iff :
    (run.finish files).1.decoded.lookup key = some asset ↔
      run.graph.decoded.lookup key = some asset ∨ run.Resolves files key (.ok asset) := by
  constructor
  · intro kept
    obtain ⟨last, final, result, reach, finished⟩ := run.finishes files
    rw [finish_of_reaches reach, finish_of_next_eq_finished finished] at kept
    rw [← graph_eq_of_next_eq_finished finished] at kept
    -- whatever a run on the way has kept was there before or was asked for
    have onward := reach.induction
      (motive := fun point => run.Reaches files point ∧
        (point.graph.decoded.lookup key = some asset →
          run.graph.decoded.lookup key = some asset ∨ run.Resolves files key (.ok asset)))
      ⟨.refl run, .inl⟩ fun point next step ⟨toPoint, origin⟩ => by
        refine ⟨toPoint.trans (.head step (.refl next)), fun kept => ?_⟩
        rcases (lookup_next_iff step).mp kept with before | ⟨address, scope, resume, asks, given⟩
        · exact origin before
        · obtain ⟨graph, current, frames⟩ := point
          obtain rfl := asks
          exact .inr ⟨graph, address, scope, resume, frames, toPoint, given⟩
    exact onward.2 kept
  · rintro (before | ⟨graph, address, scope, resume, frames, reach, given⟩)
    · exact lookup_finish_of_some before
    · cases resolved : graph.resolve files key with
      | mk middle outcome =>
          obtain rfl : outcome = .ok asset := by rw [← given, resolved]
          have step : next files ⟨graph, .asking address scope key resume, frames⟩ =
              .continues (enter middle key asset address scope resume frames) := by
            simp only [next, resolved]
          rw [finish_of_reaches (reach.trans (.head step (.refl _)))]
          exact lookup_finish_of_some
            ((lookup_next_iff step).mpr (.inr ⟨address, scope, resume, rfl, given⟩))

/-- All along a run its graph has the assets of one library. -/
theorem yields_of_reaches {library : Library} (reach : run.Reaches files later)
    (yields : run.graph.Yields files library) : later.graph.Yields files library := by
  refine reach.induction (motive := fun point => point.graph.Yields files library) yields
    fun point next step yields => ?_
  obtain ⟨graph, current, frames⟩ := point
  cases current with
  | ended result =>
      cases frames with
      | nil => simp [Run.next] at step
      | cons frame frames =>
          obtain rfl := Progress.continues.inj step
          exact yields
  | asking address scope key resume =>
      simp only [Run.next, yields.resolve key] at step
      cases found : library.resolve key with
      | error error =>
          rw [found] at step
          obtain rfl := Progress.continues.inj step
          exact yields.keep [key]
      | ok asset =>
          rw [found] at step
          obtain rfl := Progress.continues.inj step
          unfold enter
          split
          · exact yields.keep [key]
          · exact (yields.keep [key]).push key

/-- A run is given what the library of its graph has. -/
theorem Resolves.eq_library {result : Except RenderError Asset}
    (resolves : run.Resolves files key result) :
    result = (run.graph.library files).resolve key := by
  obtain ⟨graph, address, scope, resume, frames, reach, rfl⟩ := resolves
  rw [(yields_of_reaches reach (run.graph.yields_library files)).resolve key]

end Run

namespace Graph

variable {files : FileTree} {graph : Graph} {key : String} {asset : Asset} {formats : List Format}
  {history : List (FileTree × Operation)} {operation : Operation}

/-! ## What operations record -/

theorem decoded_pageRun (graph : Graph) (page : Page) :
    (graph.pageRun page).graph.decoded = graph.decoded := by
  unfold pageRun Run.enter
  split <;> rfl

theorem library_pageRun (graph : Graph) (files : FileTree) (page : Page) :
    (graph.pageRun page).graph.library files = graph.library files := by
  unfold pageRun Run.enter
  split <;> rfl

/-- An operation keeps the assets that it asks for and gets, and nothing else. -/
theorem lookup_perform_iff :
    (graph.perform files operation).decoded.lookup key = some asset ↔
      graph.decoded.lookup key = some asset ∨
        graph.Resolves files operation key (.ok asset) := by
  cases operation with
  | registerTemplate other path =>
      obtain ⟨paths, pages, same⟩ :=
        graph.exists_perform_registration files (.registerTemplate other path) rfl
      rw [same graph.decoded]
      simp [Resolves]
  | registerPage other path =>
      obtain ⟨paths, pages, same⟩ :=
        graph.exists_perform_registration files (.registerPage other path) rfl
      rw [same graph.decoded]
      simp [Resolves]
  | resolve asked => exact lookup_resolve_iff
  | resolvePages => exact lookup_resolveEach_iff
  | renderPage page =>
      have ends := @Run.lookup_finish_iff files (graph.pageRun page) key asset
      rw [decoded_pageRun] at ends
      exact ends
  | bakeAsset asked scope => exact Run.lookup_finish_iff
  | unused => simp [perform, Resolves]

/-- An operation is given what the library of the graph has. -/
theorem Resolves.eq_library {result : Except RenderError Asset}
    (resolves : graph.Resolves files operation key result) :
    result = (graph.library files).resolve key := by
  cases operation with
  | registerTemplate | registerPage | unused => exact resolves.elim
  | resolve asked =>
      obtain ⟨-, rfl⟩ := resolves
      rw [resolve_eq]
  | resolvePages =>
      obtain ⟨front, back, later, pages, -, given, rfl⟩ := resolves
      obtain ⟨kept, same⟩ :=
        graph.exists_keep_resolveEach files (graph.yields_library files) front
      obtain rfl : graph.keep (graph.library files) kept = later := by rw [← same, given]
      rw [((graph.yields_library files).keep kept).resolve key]
  | renderPage page =>
      have found := Run.Resolves.eq_library resolves
      rwa [library_pageRun] at found
  | bakeAsset asked scope => exact Run.Resolves.eq_library resolves

/-! ## What operations register -/

theorem addTemplate_eq_error_iff {path : Path} {error : RenderError} :
    (graph.addTemplate key path).2 = .error error ↔
      ∃ old, graph.paths.lookup key = some old ∧ error = .duplicateAsset key old path := by
  cases place : graph.paths.lookup key with
  | none => simp [addTemplate_of_none place]
  | some old => simp [addTemplate_of_some place, eq_comm]

theorem addPage_eq_error_iff {path : Path} {error : RenderError} :
    (graph.addPage key path).2 = .error error ↔
      ∃ old, graph.paths.lookup key = some old ∧ error = .duplicateAsset key old path := by
  cases place : graph.paths.lookup key with
  | none => simp [addPage_of_none place]
  | some old => simp [addPage_of_some place, eq_comm]

/-- A registration is refused if its key is there. -/
theorem refuses_iff {path : Path} {error : RenderError}
    (isEntry : operation.registers? = some (key, path)) :
    graph.Refuses operation error ↔
      ∃ old, graph.paths.lookup key = some old ∧ error = .duplicateAsset key old path := by
  cases operation with
  | registerTemplate =>
      obtain ⟨rfl, rfl⟩ := Prod.mk.inj (Option.some.inj isEntry)
      exact addTemplate_eq_error_iff
  | registerPage =>
      obtain ⟨rfl, rfl⟩ := Prod.mk.inj (Option.some.inj isEntry)
      exact addPage_eq_error_iff
  | resolve | resolvePages | renderPage | bakeAsset | unused => contradiction

/-- A refused registration has changed nothing, for the key is looked up first. -/
theorem Refuses.perform_eq {error : RenderError} (refuses : graph.Refuses operation error)
    (files : FileTree) : graph.perform files operation = graph := by
  cases operation with
  | registerTemplate key path =>
      obtain ⟨old, taken, -⟩ := addTemplate_eq_error_iff.mp refuses
      exact congrArg Prod.fst (addTemplate_of_some taken path)
  | registerPage key path =>
      obtain ⟨old, taken, -⟩ := addPage_eq_error_iff.mp refuses
      exact congrArg Prod.fst (addPage_of_some taken path)
  | resolve | resolvePages | renderPage | bakeAsset | unused => exact refuses.elim

/-- An operation registers nothing, or a key that was not registered; a page is listed as well. -/
theorem registers_cases (graph : Graph) (files : FileTree) (operation : Operation) :
    (graph.perform files operation).paths = graph.paths ∧
        (graph.perform files operation).pages = graph.pages ∧
        (∀ key path, operation.registers? = some (key, path) → (graph.paths.lookup key).isSome) ∨
      ∃ key path, operation.registers? = some (key, path) ∧ graph.paths.lookup key = none ∧
        (graph.perform files operation).paths = graph.paths ++ [(key, path)] ∧
        (graph.perform files operation).pages ⊆ graph.pages ++ [key] := by
  have unregistered (noRegistration : operation.isRegistration = false)
      (noEntry : operation.registers? = none) :
      (graph.perform files operation).paths = graph.paths ∧
        (graph.perform files operation).pages = graph.pages ∧
        ∀ key path, operation.registers? = some (key, path) → (graph.paths.lookup key).isSome := by
    obtain ⟨kept, same⟩ := graph.exists_keep_perform files operation noRegistration
    rw [same]
    exact ⟨rfl, rfl, by simp [noEntry]⟩
  cases operation with
  | registerTemplate key path =>
      cases place : graph.paths.lookup key with
      | some old =>
          have refused : graph.perform files (.registerTemplate key path) = graph :=
            congrArg Prod.fst (addTemplate_of_some place path)
          refine .inl ⟨by rw [refused], by rw [refused], fun name file entry => ?_⟩
          obtain ⟨rfl, -⟩ := Prod.mk.inj (Option.some.inj entry)
          exact Option.isSome_of_eq_some place
      | none =>
          have added : graph.perform files (.registerTemplate key path) =
              { graph with paths := graph.paths ++ [(key, path)] } :=
            congrArg Prod.fst (addTemplate_of_none place path)
          exact .inr ⟨key, path, rfl, place, by rw [added],
            by rw [added]; exact List.subset_append_left _ _⟩
  | registerPage key path =>
      cases place : graph.paths.lookup key with
      | some old =>
          have refused : graph.perform files (.registerPage key path) = graph :=
            congrArg Prod.fst (addPage_of_some place path)
          refine .inl ⟨by rw [refused], by rw [refused], fun name file entry => ?_⟩
          obtain ⟨rfl, -⟩ := Prod.mk.inj (Option.some.inj entry)
          exact Option.isSome_of_eq_some place
      | none =>
          have added : graph.perform files (.registerPage key path) =
              { graph with
                paths := graph.paths ++ [(key, path)], pages := graph.pages ++ [key] } :=
            congrArg Prod.fst (addPage_of_none place path)
          exact .inr ⟨key, path, rfl, place, by rw [added],
            by rw [added]; exact List.Subset.refl _⟩
  | resolve | resolvePages | renderPage | bakeAsset | unused => exact .inl (unregistered rfl rfl)

/-- A graph that has registered every key once, those of its pages among them. -/
structure Registered (graph : Graph) : Prop where
  distinct : graph.keys.Nodup
  pages : graph.pages ⊆ graph.keys

theorem registered_empty (formats : List Format) : (empty formats).Registered :=
  ⟨List.nodup_nil, List.nil_subset _⟩

theorem Registered.perform (registered : graph.Registered) (files : FileTree)
    (operation : Operation) : (graph.perform files operation).Registered := by
  rcases graph.registers_cases files operation with
    ⟨paths, pages, -⟩ | ⟨key, path, -, free, paths, pages⟩
  · exact ⟨by rw [keys, paths]; exact registered.distinct,
      by rw [keys, paths, pages]; exact registered.pages⟩
  · have isNew : key ∉ graph.keys := by
      intro member
      obtain ⟨⟨name, old⟩, listed, rfl⟩ := List.mem_map.mp member
      simpa using List.lookup_eq_none_iff.mp free _ listed
    have listed : (graph.perform files operation).keys = graph.keys ++ [key] := by
      simp [keys, paths]
    refine ⟨?_, ?_⟩
    · rw [listed, ← List.concat_eq_append]
      exact registered.distinct.concat isNew
    · rw [listed]
      refine List.Subset.trans pages (List.append_subset.mpr ⟨?_, ?_⟩)
      · exact List.Subset.trans registered.pages (List.subset_append_left _ _)
      · exact List.subset_append_right _ _

/-- An operation adds the key that it registers, unless the key is there. -/
theorem lookup_paths_perform (graph : Graph) (files : FileTree) (operation : Operation)
    (key : String) :
    (graph.perform files operation).paths.lookup key =
      (graph.paths.lookup key).or (operation.registers?.toList.lookup key) := by
  rcases graph.registers_cases files operation with
    ⟨paths, -, taken⟩ | ⟨name, path, isEntry, -, paths, -⟩
  · rw [paths]
    cases isEntry : operation.registers? with
    | none => simp
    | some entry =>
        obtain ⟨name, path⟩ := entry
        by_cases same : key = name
        · obtain ⟨old, place⟩ := Option.isSome_iff_exists.mp (taken name path isEntry)
          simp [same, place]
        · simp [List.lookup_cons, beq_false_of_ne same]
  · rw [paths, isEntry, List.lookup_append]
    rfl

/-! ## Histories -/

theorem performAll_append (graph : Graph) (history later : List (FileTree × Operation)) :
    graph.performAll (history ++ later) = (graph.performAll history).performAll later :=
  List.foldl_append

theorem firstPath?_concat (history : List (FileTree × Operation)) (files : FileTree)
    (operation : Operation) (key : String) :
    firstPath? (history ++ [(files, operation)]) key =
      (firstPath? history key).or (operation.registers?.toList.lookup key) := by
  rw [firstPath?, List.filterMap_append, List.lookup_append, firstPath?]
  cases entry : operation.registers? <;> simp [entry]

theorem decodes_concat_iff :
    Decodes formats (history ++ [(files, operation)]) key asset ↔
      Decodes formats history key asset ∨
        ((empty formats).performAll history).Resolves files operation key (.ok asset) := by
  constructor
  · rintro ⟨before, older, asked, after, whole, resolves⟩
    rcases List.eq_nil_or_concat after with rfl | ⟨front, last, rfl⟩
    · obtain ⟨rfl, same⟩ := List.append_inj' whole rfl
      obtain ⟨rfl, rfl⟩ := Prod.mk.inj (List.singleton_inj.mp same)
      exact .inr resolves
    · rw [List.concat_eq_append, ← List.cons_append, ← List.append_assoc] at whole
      exact .inl ⟨before, older, asked, front, (List.append_inj' whole rfl).1, resolves⟩
  · rintro (⟨before, older, asked, after, rfl, resolves⟩ | resolves)
    · exact ⟨before, older, asked, after ++ [(files, operation)], by simp, resolves⟩
    · exact ⟨history, files, operation, [], rfl, resolves⟩

theorem Decodes.append (decodes : Decodes formats history key asset)
    (later : List (FileTree × Operation)) : Decodes formats (history ++ later) key asset := by
  obtain ⟨before, files, operation, after, rfl, resolves⟩ := decodes
  exact ⟨before, files, operation, after ++ later, by simp, resolves⟩

theorem registered_performAll (formats : List Format) (history : List (FileTree × Operation)) :
    ((empty formats).performAll history).Registered := by
  induction history using List.reverseRecOn with
  | nil => exact registered_empty formats
  | append_singleton history entry induction =>
      rw [performAll_append]
      exact induction.perform entry.1 entry.2

/-- The registered path of a key is the one by which it was registered first. -/
theorem lookup_paths_performAll (formats : List Format) (history : List (FileTree × Operation))
    (key : String) :
    ((empty formats).performAll history).paths.lookup key = firstPath? history key := by
  induction history using List.reverseRecOn with
  | nil => rfl
  | append_singleton history entry induction =>
      rw [performAll_append, firstPath?_concat, ← induction]
      exact lookup_paths_perform _ entry.1 entry.2 key

/-- The assets that are kept are those that were decoded. -/
theorem lookup_decoded_performAll :
    ((empty formats).performAll history).decoded.lookup key = some asset ↔
      Decodes formats history key asset := by
  induction history using List.reverseRecOn with
  | nil => simp [performAll, empty, Decodes]
  | append_singleton history entry induction =>
      rw [performAll_append, decodes_concat_iff, ← induction]
      exact lookup_perform_iff

/-- The unused assets are the registered ones that are not kept. -/
theorem mem_unused_iff (distinct : graph.keys.Nodup) {path : Path} :
    (key, path) ∈ graph.unused ↔
      graph.paths.lookup key = some path ∧ graph.decoded.lookup key = none := by
  rw [unused, List.mem_mergeSort, List.mem_filter, Option.isNone_iff_eq_none]
  refine and_congr_left fun _ => ⟨fun listed => ?_, fun found => ?_⟩
  · obtain ⟨front, back, whole⟩ := List.append_of_mem listed
    refine List.lookup_eq_some_iff.mpr ⟨front, back, whole, fun entry earlier => ?_⟩
    rw [keys, whole, List.map_append, List.nodup_append] at distinct
    exact bne_iff_ne.mpr
      (distinct.2.2 entry.1 (List.mem_map_of_mem earlier) key (List.mem_cons_self ..)).symm
  · obtain ⟨front, back, whole, -⟩ := List.lookup_eq_some_iff.mp found
    rw [whole]
    exact List.mem_append_right front (List.mem_cons_self ..)

/-- Unused assets are told in the order of their keys, each once. -/
theorem sorted_unused (distinct : graph.keys.Nodup) :
    (graph.unused.map Prod.fst).Pairwise (· < ·) := by
  have inOrder : (graph.unused.map Prod.fst).Pairwise (· ≤ ·) := by
    have sorted := @List.pairwise_mergeSort (String × Path)
      (fun entry other => decide (entry.1 ≤ other.1))
      (fun first second third => by simpa using String.le_trans)
      (fun first second => by simpa using String.le_total first.1 second.1)
      (graph.paths.filter fun entry => (graph.decoded.lookup entry.1).isNone)
    exact List.pairwise_map.mpr (sorted.imp fun before => of_decide_eq_true before)
  have once : (graph.unused.map Prod.fst).Nodup :=
    (((List.mergeSort_perm _ _).map Prod.fst).nodup_iff).mpr
      (distinct.sublist (List.filter_sublist.map Prod.fst))
  exact (inOrder.and once).imp fun ⟨before, differ⟩ => lt_of_le_of_ne before differ

theorem mem_keys_iff : key ∈ graph.keys ↔ ∃ path, graph.paths.lookup key = some path := by
  rw [← Option.isSome_iff_exists, List.lookup_isSome_iff, keys, List.mem_map]
  exact exists_congr fun entry => and_congr_right fun _ => eq_comm.trans beq_iff_eq.symm

/-- After every history the tables of a graph tell what was done. -/
theorem records_performAll (formats : List Format) (history : List (FileTree × Operation)) :
    Records formats history ((empty formats).performAll history) := by
  have registered := registered_performAll formats history
  have known := ((idle_empty formats).performAll history).known
  constructor
  case distinct => exact registered.distinct
  case pages => exact registered.pages
  case decoded =>
    intro key member
    obtain ⟨entry, listed, rfl⟩ := List.mem_map.mp member
    have found : (((empty formats).performAll history).decoded.lookup entry.1).isSome :=
      List.lookup_isSome_iff.mpr ⟨entry, listed, beq_self_eq_true entry.1⟩
    obtain ⟨asset, kept⟩ := Option.isSome_iff_exists.mp found
    exact known entry.1 asset kept
  case refused =>
    intro operation key path error isEntry
    rw [refuses_iff isEntry]
    simp only [lookup_paths_performAll]
  case unchanged => exact fun files operation error refuses => refuses.perform_eq files
  case failing => exact fun files key error => resolve_eq_self_of_error
  case steady =>
    exact fun files operation key result other resolves again =>
      resolves.eq_library.trans again.eq_library.symm
  case kept =>
    intro key asset decodes later files
    have kept : (((empty formats).performAll history).performAll later).decoded.lookup key =
        some asset := by
      rw [← performAll_append]
      exact lookup_decoded_performAll.mpr (decodes.append later)
    refine ⟨resolve_of_kept kept files, fun operation result resolves => ?_⟩
    rw [resolves.eq_library, resolve_library, kept]
  case sorted => exact sorted_unused registered.distinct
  case unused =>
    intro key path
    rw [mem_unused_iff registered.distinct, lookup_paths_performAll,
      Option.eq_none_iff_forall_ne_some]
    simp only [ne_eq, lookup_decoded_performAll]
  case gone =>
    intro key member used later listed
    obtain ⟨path, place⟩ := mem_keys_iff.mp member
    obtain ⟨⟨name, other⟩, again, rfl⟩ := List.mem_map.mp listed
    -- the key has left the unused assets because it was decoded, and what is decoded stays so
    cases kept : ((empty formats).performAll history).decoded.lookup name with
    | none =>
        have stays := (mem_unused_iff registered.distinct).mpr ⟨place, kept⟩
        exact used (List.mem_map.mpr ⟨(name, path), stays, rfl⟩)
    | some asset =>
        have decodes := (lookup_decoded_performAll.mp kept).append later
        rw [← performAll_append, mem_unused_iff (registered_performAll formats _).distinct,
          lookup_decoded_performAll.mpr decodes] at again
        exact Option.some_ne_none asset again.2

/-- A page that imports itself is decoded although it cannot be baked. -/
example : Decodes Format.all (loopHistory ++ [(loopFiles, .bakeAsset "loop.html" .root)])
    "loop.html" loopPage.asset := by
  have given : (((empty Format.all).performAll loopHistory).resolve loopFiles "loop.html").2 =
      .ok loopPage.asset := by cbv
  exact ⟨loopHistory, loopFiles, _, [], rfl, _, [], .root, _, [], .refl _, given⟩

end Graph
end StaticSite
