import StaticSite.Asset.Graph

/-!
# Histories of graphs

This file lists the operations on a graph and follows a graph through a history of them, while its
files change in any way.  Apart from registrations an operation does nothing to a graph but to
keep assets that it has decoded; the stack in particular is after every operation what it was
before.
-/

namespace StaticSite

open Template (Baking)

/-- An operation on a graph. -/
inductive Operation where
  | registerTemplate (key : String) (path : Path)
  | registerPage (key : String) (path : Path)
  | resolve (key : String)
  | resolvePages
  | renderPage (page : Page)
  | bakeAsset (key : String) (scope : Scope)
  | unused

/-- Whether an operation registers an asset. -/
def Operation.isRegistration : Operation → Bool
  | registerTemplate .. | registerPage .. => true
  | _ => false

namespace Graph

/-- The graph that an operation leaves. -/
def perform (graph : Graph) (files : FileTree) : Operation → Graph
  | .registerTemplate key path => (graph.addTemplate key path).1
  | .registerPage key path => (graph.addPage key path).1
  | .resolve key => (graph.resolve files key).1
  | .resolvePages => (graph.resolvePages files).1
  | .renderPage page => (graph.renderPage files page).1
  | .bakeAsset key scope => (graph.bakeAsset files key scope).1
  | .unused => graph

/-- The graph after a history of operations, each on the files as they are then. -/
def performAll (graph : Graph) (history : List (FileTree × Operation)) : Graph :=
  history.foldl (fun graph entry => graph.perform entry.1 entry.2) graph

/-! ## What decoded assets are kept -/

/-- Whether only registered assets are kept. -/
def KeepsRegistered (graph : Graph) : Prop :=
  ∀ key asset, graph.decoded.lookup key = some asset → key ∈ graph.keys

theorem mem_keys_of_resolve {graph : Graph} (known : graph.KeepsRegistered) {files : FileTree}
    {key : String} {asset : Asset} (found : (graph.library files).resolve key = .ok asset) :
    key ∈ graph.keys := by
  rw [resolve_library] at found
  cases kept : graph.decoded.lookup key with
  | some old => exact known key old kept
  | none =>
      cases place : graph.paths.lookup key with
      | none => simp [kept, place] at found
      | some path =>
          obtain ⟨⟨name, _⟩, member, same⟩ :=
            List.lookup_isSome_iff.mp (Option.isSome_of_eq_some place)
          obtain rfl : key = name := by simpa using same
          exact List.mem_map_of_mem member

/-- Resolving an asset keeps it and gives what the library of the graph has. -/
theorem resolve_eq (graph : Graph) (files : FileTree) (key : String) :
    graph.resolve files key =
      (graph.keep (graph.library files) [key], (graph.library files).resolve key) :=
  (graph.yields_library files).resolve key

/-- An asset that is kept is what resolving gives, whatever has become of its file. -/
theorem resolve_of_kept {graph : Graph} {key : String} {asset : Asset}
    (kept : graph.decoded.lookup key = some asset) (files : FileTree) :
    graph.resolve files key = (graph, .ok asset) := by
  simp only [resolve, kept]

theorem lookup_remember_of_some {library : Library} {decoded : List (String × Asset)}
    {key : String} {asset : Asset} (kept : decoded.lookup key = some asset) (other : String) :
    (remember library decoded other).lookup key = some asset := by
  unfold remember
  split
  · simp [List.lookup_append, kept]
  · exact kept

/-- An asset that was kept stays. -/
theorem lookup_keep_of_some {graph : Graph} {library : Library} {key : String} {asset : Asset}
    (kept : graph.decoded.lookup key = some asset) (keys : List String) :
    (graph.keep library keys).decoded.lookup key = some asset := by
  simp only [keep]
  induction keys generalizing graph with
  | nil => exact kept
  | cons other keys induction =>
      exact @induction { graph with decoded := remember library graph.decoded other }
        (lookup_remember_of_some kept other)

/-- An asset that was resolved is kept. -/
theorem lookup_keep_of_resolve {graph : Graph} {files : FileTree} {key : String} {asset : Asset}
    (found : (graph.library files).resolve key = .ok asset) :
    (graph.keep (graph.library files) [key]).decoded.lookup key = some asset := by
  simp only [keep, List.foldl_cons, List.foldl_nil, remember, found]
  rw [resolve_library] at found
  cases kept : graph.decoded.lookup key with
  | none => simp [List.lookup_append, kept]
  | some old => simpa [kept] using found

theorem KeepsRegistered.keep {graph : Graph} (known : graph.KeepsRegistered) (files : FileTree)
    (keys : List String) : (graph.keep (graph.library files) keys).KeepsRegistered := by
  intro key asset kept
  have yields := (graph.yields_library files).keep keys key
  rw [resolve_library, kept] at yields
  exact mem_keys_of_resolve known yields.symm

/-! ## What operations do -/

/-- Each page that is decoded is kept. -/
theorem exists_keep_resolveEach (graph : Graph) (files : FileTree) {library : Library}
    (yields : graph.Yields files library) (keys : List String) :
    ∃ kept, (graph.resolveEach files keys).1 = graph.keep library kept := by
  induction keys generalizing graph with
  | nil => exact ⟨[], rfl⟩
  | cons key keys induction =>
      rw [resolveEach, yields.resolve key]
      cases library.resolve key with
      | error error => exact ⟨[key], rfl⟩
      | ok asset =>
          obtain ⟨kept, rest⟩ := induction (graph.keep library [key]) (yields.keep [key])
          exact ⟨key :: kept, by simpa [rest] using (graph.keep_append library [key] kept).symm⟩

/-- The end of the run of a page, told by the library of the graph. -/
theorem finish_pageRun (graph : Graph) (files : FileTree) (page : Page) :
    (graph.pageRun page).finish files =
      if page.key ∈ graph.stack then
        (graph, .error (.circularDependency (graph.stack ++ [page.key])))
      else
        let outcome := (page.asset.bake [] .root).outcome
          ((graph.library files).importer (graph.stack ++ [page.key]))
        (graph.keep (graph.library files) outcome.reached,
          outcome.result.mapError (·.inAsset page.key none)) := by
  unfold pageRun Run.enter
  split
  · exact Run.finish_of_next_eq_finished rfl
  · have reach := Run.reaches_outcome (graph.push page.key)
      ((graph.yields_library files).push page.key) (page.asset.bake [] .root)
      [⟨page.key, fun value => .ended (.ok value)⟩]
    rw [Run.finish_of_reaches (reach.trans (.head rfl (.refl _)))]
    refine Run.finish_of_next_eq_finished ?_
    simp only [Run.leave, keep_push, pop_push, push_stack]
    generalize Except.mapError _ _ = result
    cases result <;> rfl

/-- Apart from registrations, an operation does nothing but to keep decoded assets. -/
theorem exists_keep_perform (graph : Graph) (files : FileTree) (operation : Operation)
    (noRegistration : operation.isRegistration = false) :
    ∃ kept, graph.perform files operation = graph.keep (graph.library files) kept := by
  cases operation with
  | registerTemplate | registerPage => contradiction
  | resolve key => exact ⟨[key], congrArg Prod.fst (graph.resolve_eq files key)⟩
  | resolvePages => exact graph.exists_keep_resolveEach files (graph.yields_library files) _
  | renderPage page =>
      have final : graph.perform files (.renderPage page) =
          ((graph.pageRun page).finish files).1 := rfl
      rw [final, finish_pageRun]
      split
      · exact ⟨[], rfl⟩
      · exact ⟨_, rfl⟩
  | bakeAsset key scope =>
      exact ⟨_, congrArg Prod.fst (Run.finish_eq graph (Baking.ask [] scope key))⟩
  | unused => exact ⟨[], rfl⟩

/-- A registration adds to what is registered, whatever was decoded, and changes nothing else. -/
theorem exists_perform_registration (graph : Graph) (files : FileTree) (operation : Operation)
    (registration : operation.isRegistration = true) :
    ∃ paths pages, ∀ decoded, { graph with decoded := decoded }.perform files operation =
      { graph with
        decoded := decoded, paths := graph.paths ++ paths, pages := graph.pages ++ pages } := by
  cases operation with
  | registerTemplate key path =>
      cases place : graph.paths.lookup key with
      | none =>
          refine ⟨[(key, path)], [], fun decoded => ?_⟩
          have free : { graph with decoded := decoded }.paths.lookup key = none := place
          simp [perform, addTemplate_of_none free]
      | some old =>
          refine ⟨[], [], fun decoded => ?_⟩
          have taken : { graph with decoded := decoded }.paths.lookup key = some old := place
          simp [perform, addTemplate_of_some taken]
  | registerPage key path =>
      cases place : graph.paths.lookup key with
      | none =>
          refine ⟨[(key, path)], [key], fun decoded => ?_⟩
          have free : { graph with decoded := decoded }.paths.lookup key = none := place
          simp [perform, addPage_of_none free]
      | some old =>
          refine ⟨[], [], fun decoded => ?_⟩
          have taken : { graph with decoded := decoded }.paths.lookup key = some old := place
          simp [perform, addPage_of_some taken]
  | resolve | resolvePages | renderPage | bakeAsset | unused => contradiction

end Graph
end StaticSite
