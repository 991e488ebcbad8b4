import StaticSite.Proofs.Asset.Termination

/-!
# Rendering does not depend on the history

While its files stay as they are, a graph keeps only what decoding gives anew, and an operation
that fails leaves nothing on the stack.  What a page renders to is therefore the same after every
history of operations as on a graph with the same registrations on which nothing else was done.
-/

namespace StaticSite

open Template (Outcome)

/-- Libraries with the same assets answer imports in the same way. -/
theorem Library.importer_congr {library other : Library}
    (same : ∀ key, library.resolve key = other.resolve key) (stack : List String) :
    library.importer stack = other.importer stack := by
  induction bound : (library.keysOff stack).length using Nat.strongRecOn generalizing stack with
  | ind size induction =>
      funext address scope key
      cases found : library.resolve key with
      | error error =>
          rw [importer_of_error found, importer_of_error (same key ▸ found)]
      | ok asset =>
          have foundOther : other.resolve key = .ok asset := same key ▸ found
          by_cases onStack : key ∈ stack
          · rw [importer_of_mem found onStack, importer_of_mem foundOther onStack]
          · have fewer := length_keysOff_lt (mem_keys_of_resolve found) onStack
            rw [importer_of_not_mem found onStack, importer_of_not_mem foundOther onStack,
              induction _ (bound ▸ fewer) _ rfl]

namespace Graph

/-- The graph without any decoded assets. -/
def forgotten (graph : Graph) : Graph :=
  { graph with decoded := [] }

/-- A graph that bakes nothing and keeps only what its files give anew. -/
structure Faithful (files : FileTree) (graph : Graph) : Prop where
  stack_eq : graph.stack = []
  kept : ∀ key asset, graph.decoded.lookup key = some asset →
    (graph.forgotten.library files).resolve key = .ok asset

/-- Do something with each item in turn, on the graph that is left each time. -/
def inTurn {α β : Type} (act : Graph → α → Graph × β) (graph : Graph) : List α → Graph × List β
  | [] => (graph, [])
  | item :: rest =>
      let (graph, result) := act graph item
      let (graph, results) := inTurn act graph rest
      (graph, result :: results)

/-- The text of the page with a key, decoded if that has not been done. -/
def renderKey (graph : Graph) (files : FileTree) (key : String) :
    Graph × Except RenderError String :=
  match graph.resolve files key with
  | (graph, .error error) => (graph, .error error)
  | (graph, .ok asset) => graph.renderPage files ⟨key, asset⟩

variable {files : FileTree} {graph : Graph}

/-! ## Faithful graphs -/

/-- What a faithful graph has kept makes no difference to its library. -/
theorem Faithful.yields (faithful : graph.Faithful files) :
    graph.Yields files (graph.forgotten.library files) := by
  intro key
  cases found : graph.decoded.lookup key with
  | none =>
      simp only [resolve_library, found]
      rfl
  | some asset =>
      rw [faithful.kept key asset found]
      simp only [resolve_library, found]

theorem Faithful.keep (faithful : graph.Faithful files) (keys : List String) :
    (graph.keep (graph.library files) keys).Faithful files := by
  refine ⟨faithful.stack_eq, fun key asset found => ?_⟩
  have known := (graph.yields_library files).keep keys key
  rw [resolve_library, found, faithful.yields key] at known
  exact known.symm

theorem faithful_empty (formats : List Format) : (empty formats).Faithful files := by
  refine ⟨rfl, ?_⟩
  rintro key asset ⟨⟩

/-- Every operation on the same files leaves a graph faithful. -/
theorem Faithful.perform (faithful : graph.Faithful files) (operation : Operation) :
    (graph.perform files operation).Faithful files := by
  cases registration : operation.isRegistration with
  | false =>
      obtain ⟨keys, same⟩ := graph.exists_keep_perform files operation registration
      exact same ▸ faithful.keep keys
  | true =>
      obtain ⟨paths, pages, same⟩ := graph.exists_perform_registration files operation registration
      rw [same graph.decoded]
      refine ⟨faithful.stack_eq, fun key asset found => ?_⟩
      have before := faithful.kept key asset found
      rw [resolve_library] at before ⊢
      cases place : graph.paths.lookup key with
      | none => simp [forgotten, place] at before
      | some path =>
          simp only [forgotten, List.lookup_nil, place, List.lookup_append,
            Option.some_or] at before ⊢
          exact before

/-- Apart from registrations an operation only decodes assets. -/
theorem forgotten_perform (graph : Graph) (files : FileTree) (operation : Operation) :
    (graph.perform files operation).forgotten =
      if operation.isRegistration then graph.forgotten.perform files operation
      else graph.forgotten := by
  cases registration : operation.isRegistration with
  | false =>
      obtain ⟨keys, same⟩ := graph.exists_keep_perform files operation registration
      simp only [same, Bool.false_eq_true, ↓reduceIte]
      rfl
  | true =>
      obtain ⟨paths, pages, same⟩ := graph.exists_perform_registration files operation registration
      have performed : graph.forgotten.perform files operation = _ := same []
      rw [same graph.decoded, performed]
      rfl

/-- Without what it has decoded, a graph after a history is one on which assets were registered and
nothing else was done. -/
theorem forgotten_performAll (graph : Graph) (files : FileTree) (history : List Operation) :
    (graph.performAll (history.map (files, ·))).forgotten =
      graph.forgotten.performAll
        ((history.filter Operation.isRegistration).map (files, ·)) := by
  induction history generalizing graph with
  | nil => rfl
  | cons operation history induction =>
      have step := graph.forgotten_perform files operation
      have rest := induction (graph.perform files operation)
      rw [step] at rest
      simp only [performAll, List.map_cons, List.foldl_cons] at rest ⊢
      rw [rest]
      cases registration : operation.isRegistration <;> simp [registration]

theorem Faithful.performAll (faithful : graph.Faithful files) (history : List Operation) :
    (graph.performAll (history.map (files, ·))).Faithful files := by
  induction history generalizing graph with
  | nil => exact faithful
  | cons operation history induction => exact induction (faithful.perform operation)

/-! ## What is given and rendered -/

theorem snd_resolveEach {library : Library} (yields : graph.Yields files library)
    (keys : List String) :
    (graph.resolveEach files keys).2 =
      keys.mapM fun key => (library.resolve key).map (Page.mk key) := by
  induction keys generalizing graph with
  | nil => rfl
  | cons key keys induction =>
      rw [resolveEach, yields.resolve key, List.mapM_cons]
      cases library.resolve key with
      | error error => rfl
      | ok asset =>
          have rest := induction (yields.keep [key])
          simp only [rest]
          generalize (keys.mapM fun key => (library.resolve key).map (Page.mk key)) = pages
          cases pages <;> rfl

/-- What a page renders to depends on the library and the stack of the graph only. -/
theorem snd_renderPage_congr {later : FileTree} {other : Graph}
    (stack_eq : graph.stack = other.stack) (yields : graph.Yields files (other.library later))
    (page : Page) : (graph.renderPage files page).2 = (other.renderPage later page).2 := by
  have text (any : Graph) (files : FileTree) : (any.renderPage files page).2 =
      ((any.pageRun page).finish files).2.map Value.text := rfl
  rw [text, text, finish_pageRun, finish_pageRun, stack_eq, Library.importer_congr yields]
  split <;> rfl

theorem Faithful.snd_renderPage (faithful : graph.Faithful files) (page : Page) :
    (graph.renderPage files page).2 = (graph.forgotten.renderPage files page).2 := by
  have same_stack : graph.stack = graph.forgotten.stack := rfl
  exact snd_renderPage_congr same_stack faithful.yields page

theorem Faithful.snd_resolvePages (faithful : graph.Faithful files) :
    (graph.resolvePages files).2 = (graph.forgotten.resolvePages files).2 := by
  rw [resolvePages, resolvePages, snd_resolveEach faithful.yields,
    snd_resolveEach (graph.forgotten.yields_library files)]
  rfl

theorem renderKey_eq (graph : Graph) (files : FileTree) (key : String) :
    graph.renderKey files key =
      match (graph.library files).resolve key with
      | .error error => (graph.keep (graph.library files) [key], .error error)
      | .ok asset => (graph.keep (graph.library files) [key]).renderPage files ⟨key, asset⟩ := by
  rw [renderKey, resolve_eq]
  cases (graph.library files).resolve key <;> rfl

/-- Rendering by key leaves a faithful graph, on which nothing but decoding was done. -/
theorem Faithful.renderKey (faithful : graph.Faithful files) (key : String) :
    (graph.renderKey files key).1.Faithful files ∧
      (graph.renderKey files key).1.forgotten = graph.forgotten ∧
      (graph.renderKey files key).2 = (graph.forgotten.renderKey files key).2 := by
  have kept := faithful.keep [key]
  rw [renderKey_eq, renderKey_eq graph.forgotten, faithful.yields key]
  cases (graph.forgotten.library files).resolve key with
  | error error => exact ⟨kept, rfl, rfl⟩
  | ok asset =>
      have same_stack : (graph.forgotten.keep (graph.forgotten.library files) [key]).stack =
          graph.forgotten.stack := rfl
      have known := (graph.forgotten.yields_library files).keep [key]
      refine ⟨kept.perform (.renderPage ⟨key, asset⟩), ?_, ?_⟩
      · exact forgotten_perform _ files (.renderPage ⟨key, asset⟩)
      · exact (kept.snd_renderPage _).trans (snd_renderPage_congr same_stack known _).symm

/-- Results that no action on the way changes are those of each action on its own. -/
theorem snd_inTurn {α β : Type} {act : Graph → α → Graph × β} {holds : Graph → Prop}
    {result : α → β}
    (step : ∀ graph item, holds graph → holds (act graph item).1 ∧ (act graph item).2 = result item)
    {graph : Graph} (start : holds graph) (items : List α) :
    (inTurn act graph items).2 = items.map result := by
  induction items generalizing graph with
  | nil => rfl
  | cons item items induction =>
      obtain ⟨later, same⟩ := step graph item start
      rw [List.map_cons, ← induction later, ← same]
      rfl

/-- After every history of operations, pages are given and render, in any order, to what they are
and render to where the same assets were registered and nothing else was done. -/
theorem rendering_history_independent (formats : List Format) (files : FileTree)
    (history : List Operation) :
    let after := (empty formats).performAll (history.map (files, ·))
    let fresh := (empty formats).performAll
      ((history.filter Operation.isRegistration).map (files, ·))
    (after.resolvePages files).2 = (fresh.resolvePages files).2 ∧
    (∀ pages : List Page, (inTurn (fun graph => graph.renderPage files) after pages).2 =
      pages.map fun page => (fresh.renderPage files page).2) ∧
    ∀ keys : List String, (inTurn (fun graph => graph.renderKey files) after keys).2 =
      keys.map fun key => (fresh.renderKey files key).2 := by
  intro after fresh
  have faithful : after.Faithful files := (faithful_empty formats).performAll history
  have forgets : after.forgotten = fresh := (empty formats).forgotten_performAll files history
  let holds (graph : Graph) : Prop := graph.Faithful files ∧ graph.forgotten = fresh
  refine ⟨forgets ▸ faithful.snd_resolvePages, ?_, ?_⟩
  · refine @snd_inTurn Page _ _ holds _ ?_ after ⟨faithful, forgets⟩
    rintro graph page ⟨faithful, forgets⟩
    have same := graph.forgotten_perform files (.renderPage page)
    exact ⟨⟨faithful.perform (.renderPage page), same.trans forgets⟩,
      forgets ▸ faithful.snd_renderPage page⟩
  · refine @snd_inTurn String _ _ holds _ ?_ after ⟨faithful, forgets⟩
    rintro graph key ⟨faithful, forgets⟩
    obtain ⟨later, same, result⟩ := faithful.renderKey key
    exact ⟨⟨later, same.trans forgets⟩, forgets ▸ result⟩

end Graph
end StaticSite
