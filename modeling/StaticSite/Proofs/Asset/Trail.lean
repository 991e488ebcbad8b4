import StaticSite.Proofs.Asset.Imports
import StaticSite.Proofs.Asset.Termination
import StaticSite.Proofs.Template.Failure

/-!
# Trails of errors

The error of a page is wrapped with the keys of the page, of an asset that it imports, and so on
down to the asset in which it arises.  These keys are distinct, and they are what stood on the
stack.  Where the cause is an import in a circle, it shows just these keys.
-/

namespace StaticSite

open Template (Baking)

namespace RenderError

/-- Whether an error wraps no other. -/
def IsRoot (error : RenderError) : Prop :=
  ∀ key location source, error ≠ parsingFailed key location source

/-- Whether an error wraps no other and does not tell of a circle. -/
def IsPlain : RenderError → Prop
  | circularDependency _ | parsingFailed .. => False
  | _ => True

/-- A cause wrapped with keys, the outermost first.  Only the innermost wrapper may tell a place. -/
def wrappedIn (location : Option Location) (cause : RenderError) : List String → RenderError
  | [] => cause
  | [key] => parsingFailed key location cause
  | key :: inner :: rest => parsingFailed key none (wrappedIn location cause (inner :: rest))

/-- Whether an error tells why there is no asset with a key: it is plain, or wraps a plain error
with this key. -/
def OfAsset (key : String) (error : RenderError) : Prop :=
  error.IsPlain ∨ ∃ location cause, error = parsingFailed key location cause ∧ cause.IsPlain

theorem IsPlain.isRoot {error : RenderError} (plain : error.IsPlain) : error.IsRoot := by
  rintro key location source rfl
  exact plain

theorem IsPlain.ne_circular {error : RenderError} (plain : error.IsPlain) (circle : List String) :
    error ≠ circularDependency circle := by
  rintro rfl
  exact plain

theorem IsEvaluation.isPlain {error : RenderError} (evaluation : error.IsEvaluation) :
    error.IsPlain := by
  cases error with
  | circularDependency | parsingFailed => exact evaluation
  | _ => trivial

theorem IsDirective.isPlain {error : RenderError} (directive : error.IsDirective) :
    error.IsPlain := by
  cases error with
  | circularDependency | parsingFailed => exact directive
  | _ => trivial

theorem IsRoot.inAsset_eq {error : RenderError} (root : error.IsRoot) (key : String)
    (location : Option Location) :
    error.inAsset key location = parsingFailed key location error := by
  cases error with
  | parsingFailed inner place source => exact absurd rfl (root inner place source)
  | _ => rfl

/-- Wrapping with one more key puts it in front. -/
theorem IsRoot.inAsset_wrappedIn {cause : RenderError} (root : cause.IsRoot)
    {location : Option Location} {key : String} {keys : List String} (new : key ∉ keys)
    (placed : keys = [] → location = none) :
    (wrappedIn location cause keys).inAsset key none = wrappedIn location cause (key :: keys) := by
  cases keys with
  | nil => rw [wrappedIn, root.inAsset_eq, wrappedIn, placed rfl]
  | cons inner rest =>
      have differs : inner ≠ key := fun same => new (same ▸ List.mem_cons_self)
      cases rest <;> simp [wrappedIn, inAsset, differs]

end RenderError

namespace Library

variable {library : Library} {stack : List String} {current : String}

/-- Whether there is no asset with a key only for reasons of that asset. -/
def FailsInAssets (library : Library) : Prop :=
  ∀ key error, library.resolve key = .error error → error.OfAsset key

/-- The keys of assets being baked: each imports the next, and the last is baked at present. -/
structure Opened (library : Library) (stack : List String) (current : String) : Prop where
  last : stack.getLast? = some current
  distinct : stack.Nodup
  imports : stack.IsChain library.Imports
  resolves : ∀ key ∈ stack, ∃ asset, library.resolve key = .ok asset

/-- How an error arises while the assets with the keys on a stack are baked: in further assets,
each of which is imported by the one before. -/
structure Trail (library : Library) (stack : List String) (error : RenderError)
    (keys : List String) (location : Option Location) (cause : RenderError) : Prop where
  error_eq : error = cause.wrappedIn location keys
  root : cause.IsRoot
  distinct : (stack ++ keys).Nodup
  imports : (stack ++ keys).IsChain library.Imports
  located : ∀ place, location = some place → ∃ key, keys.getLast? = some key ∧
    library.resolve key = .error (.parsingFailed key (some place) cause)
  circular : ∀ circle, cause = .circularDependency circle → ∃ last, ∃ key ∈ stack ++ keys,
    (stack ++ keys).getLast? = some last ∧ library.Imports last key ∧
    circle = stack ++ keys ++ [key]

/-! ## Stacks -/

theorem isChain_append_singleton {α : Type} {related : α → α → Prop} {items : List α}
    {last item : α} (chain : items.IsChain related) (isLast : items.getLast? = some last)
    (step : related last item) : (items ++ [item]).IsChain related := by
  refine chain.append (List.isChain_singleton item) ?_
  rintro before isBefore other isOther
  obtain rfl : last = before := Option.some.inj (isLast.symm.trans isBefore)
  obtain rfl : item = other := Option.some.inj isOther
  exact step

theorem Opened.singleton {key : String} {asset : Asset} (found : library.resolve key = .ok asset) :
    library.Opened [key] key where
  last := rfl
  distinct := List.nodup_singleton key
  imports := List.isChain_singleton key
  resolves _ member := ⟨asset, List.mem_singleton.mp member ▸ found⟩

theorem Opened.push (opened : library.Opened stack current) {key : String} {asset : Asset}
    (step : library.Imports current key) (found : library.resolve key = .ok asset)
    (off : key ∉ stack) : library.Opened (stack ++ [key]) key where
  last := List.getLast?_concat
  distinct := List.nodup_append.mpr ⟨opened.distinct, List.nodup_singleton key, by
    rintro other member last isKey rfl
    exact off (List.mem_singleton.mp isKey ▸ member)⟩
  imports := isChain_append_singleton opened.imports opened.last step
  resolves other member := by
    rcases List.mem_append.mp member with before | isKey
    · exact opened.resolves other before
    · exact ⟨asset, List.mem_singleton.mp isKey ▸ found⟩

/-! ## Where errors arise -/

/-- A plain error arises in the asset that is baked. -/
theorem Opened.trail_of_isPlain (opened : library.Opened stack current) {error : RenderError}
    (plain : error.IsPlain) : library.Trail stack error [] none error where
  error_eq := rfl
  root := plain.isRoot
  distinct := by simpa using opened.distinct
  imports := by simpa using opened.imports
  located place isSome := nomatch isSome
  circular circle same := absurd same (plain.ne_circular circle)

/-- So does the refusal of a circle. -/
theorem Opened.trail_of_mem (opened : library.Opened stack current) {key : String}
    (step : library.Imports current key) (onStack : key ∈ stack) :
    library.Trail stack (.circularDependency (stack ++ [key])) [] none
      (.circularDependency (stack ++ [key])) where
  error_eq := rfl
  root := fun _ _ _ same => nomatch same
  distinct := by simpa using opened.distinct
  imports := by simpa using opened.imports
  located place isSome := nomatch isSome
  circular circle same := by
    obtain rfl := RenderError.circularDependency.inj same
    exact ⟨current, key, by simpa using onStack, by simpa using opened.last, step, by simp⟩

/-- Why there is no asset with an imported key is told as it is. -/
theorem Opened.exists_trail_of_missing (opened : library.Opened stack current) {key : String}
    {error : RenderError} (step : library.Imports current key)
    (missing : library.resolve key = .error error) (ofAsset : error.OfAsset key) :
    ∃ keys location cause, library.Trail stack error keys location cause := by
  obtain plain | ⟨location, cause, rfl, plain⟩ := ofAsset
  · exact ⟨[], none, error, opened.trail_of_isPlain plain⟩
  · have off : key ∉ stack := by
      intro member
      obtain ⟨asset, found⟩ := opened.resolves key member
      rw [missing] at found
      contradiction
    refine ⟨[key], location, cause, ?_⟩
    exact
      { error_eq := rfl
        root := plain.isRoot
        distinct := List.nodup_append.mpr ⟨opened.distinct, List.nodup_singleton key, by
          rintro other member last isKey rfl
          exact off (List.mem_singleton.mp isKey ▸ member)⟩
        imports := isChain_append_singleton opened.imports opened.last step
        located := by
          rintro place rfl
          exact ⟨key, rfl, missing⟩
        circular := fun circle same => absurd same (plain.ne_circular circle) }

/-- What fails in an asset is wrapped with its key where it is imported. -/
theorem Trail.wrap {key : String} {error : RenderError} {keys : List String}
    {location : Option Location} {cause : RenderError}
    (trail : library.Trail (stack ++ [key]) error keys location cause) :
    library.Trail stack (error.inAsset key none) (key :: keys) location cause := by
  have longer : stack ++ [key] ++ keys = stack ++ key :: keys := by simp
  have distinct := longer ▸ trail.distinct
  refine ⟨?_, trail.root, distinct, longer ▸ trail.imports, fun place isPlace => ?_, ?_⟩
  · have new : key ∉ keys := (List.nodup_cons.mp (List.nodup_append.mp distinct).2.1).1
    rw [trail.error_eq]
    refine trail.root.inAsset_wrappedIn new fun isEmpty => Option.eq_none_iff_forall_ne_some.mpr ?_
    rintro place isPlace
    obtain ⟨last, isLast, -⟩ := trail.located place isPlace
    simp [isEmpty] at isLast
  · obtain ⟨last, isLast, missing⟩ := trail.located place isPlace
    exact ⟨last, by simp [List.getLast?_cons, isLast], missing⟩
  · simpa only [longer] using trail.circular

/-! ## Trails of bakings -/

/-- Baking an asset asks only for what it imports. -/
theorem within_bake {key : String} {asset : Asset} (found : library.resolve key = .ok asset)
    (address : Address) (scope : Scope) :
    (asset.bake address scope).Within (library.Imports key) := by
  cases asset with
  | data value => exact .ended (.ok value)
  | template model =>
      have asks := (model.within_bake .alone address scope).mono
        fun other named => (⟨model, found, named⟩ : library.Imports key other)
      exact asks.bind fun baked => .ended (.ok baked.toValue)

/-- An import that fails leaves a trail, if all that fails in the imported asset does. -/
theorem Opened.exists_trail_importer (opened : library.Opened stack current)
    (fails : library.FailsInAssets) {key : String} (step : library.Imports current key)
    {address : Address} {scope : Scope} {error : RenderError}
    (deeper : ∀ asset error, key ∉ stack → library.resolve key = .ok asset →
      ((asset.bake address scope).outcome (library.importer (stack ++ [key]))).result =
        .error error →
      ∃ keys location cause, library.Trail (stack ++ [key]) error keys location cause)
    (failed : (library.importer stack address scope key).result = .error error) :
    ∃ keys location cause, library.Trail stack error keys location cause := by
  cases found : library.resolve key with
  | error missing =>
      rw [importer_of_error found] at failed
      obtain rfl : missing = error := Except.error.inj failed
      exact opened.exists_trail_of_missing step found (fails key missing found)
  | ok asset =>
      by_cases onStack : key ∈ stack
      · rw [importer_of_mem found onStack] at failed
        obtain rfl := Except.error.inj failed
        exact ⟨[], none, _, opened.trail_of_mem step onStack⟩
      · rw [importer_of_not_mem found onStack] at failed
        simp only [Template.Outcome.reaching, Template.Outcome.mapError] at failed
        cases inside : ((asset.bake address scope).outcome
            (library.importer (stack ++ [key]))).result with
        | ok value => simp [inside, Except.mapError] at failed
        | error inner =>
            obtain ⟨keys, location, cause, trail⟩ := deeper asset inner onStack found inside
            obtain rfl : inner.inAsset key none = error := by
              simpa [inside, Except.mapError] using failed
            exact ⟨key :: keys, location, cause, trail.wrap⟩

/-- Whatever fails while an asset is baked leaves a trail.  The outer induction is on the keys that
are not on the stack, the inner one on what is left to do. -/
theorem Opened.exists_trail (opened : library.Opened stack current) (fails : library.FailsInAssets)
    {baking : Baking Value} (within : baking.Within (library.Imports current))
    {error : RenderError}
    (failed : (baking.outcome (library.importer stack)).result = .error error) :
    ∃ keys location cause, library.Trail stack error keys location cause := by
  induction bound : (library.keysOff stack).length using Nat.strongRecOn
    generalizing stack current baking error with
  | ind size outer =>
      induction within with
      | ended evaluates =>
          exact ⟨[], none, error, opened.trail_of_isPlain (evaluates error failed).isPlain⟩
      | @asking address scope key resume step _ inner =>
          simp only [Baking.outcome, Template.Outcome.andThen] at failed
          cases answer : (library.importer stack address scope key).result with
          | ok value => exact inner value (by simpa only [answer] using failed)
          | error refused =>
              obtain rfl : refused = error := by simpa [answer] using failed
              refine opened.exists_trail_importer fails step
                (fun asset error off found failed => ?_) answer
              refine outer _ ?_ (opened.push step found off) (within_bake found address scope)
                failed rfl
              rw [← bound]
              exact length_keysOff_lt (mem_keys_of_resolve found) off

/-- Along a chain each is followed to the last. -/
theorem reflTransGen_getLast {α : Type} {related : α → α → Prop} {items : List α}
    (chain : items.IsChain related) {item last : α} (member : item ∈ items)
    (isLast : items.getLast? = some last) : Relation.ReflTransGen related item last := by
  induction items generalizing item with
  | nil => contradiction
  | cons first rest induction =>
      cases rest with
      | nil =>
          obtain rfl : first = last := by simpa using isLast
          rw [List.mem_singleton.mp member]
      | cons second rest =>
          rw [List.getLast?_cons_cons] at isLast
          obtain ⟨step, onward⟩ := List.isChain_cons_cons.mp chain
          rcases List.mem_cons.mp member with rfl | later
          · exact .head step (induction onward List.mem_cons_self isLast)
          · exact induction onward later isLast

end Library

/-! ## Assets that cannot be decoded -/

/-- Bytes that are no asset are refused with a plain error, or else for their directives. -/
theorem Format.isPlain_or_misparsed {format : Format} {key : String} {content : ByteArray}
    {error : RenderError} (failed : format.decode key content = .error error) :
    error.IsPlain ∨ ∃ source located, format = .html ∧ String.fromUTF8? content = some source ∧
      Template.parse source = .error located ∧ error = located.inAsset key := by
  cases format with
  | html =>
      simp only [Format.decode] at failed
      cases decoded : String.fromUTF8? content with
      | none =>
          simp only [decoded, Except.error.injEq] at failed
          exact .inl (failed ▸ trivial)
      | some source =>
          cases parsed : Template.parse source with
          | ok model => simp [decoded, parsed] at failed
          | error located =>
              simp only [decoded, parsed, Except.error.injEq] at failed
              exact .inr ⟨source, located, rfl, rfl, parsed, failed.symm⟩
  | json | yaml =>
      simp only [Format.decode] at failed
      split at failed
      · contradiction
      · obtain rfl := Except.error.inj failed
        exact .inl trivial

namespace Graph

/-- Whether the file of an asset is the source of a template that is refused at a place. -/
def Misparses (graph : Graph) (files : FileTree) (key : String) (place : Location)
    (cause : RenderError) : Prop :=
  ∃ path content source, graph.paths.lookup key = some path ∧
    graph.formats.find? (fun format => format.accepts path) = some .html ∧
    files.read path = .ok content ∧ String.fromUTF8? content = some source ∧
    Template.parse source = .error ⟨cause, place⟩

variable {graph : Graph} {files : FileTree} {key : String}

/-- What the library of a graph does not have is told by a plain error, or a file of it was read
and not decoded. -/
theorem isPlain_or_undecoded {error : RenderError}
    (failed : (graph.library files).resolve key = .error error) :
    error.IsPlain ∨ ∃ path format content cause, graph.paths.lookup key = some path ∧
      graph.formats.find? (fun format => format.accepts path) = some format ∧
      files.read path = .ok content ∧ format.decode key content = .error cause ∧
      error = cause.inAsset key none := by
  rw [resolve_library] at failed
  cases kept : graph.decoded.lookup key with
  | some asset => simp [kept] at failed
  | none =>
      cases registered : graph.paths.lookup key with
      | none =>
          simp only [kept, registered, Except.error.injEq] at failed
          exact .inl (failed ▸ trivial)
      | some path =>
          simp only [kept, registered, decode] at failed
          cases suitable : graph.formats.find? fun format => format.accepts path with
          | none =>
              simp only [suitable, Except.error.injEq] at failed
              exact .inl (failed ▸ trivial)
          | some format =>
              cases content : files.read path with
              | error fault =>
                  simp only [suitable, content, Except.error.injEq] at failed
                  exact .inl (failed ▸ trivial)
              | ok bytes =>
                  cases decoded : format.decode key bytes with
                  | ok asset => simp [suitable, content, decoded, Except.mapError] at failed
                  | error cause =>
                      obtain rfl : cause.inAsset key none = error := by
                        simpa [suitable, content, decoded, Except.mapError] using failed
                      exact .inr ⟨path, format, bytes, cause, rfl, suitable, content, decoded, rfl⟩

/-- The error that tells of a file that was not decoded is wrapped with the key.  Only the error of
a template tells a place. -/
theorem ofAsset_of_resolve {error : RenderError}
    (failed : (graph.library files).resolve key = .error error) :
    error.IsPlain ∨ ∃ location cause, error = .parsingFailed key location cause ∧ cause.IsPlain ∧
      ∀ place, location = some place → graph.Misparses files key place cause := by
  obtain isPlain | ⟨path, format, content, cause, registered, suitable, isRead, decoded, rfl⟩ :=
    isPlain_or_undecoded failed
  · exact .inl isPlain
  · obtain plain | ⟨source, located, rfl, text, parsed, rfl⟩ := Format.isPlain_or_misparsed decoded
    · refine .inr ⟨none, cause, plain.isRoot.inAsset_eq key none, plain, ?_⟩
      intro place isPlace
      contradiction
    · have plain := (Template.onlyReadsAt_parse source located parsed).isPlain
      refine .inr ⟨some located.location, located.error, ?_, plain, ?_⟩
      · rw [Template.Located.inAsset, plain.isRoot.inAsset_eq]
        simp [RenderError.inAsset]
      · rintro place isPlace
        obtain rfl := Option.some.inj isPlace
        exact ⟨path, content, source, registered, suitable, isRead, text, parsed⟩

theorem failsInAssets_library (graph : Graph) (files : FileTree) :
    (graph.library files).FailsInAssets := by
  intro key error failed
  obtain plain | ⟨location, cause, same, plain, -⟩ := ofAsset_of_resolve failed
  · exact .inl plain
  · exact .inr ⟨location, cause, same, plain⟩

/-- A page that cannot be rendered fails for what arises while its asset is baked. -/
theorem Ready.exists_trail {page : Page} (ready : graph.Ready page) {error : RenderError}
    (failed : (graph.renderPage files page).2 = .error error) :
    ∃ inner keys location cause, error = inner.inAsset page.key none ∧
      (graph.library files).Trail [page.key] inner keys location cause := by
  have found : (graph.library files).resolve page.key = .ok page.asset := by
    rw [resolve_library, ready.kept]
  have text : (graph.renderPage files page).2 =
      ((graph.pageRun page).finish files).2.map Value.text := rfl
  rw [text, finish_pageRun, ready.stack_eq] at failed
  simp only [List.not_mem_nil, ↓reduceIte, List.nil_append] at failed
  cases inside : ((page.asset.bake [] .root).outcome
      ((graph.library files).importer [page.key])).result with
  | ok value => simp [inside, Except.mapError, Except.map] at failed
  | error inner =>
      obtain ⟨keys, location, cause, trail⟩ := (Library.Opened.singleton found).exists_trail
        (graph.failsInAssets_library files) (Library.within_bake found [] .root) inside
      refine ⟨inner, keys, location, cause, ?_, trail⟩
      simpa [inside, Except.mapError, Except.map] using failed.symm

/-- The error of a page that was given is its cause wrapped with distinct keys, first that of the
page, each of which is imported by the template with the key before.  A place is told only by the
innermost wrapper, and only if the source of a template is refused there.  The refusal of a circle
shows these keys and then one of them, which the last imports; it does not occur if nothing that
the page imports, directly or through others, imports itself. -/
theorem Obtained.renderPage_error {formats : List Format} {graph : Graph} {page : Page}
    (obtained : Obtained formats graph page) (files : FileTree) {error : RenderError}
    (failed : (graph.renderPage files page).2 = .error error) :
    ∃ keys location cause,
      error = cause.wrappedIn location (page.key :: keys) ∧ cause.IsRoot ∧
      (page.key :: keys).Nodup ∧ (page.key :: keys).IsChain (graph.library files).Imports ∧
      (∀ place, location = some place →
        ∃ last, keys.getLast? = some last ∧ graph.Misparses files last place cause) ∧
      (∀ circle, cause = .circularDependency circle → ∃ last, ∃ key ∈ page.key :: keys,
        (page.key :: keys).getLast? = some last ∧ (graph.library files).Imports last key ∧
        circle = page.key :: keys ++ [key] ∧
        cause.message = "circular dependency: " ++
          (String.intercalate " -> " (page.key :: keys) ++ " -> " ++ key)) ∧
      ((∀ key, Relation.ReflTransGen (graph.library files).Imports page.key key →
          ¬ Relation.TransGen (graph.library files).Imports key key) →
        ∀ circle, cause ≠ .circularDependency circle) := by
  obtain ⟨inner, keys, location, cause, rfl, inside⟩ := obtained.ready.exists_trail failed
  have trail : (graph.library files).Trail [] _ (page.key :: keys) location cause := inside.wrap
  have circular := trail.circular
  rw [List.nil_append] at circular
  refine ⟨keys, location, cause, trail.error_eq, trail.root, trail.distinct, trail.imports,
    fun place isPlace => ?_, fun circle isCircle => ?_, fun acyclic circle isCircle => ?_⟩
  · obtain ⟨last, isLast, missing⟩ := inside.located place isPlace
    refine ⟨last, isLast, ?_⟩
    obtain plain | ⟨other, same, isError, -, misparses⟩ := ofAsset_of_resolve missing
    · exact plain.elim
    · obtain ⟨-, rfl, rfl⟩ := RenderError.parsingFailed.inj isError
      exact misparses place rfl
  · obtain ⟨last, key, member, isLast, step, rfl⟩ := circular circle isCircle
    refine ⟨last, key, member, isLast, step, rfl, ?_⟩
    rw [isCircle]
    exact RenderError.message_circularDependency_append (List.cons_ne_nil _ _) key
  · obtain ⟨last, key, member, isLast, step, -⟩ := circular circle isCircle
    have toLast := Library.reflTransGen_getLast trail.imports member isLast
    have fromPage := Library.reflTransGen_getLast trail.imports List.mem_cons_self isLast
    exact acyclic key (fromPage.tail step) (.tail' toLast step)

/-- Two templates that import each other. -/
def circleFiles : FileTree :=
  ⟨[(["page.html"], .file "{{+ menu.html }}".toUTF8),
    (["menu.html"], .file "{{+ page.html }}".toUTF8)], []⟩

/-- The history of a graph on which both are registered. -/
def circleHistory : List (FileTree × Operation) :=
  [(circleFiles, .registerPage "page.html" ⟨"/page.html"⟩),
    (circleFiles, .registerTemplate "menu.html" ⟨"/menu.html"⟩)]

/-- The first of them, as it is decoded. -/
def circlePage : Page :=
  ⟨"page.html", .template (.mk .plain [] [.importing "menu.html"])⟩

/-- The graph that has decoded it. -/
def circleGraph : Graph where
  formats := Format.all
  paths := [("page.html", ⟨"/page.html"⟩), ("menu.html", ⟨"/menu.html"⟩)]
  pages := ["page.html"]
  decoded := [(circlePage.key, circlePage.asset)]
  stack := []

theorem obtained_circlePage : Obtained Format.all circleGraph circlePage := by
  have decodes : ((empty Format.all).performAll circleHistory).decode circleFiles "page.html"
      ⟨"/page.html"⟩ = .ok circlePage.asset := by cbv
  exact obtained_of_decode decodes rfl rfl

theorem renderPage_circlePage :
    (circleGraph.renderPage circleFiles circlePage).2 =
      .error (RenderError.wrappedIn none
        (.circularDependency ["page.html", "menu.html", "page.html"])
        ["page.html", "menu.html"]) := by
  have page : (circleGraph.library circleFiles).resolve "page.html" = .ok circlePage.asset := rfl
  have menu : (circleGraph.library circleFiles).resolve "menu.html" =
      .ok (.template (.mk .plain [] [.importing "page.html"])) := by cbv
  have again (address : Address) (scope : Scope) :
      ((circleGraph.library circleFiles).importer ["page.html", "menu.html"] address scope
        "page.html").result =
        .error (.circularDependency ["page.html", "menu.html", "page.html"]) := by
    rw [Library.importer_of_mem page (by decide)]
    rfl
  have nested (address : Address) (scope : Scope) :
      ((circleGraph.library circleFiles).importer ["page.html"] address scope
        "menu.html").result = .error (.parsingFailed "menu.html" none
          (.circularDependency ["page.html", "menu.html", "page.html"])) := by
    rw [Library.importer_of_not_mem menu (by decide)]
    exact congrArg (Except.mapError (·.inAsset "menu.html" none))
      (result_outcome_import again address scope)
  have text : (circleGraph.renderPage circleFiles circlePage).2 =
      ((circleGraph.pageRun circlePage).finish circleFiles).2.map Value.text := rfl
  rw [text, finish_pageRun, if_neg (by decide)]
  exact congrArg (fun result => (result.mapError (·.inAsset "page.html" none)).map Value.text)
    (result_outcome_import nested [] .root)

/-- The page fails for the circle, wrapped with both keys, each of which imports the other. -/
theorem renderPage_error_circle :
    (circleGraph.renderPage circleFiles circlePage).2 =
      .error (RenderError.wrappedIn none
        (.circularDependency ["page.html", "menu.html", "page.html"])
        ["page.html", "menu.html"]) ∧
    ∃ keys location cause,
      RenderError.wrappedIn none (.circularDependency ["page.html", "menu.html", "page.html"])
        ["page.html", "menu.html"] =
        RenderError.wrappedIn location cause (circlePage.key :: keys) ∧
      cause.IsRoot ∧ (circlePage.key :: keys).Nodup ∧
      (circlePage.key :: keys).IsChain (circleGraph.library circleFiles).Imports := by
  obtain ⟨keys, location, cause, same, root, distinct, imports, -⟩ :=
    obtained_circlePage.renderPage_error circleFiles renderPage_circlePage
  exact ⟨renderPage_circlePage, keys, location, cause, same, root, distinct, imports⟩

end Graph
end StaticSite
