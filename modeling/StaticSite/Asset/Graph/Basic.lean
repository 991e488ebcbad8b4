import StaticSite.Asset.Library
import StaticSite.FileTree

/-!
# Registered and decoded assets

This file keeps the keys of assets with the paths of their files, and which of them are pages.  A
key can be registered once; what is refused is found out before anything is changed.
An asset is decoded when it is first asked for and kept from then on, so that a later change of
its file is not seen.  While assets are baked the graph also holds the stack of their keys.
-/

namespace StaticSite

/-- The registered assets, those that were decoded, and those being baked. -/
structure Graph where
  /-- The formats that assets may have, in the order in which they are tried. -/
  formats : List Format
  paths : List (String × Path)
  pages : List String
  decoded : List (String × Asset)
  /-- The keys of the assets being baked, the outermost first. -/
  stack : List String

namespace Graph

/-- Nothing registered. -/
def empty (formats : List Format) : Graph := ⟨formats, [], [], [], []⟩

def size (graph : Graph) : Nat :=
  graph.paths.length

def keys (graph : Graph) : List String :=
  graph.paths.map Prod.fst

/-- Register an asset that can be imported.  The graph stays as it is if it has the key. -/
def addTemplate (graph : Graph) (key : String) (path : Path) : Graph × Except RenderError Unit :=
  match graph.paths.lookup key with
  | some old => (graph, .error (.duplicateAsset key old path))
  | none => ({ graph with paths := graph.paths ++ [(key, path)] }, .ok ())

/-- Register an asset that can be imported and is rendered as well. -/
def addPage (graph : Graph) (key : String) (path : Path) : Graph × Except RenderError Unit :=
  match graph.addTemplate key path with
  | (graph, .error error) => (graph, .error error)
  | (graph, .ok ()) => ({ graph with pages := graph.pages ++ [key] }, .ok ())

/-- The graph with one more template, for callers that stop when it is refused. -/
def registerTemplate (graph : Graph) (key : String) (path : Path) : Except RenderError Graph :=
  let (later, verdict) := graph.addTemplate key path
  verdict.map fun () => later

/-- The graph with one more page, for callers that stop when it is refused. -/
def registerPage (graph : Graph) (key : String) (path : Path) : Except RenderError Graph :=
  let (later, verdict) := graph.addPage key path
  verdict.map fun () => later

section

variable {graph : Graph} {key : String} {path old : Path}

theorem addTemplate_of_some (taken : graph.paths.lookup key = some old) (path : Path) :
    graph.addTemplate key path = (graph, .error (.duplicateAsset key old path)) := by
  rw [addTemplate, taken]

theorem addTemplate_of_none (free : graph.paths.lookup key = none) (path : Path) :
    graph.addTemplate key path = ({ graph with paths := graph.paths ++ [(key, path)] }, .ok ()) := by
  rw [addTemplate, free]

theorem addPage_of_some (taken : graph.paths.lookup key = some old) (path : Path) :
    graph.addPage key path = (graph, .error (.duplicateAsset key old path)) := by
  rw [addPage, addTemplate_of_some taken]

theorem addPage_of_none (free : graph.paths.lookup key = none) (path : Path) :
    graph.addPage key path =
      ({ graph with paths := graph.paths ++ [(key, path)], pages := graph.pages ++ [key] },
        .ok ()) := by
  rw [addPage, addTemplate_of_none free]

theorem registerTemplate_eq_ok_iff {later : Graph} :
    graph.registerTemplate key path = .ok later ↔
      graph.addTemplate key path = (later, .ok ()) := by
  rw [registerTemplate]
  obtain ⟨left, error | _⟩ := graph.addTemplate key path
  · simp [Except.map]
  · simp [Except.map]

theorem registerPage_eq_ok_iff {later : Graph} :
    graph.registerPage key path = .ok later ↔ graph.addPage key path = (later, .ok ()) := by
  rw [registerPage]
  obtain ⟨left, error | _⟩ := graph.addPage key path
  · simp [Except.map]
  · simp [Except.map]

end

/-- Decode the file of an asset in the first format that accepts its name. -/
def decode (graph : Graph) (files : FileTree) (key : String) (path : Path) :
    Except RenderError Asset :=
  match graph.formats.find? fun format => format.accepts path with
  | none => .error (.noAdapter key path)
  | some format =>
      match files.read path with
      | .error _ => .error (.io path)
      | .ok content => (format.decode key content).mapError (·.inAsset key none)

/-- The asset with a key, decoded when it is first asked for. -/
def resolve (graph : Graph) (files : FileTree) (key : String) :
    Graph × Except RenderError Asset :=
  match graph.decoded.lookup key with
  | some asset => (graph, .ok asset)
  | none =>
      match graph.paths.lookup key with
      | none => (graph, .error (.unresolvableAsset key))
      | some path =>
          match graph.decode files key path with
          | .error error => (graph, .error error)
          | .ok asset => ({ graph with decoded := graph.decoded ++ [(key, asset)] }, .ok asset)

def push (graph : Graph) (key : String) : Graph :=
  { graph with stack := graph.stack ++ [key] }

def pop (graph : Graph) : Graph :=
  { graph with stack := graph.stack.dropLast }

@[simp]
theorem push_stack (graph : Graph) (key : String) :
    (graph.push key).stack = graph.stack ++ [key] := rfl

@[simp]
theorem pop_push (graph : Graph) (key : String) : (graph.push key).pop = graph := by
  simp [push, pop]

/-- The assets of the graph: those that were decoded, and the others, which are decoded when they
are asked for. -/
def library (graph : Graph) (files : FileTree) : Library :=
  (graph.decoded.map fun (key, asset) => (key, Thunk.pure (.ok asset))) ++
    graph.paths.map fun (key, path) => (key, Thunk.mk fun _ => graph.decode files key path)

/-- Decoded assets with the asset of one more key, if it is new and can be decoded. -/
def remember (library : Library) (decoded : List (String × Asset)) (key : String) :
    List (String × Asset) :=
  match decoded.lookup key, library.resolve key with
  | none, .ok asset => decoded ++ [(key, asset)]
  | _, _ => decoded

/-- Keep the assets with the given keys, if they can be decoded. -/
def keep (graph : Graph) (library : Library) (keys : List String) : Graph :=
  { graph with decoded := keys.foldl (remember library) graph.decoded }

@[simp]
theorem keep_stack (graph : Graph) (library : Library) (keys : List String) :
    (graph.keep library keys).stack = graph.stack := rfl

theorem keep_push (graph : Graph) (library : Library) (key : String) (keys : List String) :
    (graph.push key).keep library keys = (graph.keep library keys).push key := rfl

theorem keep_append (graph : Graph) (library : Library) (keys more : List String) :
    graph.keep library (keys ++ more) = (graph.keep library keys).keep library more := by
  simp [keep, List.foldl_append]

theorem lookup_map_snd {α β : Type} (change : String → α → β) (entries : List (String × α))
    (key : String) :
    (entries.map fun (name, item) => (name, change name item)).lookup key =
      (entries.lookup key).map (change key) := by
  induction entries with
  | nil => rfl
  | cons entry rest induction =>
      obtain ⟨name, item⟩ := entry
      by_cases same : key = name
      · subst same
        simp
      · simpa [List.lookup_cons, beq_false_of_ne same] using induction

/-- What the library of a graph has under a key. -/
theorem resolve_library (graph : Graph) (files : FileTree) (key : String) :
    (graph.library files).resolve key =
      match graph.decoded.lookup key with
      | some asset => .ok asset
      | none =>
          match graph.paths.lookup key with
          | none => .error (.unresolvableAsset key)
          | some path => graph.decode files key path := by
  have decoded := lookup_map_snd (fun _ asset => Thunk.pure (.ok asset : Except RenderError Asset))
    graph.decoded key
  have others := lookup_map_snd (fun key path => Thunk.mk fun _ => graph.decode files key path)
    graph.paths key
  rw [Library.resolve, library, List.lookup_append, decoded, others]
  cases graph.decoded.lookup key with
  | some asset => rfl
  | none => cases graph.paths.lookup key <;> rfl

/-- A graph whose assets are those of a library, whichever of them it has decoded. -/
def Yields (graph : Graph) (files : FileTree) (library : Library) : Prop :=
  ∀ key, (graph.library files).resolve key = library.resolve key

theorem yields_library (graph : Graph) (files : FileTree) :
    graph.Yields files (graph.library files) :=
  fun _ => rfl

theorem Yields.push {graph : Graph} {files : FileTree} {library : Library}
    (yields : graph.Yields files library) (key : String) :
    (graph.push key).Yields files library :=
  yields

/-- Resolving an asset keeps it and gives what the library has. -/
theorem Yields.resolve {graph : Graph} {files : FileTree} {library : Library}
    (yields : graph.Yields files library) (key : String) :
    graph.resolve files key = (graph.keep library [key], library.resolve key) := by
  have known := yields key
  rw [resolve_library] at known
  simp only [Graph.resolve, keep, List.foldl_cons, List.foldl_nil, remember, ← known]
  cases graph.decoded.lookup key with
  | some asset => rfl
  | none =>
      cases graph.paths.lookup key with
      | none => rfl
      | some path => cases content : graph.decode files key path <;> simp only [content]

/-- Keeping an asset of the library does not change what the graph yields. -/
theorem Yields.keep {graph : Graph} {files : FileTree} {library : Library}
    (yields : graph.Yields files library) (keys : List String) :
    (graph.keep library keys).Yields files library := by
  induction keys generalizing graph with
  | nil => exact yields
  | cons key keys induction =>
      refine @induction (graph.keep library [key]) fun other => ?_
      have known := yields other
      rw [resolve_library] at known ⊢
      simp only [Graph.keep, List.foldl_cons, List.foldl_nil, remember]
      cases before : graph.decoded.lookup key with
      | some asset => exact known
      | none =>
          cases asset : library.resolve key with
          | error error => exact known
          | ok asset =>
              simp only [List.lookup_append]
              by_cases same : other = key
              · subst same
                simp only [before, List.lookup_cons_self, Option.none_or, asset]
              · simp only [List.lookup_cons, beq_false_of_ne same, List.lookup_nil, Option.or_none]
                exact known

end Graph
end StaticSite
