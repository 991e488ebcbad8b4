import StaticSite.Asset.Format
import StaticSite.Template.Baking
import StaticSite.Template.Directive
import StaticSite.Value.OfYaml

/-!
# Assets and libraries

An asset is a template, which is baked anew wherever it is imported, or data, which are the same
value everywhere.

A library answers imports.  While an asset is baked its key stands on a stack, and an import of a
key on the stack is refused.  Every import that is followed thus puts another key of the library
on the stack, which is why baking ends.
-/

namespace StaticSite

open Template (Importer Outcome)

/-! ## Assets -/

/-- What the bytes of a file stand for. -/
inductive Asset where
  | template (model : Template.Model)
  | data (value : Value)
  deriving Inhabited

/-- The asset with the given key that some bytes are in a format. -/
def Format.decode (format : Format) (key : String) (content : ByteArray) :
    Except RenderError Asset :=
  let data (decoded : Except DecodeFault Value) : Except RenderError Asset :=
    match decoded with
    | .ok value => .ok (.data value)
    | .error fault => .error (.decode key format fault)
  match format with
  | .html =>
      match String.fromUTF8? content with
      | none => .error (.decode key .html .unreadable)
      | some source =>
          match Template.parse source with
          | .ok model => .ok (.template model)
          | .error located => .error (located.inAsset key)
  | .json => data (Value.decodeJson content)
  | .yaml => data (Value.decodeYaml content)

/-- The value of an asset in a scope. -/
def Asset.bake (address : Address) (scope : Scope) : Asset → Template.Baking Value
  | .template model => do
      let baked ← model.bake .alone address scope
      pure baked.toValue
  | .data value => pure value

/-! ## Libraries -/

/-- Assets by key, or why there is none.  No asset is decoded before it is asked for. -/
abbrev Library := List (String × Thunk (Except RenderError Asset))

namespace Library

def resolve (library : Library) (key : String) : Except RenderError Asset :=
  match library.lookup key with
  | some asset => asset.get
  | none => .error (.unresolvableAsset key)

def keysOff (library : Library) (stack : List String) : List String :=
  (library.map Prod.fst).filter fun key => !stack.contains key

theorem mem_keys_of_resolve {library : Library} {key : String} {asset : Asset}
    (found : library.resolve key = .ok asset) : key ∈ library.map Prod.fst := by
  induction library with
  | nil => simp [resolve] at found
  | cons entry rest induction =>
      obtain ⟨name, content⟩ := entry
      by_cases same : key = name
      · simp [same]
      · have step : resolve ((name, content) :: rest) key = resolve rest key := by
          simp [resolve, List.lookup_cons, beq_false_of_ne same]
        rw [step] at found
        simp only [List.map_cons, List.mem_cons]
        exact Or.inr (induction found)

theorem length_filter_lt {α : Type} {wide narrow : α → Bool} {items : List α} {item : α}
    (member : item ∈ items) (passes : wide item = true) (fails : narrow item = false)
    (implies : ∀ other, narrow other = true → wide other = true) :
    (items.filter narrow).length < (items.filter wide).length := by
  induction items with
  | nil => simp at member
  | cons head tail induction =>
      have tails : (tail.filter narrow).length ≤ (tail.filter wide).length := by
        rw [← List.countP_eq_length_filter, ← List.countP_eq_length_filter]
        exact List.countP_mono_left fun other _ => implies other
      rcases List.mem_cons.mp member with rfl | inTail
      · simp only [List.filter_cons, passes, fails, Bool.false_eq_true, ↓reduceIte,
          List.length_cons]
        omega
      · have shorter := induction inTail
        have heads := implies head
        by_cases narrowHead : narrow head = true
        · simp only [List.filter_cons, narrowHead, heads narrowHead, ↓reduceIte,
            List.length_cons]
          omega
        · simp only [List.filter_cons, narrowHead, Bool.false_eq_true, ↓reduceIte]
          split
          · simp only [List.length_cons]
            omega
          · exact shorter

theorem length_keysOff_lt {library : Library} {stack : List String} {key : String}
    (member : key ∈ library.map Prod.fst) (off : key ∉ stack) :
    (library.keysOff (stack ++ [key])).length < (library.keysOff stack).length := by
  refine length_filter_lt member ?_ ?_ ?_
  · simpa using off
  · simp
  · intro other
    simp only [Bool.not_eq_true', List.contains_eq_mem, List.mem_append, List.mem_singleton,
      decide_eq_false_iff_not, not_or]
    exact And.left

/-- The importer of assets that are baked while the given keys stand on the stack, the outermost
first.  An error within an imported asset is wrapped with its key. -/
def importer (library : Library) (stack : List String) (address : Address) (scope : Scope)
    (key : String) : Outcome Value :=
  Outcome.reaching key <|
    match found : library.resolve key with
    | .error error => .ofExcept (.error error)
    | .ok asset =>
        if onStack : key ∈ stack then .ofExcept (.error (.circularDependency (stack ++ [key])))
        else
          have := length_keysOff_lt (mem_keys_of_resolve found) onStack
          ((asset.bake address scope).outcome (library.importer (stack ++ [key]))).mapError
            (·.inAsset key none)
termination_by (library.keysOff stack).length

variable {library : Library} {stack : List String} {key : String}

theorem importer_of_error {error : RenderError} (missing : library.resolve key = .error error)
    (address : Address) (scope : Scope) :
    library.importer stack address scope key = .reaching key (.ofExcept (.error error)) := by
  rw [importer]
  split <;> simp_all

theorem importer_of_mem {asset : Asset} (found : library.resolve key = .ok asset)
    (onStack : key ∈ stack) (address : Address) (scope : Scope) :
    library.importer stack address scope key =
      .reaching key (.ofExcept (.error (.circularDependency (stack ++ [key])))) := by
  rw [importer]
  split <;> simp_all

theorem importer_of_not_mem {asset : Asset} (found : library.resolve key = .ok asset)
    (off : key ∉ stack) (address : Address) (scope : Scope) :
    library.importer stack address scope key =
      .reaching key (((asset.bake address scope).outcome
        (library.importer (stack ++ [key]))).mapError (·.inAsset key none)) := by
  rw [importer]
  split <;> simp_all

end Library
end StaticSite
