import StaticSite.Proofs.Asset.Termination
import StaticSite.Proofs.Value.Decoded
import StaticSite.Proofs.Value.Evaluated

/-!
# Runs bind no name twice

Data are decoded to values that bind no name twice.  So whatever a run bakes, it asks for assets
only in scopes that bind no name twice, and ends with a value that does not either.
-/

namespace StaticSite

open Template (Model Node Baking Baked Standing bakeBindings bakeNodes bakeNode itemAt
  fieldBindings conditionHolds)

namespace Template

/-! ## What a baking asks for -/

/-- Whether a baking asks for assets only in scopes that bind no name twice, and ends with what has
a property, as long as it is answered with values that bind no name twice. -/
inductive Baking.AsksDistinct {α : Type} (property : α → Prop) : Baking α → Prop
  | ended {result : Except RenderError α} (holds : ∀ value, result = .ok value → property value) :
      AsksDistinct property (.ended result)
  | asking {address : Address} {scope : Scope} {key : String} {resume : Value → Baking α}
      (distinct : scope.Distinct)
      (rest : ∀ value, value.Distinct → AsksDistinct property (resume value)) :
      AsksDistinct property (.asking address scope key resume)

namespace Baking.AsksDistinct

variable {α β : Type} {property : α → Prop} {other : β → Prop}

theorem pure {value : α} (holds : property value) :
    AsksDistinct property (Pure.pure value : Baking α) := by
  refine .ended fun found same => ?_
  exact Except.ok.inj same ▸ holds

theorem bind {first : Baking α} {next : α → Baking β} (before : first.AsksDistinct property)
    (after : ∀ value, property value → (next value).AsksDistinct other) :
    (first >>= next).AsksDistinct other := by
  induction before with
  | @ended result holds =>
      cases result with
      | error error => exact .ended fun value isValue => by contradiction
      | ok value => exact after value (holds value rfl)
  | asking distinct _ induction => exact .asking distinct induction

theorem ask {scope : Scope} (distinct : scope.Distinct) (address : Address) (key : String) :
    (Baking.ask address scope key).AsksDistinct Value.Distinct := by
  refine .asking distinct fun value isDistinct => .ended fun found same => ?_
  exact Except.ok.inj same ▸ isDistinct

theorem gather {items : List α} {bake : α → Baking (List String)}
    (each : ∀ item ∈ items, (bake item).AsksDistinct fun _ => True) :
    (Baking.gather items bake).AsksDistinct fun _ => True := by
  induction items with
  | nil => exact .pure trivial
  | cons item items induction =>
      obtain ⟨first, others⟩ := List.forall_mem_cons.mp each
      exact first.bind fun _ _ => (induction others).bind fun _ _ => .pure trivial

end Baking.AsksDistinct

theorem distinct_of_itemAt {list item : Value} {position : Nat} (distinct : list.Distinct)
    (visited : itemAt list position = .ok item) : item.Distinct := by
  obtain ⟨_ | found, isFound, ends⟩ := Except.bind_eq_ok_iff.mp visited
  · contradiction
  · obtain rfl := Except.ok.inj ends
    exact distinct.index? .any _ found isFound

theorem distinct_of_fieldBindings {key value : Option String} {map : Value} {field : String}
    {names : Fields} (distinct : map.Distinct)
    (bound : fieldBindings key value map field = .ok names) : names.Distinct := by
  have noName : Fields.Distinct [] := ⟨List.nodup_nil, by simp⟩
  have oneName (name : String) : Fields.Distinct [(name, .string field)] :=
    ⟨List.nodup_singleton name, by simpa using .string field⟩
  cases value with
  | none =>
      obtain rfl := Except.ok.inj bound
      cases key with
      | none => exact noName
      | some name => exact oneName name
  | some name =>
      obtain ⟨_ | found, isFound, ends⟩ := Except.bind_eq_ok_iff.mp bound
      · contradiction
      · obtain rfl := Except.ok.inj ends
        have isDistinct := distinct.field? .any field found isFound
        cases key with
        | none => exact noName.insert isDistinct name
        | some other => exact (oneName other).insert isDistinct name

mutual

/-- A model asks for assets in scopes that only add values that bind no name twice. -/
theorem Model.asksDistinct_bake : ∀ (model : Model) (standing : Standing) (address : Address)
    (ambient : Scope), ambient.Distinct →
    (model.bake standing address ambient).AsksDistinct fun baked => baked.scope.Distinct
  | .mk shape bindings children, standing, address, ambient, distinct => by
      rw [Model.bake]
      refine (asksDistinct_bakeBindings bindings address 0 ambient distinct).bind
        fun scope bound => ?_
      have nodes (inner : Scope) (innerDistinct : inner.Distinct) :=
        asksDistinct_bakeNodes children (bindings.length :: address) inner innerDistinct
      -- children may see more than the scope that is left, which has the named blocks only
      have once (inner : Scope) (innerDistinct : inner.Distinct) :
          (bakeNodes (bindings.length :: address) inner children >>= fun texts =>
            pure (⟨address, scope, String.join texts⟩ : Baked)).AsksDistinct
            fun baked => baked.scope.Distinct :=
        (nodes inner innerDistinct).bind fun _ _ => .pure bound
      -- what iterations bind is part of the value that they go over
      have evaluated (kind : Kind) (text : String) :
          (Baking.ended (Expression.evaluate scope kind text)).AsksDistinct Value.Distinct :=
        .ended (Expression.givesDistinct_evaluate bound kind text)
      cases shape with
      | conditional condition next =>
          cases next with
          | none =>
              cases standing <;>
              · refine Baking.AsksDistinct.bind (.ended fun _ _ => trivial) fun holds _ => ?_
                cases holds with
                | true => exact once scope bound
                | false => exact .pure bound
          | some branch =>
              have later := branch.asksDistinct_bake .laterBranch address ambient distinct
              cases standing <;>
              · refine Baking.AsksDistinct.bind (.ended fun _ _ => trivial) fun holds _ => ?_
                cases holds with
                | true => exact once scope bound
                | false => exact later
      | plain => cases standing <;> exact once scope bound
      | letIn name text =>
          cases standing with
          | laterBranch => exact once scope bound
          | alone =>
              exact (evaluated .any text).bind fun value isDistinct =>
                once _ (bound.bind name isDistinct)
      | listIteration name iterable =>
          cases standing with
          | laterBranch => exact once scope bound
          | alone =>
              refine (evaluated .list iterable).bind fun list isDistinct =>
                (Baking.AsksDistinct.gather fun position _ => ?_).bind fun _ _ => .pure bound
              have visited : (Baking.ended (itemAt list position)).AsksDistinct Value.Distinct :=
                .ended fun _ => distinct_of_itemAt isDistinct
              exact visited.bind fun item itemDistinct => nodes _ (bound.bind name itemDistinct)
      | mapIteration key value text =>
          cases standing with
          | laterBranch => exact once scope bound
          | alone =>
              refine (evaluated .map text).bind fun map isDistinct =>
                (Baking.AsksDistinct.gather fun field _ => ?_).bind fun _ _ => .pure bound
              have visited : (Baking.ended (fieldBindings key value map field)).AsksDistinct
                  Fields.Distinct := .ended fun _ => distinct_of_fieldBindings isDistinct
              exact visited.bind fun names namesDistinct => nodes _ (bound.extend namesDistinct)
      | importing name key =>
          cases standing with
          | laterBranch => exact once scope bound
          | alone =>
              exact (Baking.AsksDistinct.ask bound _ key).bind fun value isDistinct =>
                once _ (bound.bind name isDistinct)

theorem asksDistinct_bakeBindings : ∀ (bindings : List (String × Model)) (address : Address)
    (index : Nat) (scope : Scope), scope.Distinct →
    (bakeBindings address index scope bindings).AsksDistinct Scope.Distinct
  | [], _, _, _, distinct => by
      rw [bakeBindings]
      exact .pure distinct
  | (name, block) :: rest, address, index, scope, distinct => by
      rw [bakeBindings]
      refine (block.asksDistinct_bake .alone (index :: address) scope distinct).bind
        fun baked bound => ?_
      exact asksDistinct_bakeBindings rest address (index + 1) _
        (distinct.bind name (Value.distinct_scope_iff.mpr bound))

theorem asksDistinct_bakeNodes : ∀ (nodes : List Node) (address : Address) (scope : Scope),
    scope.Distinct → (bakeNodes address scope nodes).AsksDistinct fun _ => True
  | [], _, _, _ => .pure trivial
  | node :: rest, address, scope, distinct => by
      rw [bakeNodes]
      exact (asksDistinct_bakeNode node address scope distinct).bind fun _ _ =>
        (asksDistinct_bakeNodes rest address scope distinct).bind fun _ _ => .pure trivial

theorem asksDistinct_bakeNode : ∀ (node : Node) (address : Address) (scope : Scope),
    scope.Distinct → (bakeNode address scope node).AsksDistinct fun _ => True
  | .literal text, _, _, _ => .pure trivial
  | .expression text strict, address, scope, distinct => by
      cases strict with
      | true => exact .bind (.ended fun _ _ => trivial) fun _ _ => .pure trivial
      | false => exact .pure trivial
  | .importing key, address, scope, distinct => by
      rw [bakeNode]
      exact (Baking.AsksDistinct.ask distinct address key).bind fun _ _ => .pure trivial
  | .scope model, address, scope, distinct => by
      rw [bakeNode]
      exact (model.asksDistinct_bake .alone address scope distinct).bind fun _ _ => .pure trivial

end

end Template

/-! ## Decoded assets -/

/-- Whether an asset is a template, or data that bind no name twice. -/
inductive Asset.Distinct : Asset → Prop
  | template (model : Model) : Distinct (.template model)
  | data {value : Value} (distinct : value.Distinct) : Distinct (.data value)

theorem Asset.Distinct.asksDistinct_bake {asset : Asset} (distinct : asset.Distinct)
    {scope : Scope} (scopeDistinct : scope.Distinct) (address : Address) :
    (asset.bake address scope).AsksDistinct Value.Distinct := by
  cases distinct with
  | template model =>
      exact (model.asksDistinct_bake .alone address scope scopeDistinct).bind fun baked bound =>
        .pure (Value.distinct_scope_iff.mpr bound)
  | data distinct => exact .pure distinct

/-- Whatever is decoded is a template, or data that bind no name twice. -/
theorem Format.distinct_of_decode {format : Format} {key : String} {content : ByteArray}
    {asset : Asset} (decoded : format.decode key content = .ok asset) : asset.Distinct := by
  cases format with
  | html =>
      simp only [decode] at decoded
      split at decoded
      · contradiction
      · split at decoded
        · exact Except.ok.inj decoded ▸ .template _
        · contradiction
  | json =>
      simp only [decode] at decoded
      split at decoded
      · next value isValue =>
        exact Except.ok.inj decoded ▸ .data (Value.distinct_of_decodeJson isValue)
      · contradiction
  | yaml =>
      simp only [decode] at decoded
      split at decoded
      · next value isValue =>
        exact Except.ok.inj decoded ▸ .data (Value.distinct_of_decodeYaml isValue)
      · contradiction

namespace Graph

variable {graph : Graph} {files : FileTree}

theorem distinct_of_decode {key : String} {path : Path} {asset : Asset}
    (decoded : graph.decode files key path = .ok asset) : asset.Distinct := by
  unfold decode at decoded
  split at decoded
  · contradiction
  · split at decoded
    · contradiction
    · exact Format.distinct_of_decode (Except.mapError_eq_ok_iff.mp decoded)

/-- Whether the data that a graph has decoded bind no name twice. -/
def HoldsDistinct (graph : Graph) : Prop :=
  ∀ key asset, graph.decoded.lookup key = some asset → asset.Distinct

theorem HoldsDistinct.resolve (holds : graph.HoldsDistinct) {key : String} {asset : Asset}
    (found : (graph.library files).resolve key = .ok asset) : asset.Distinct := by
  rw [resolve_library] at found
  split at found
  · next old kept => exact Except.ok.inj found ▸ holds key old kept
  · split at found
    · contradiction
    · exact distinct_of_decode found

theorem HoldsDistinct.keep (holds : graph.HoldsDistinct) (files : FileTree) (keys : List String) :
    (graph.keep (graph.library files) keys).HoldsDistinct := by
  intro key asset kept
  have yields := (graph.yields_library files).keep keys key
  rw [resolve_library, kept] at yields
  exact holds.resolve yields.symm

/-- Every operation keeps it, whatever has become of the files. -/
theorem HoldsDistinct.perform (holds : graph.HoldsDistinct) (files : FileTree)
    (operation : Operation) : (graph.perform files operation).HoldsDistinct := by
  cases registration : operation.isRegistration with
  | true =>
      obtain ⟨paths, pages, performed⟩ :=
        graph.exists_perform_registration files operation registration
      rw [performed graph.decoded]
      exact holds
  | false =>
      obtain ⟨kept, performed⟩ := graph.exists_keep_perform files operation registration
      exact performed ▸ holds.keep files kept

theorem HoldsDistinct.performAll (holds : graph.HoldsDistinct)
    (history : List (FileTree × Operation)) : (graph.performAll history).HoldsDistinct := by
  induction history generalizing graph with
  | nil => exact holds
  | cons entry history induction => exact induction (holds.perform entry.1 entry.2)

theorem holdsDistinct_empty (formats : List Format) : (empty formats).HoldsDistinct := by
  intro key asset kept
  contradiction

end Graph

/-! ## Runs -/

namespace Run

/-- What holds at every point of a run: decoded data bind no name twice, and what is left to do
asks for assets only in scopes that do not either. -/
structure Distinct (run : Run) : Prop where
  holds : run.graph.HoldsDistinct
  current : run.current.AsksDistinct Value.Distinct
  waiting : ∀ frame ∈ run.frames, ∀ value : Value, value.Distinct →
    (frame.resume value).AsksDistinct Value.Distinct

variable {files : FileTree}

theorem Distinct.leave {graph : Graph} {result : Except RenderError Value} {frame : Frame}
    {frames : List Frame} (distinct : Distinct ⟨graph, .ended result, frame :: frames⟩) :
    Distinct (leave graph result frame frames) := by
  obtain ⟨first, others⟩ := List.forall_mem_cons.mp distinct.waiting
  refine ⟨distinct.holds, ?_, others⟩
  cases result with
  | error error => exact .ended fun value isValue => by contradiction
  | ok value =>
      cases distinct.current with
      | ended isDistinct => exact first value (isDistinct value rfl)

theorem Distinct.enter {graph : Graph} {scope : Scope} {resume : Value → Baking Value}
    {frames : List Frame} {key : String} {address : Address}
    (distinct : Distinct ⟨graph, .asking address scope key resume, frames⟩) {asset : Asset}
    (assetDistinct : asset.Distinct) :
    Distinct (enter graph key asset address scope resume frames) := by
  unfold Run.enter
  split
  · exact ⟨distinct.holds, .ended fun value isValue => by contradiction, distinct.waiting⟩
  · cases distinct.current with
    | asking scopeDistinct rest =>
        exact ⟨distinct.holds, assetDistinct.asksDistinct_bake scopeDistinct address,
          List.forall_mem_cons.mpr ⟨rest, distinct.waiting⟩⟩

/-- One step keeps it. -/
theorem Distinct.next {run later : Run} (distinct : run.Distinct)
    (step : run.next files = .continues later) : later.Distinct := by
  obtain ⟨graph, current, frames⟩ := run
  cases current with
  | ended result =>
      cases frames with
      | nil => simp [Run.next] at step
      | cons frame frames =>
          obtain rfl := Progress.continues.inj step
          exact distinct.leave
  | asking address scope key resume =>
      have kept : Distinct ⟨graph.keep (graph.library files) [key],
          .asking address scope key resume, frames⟩ :=
        ⟨distinct.holds.keep files [key], distinct.current, distinct.waiting⟩
      simp only [Run.next, Graph.resolve_eq] at step
      cases found : (graph.library files).resolve key with
      | error error =>
          rw [found] at step
          obtain rfl := Progress.continues.inj step
          exact ⟨kept.holds, .ended fun value isValue => by contradiction, kept.waiting⟩
      | ok asset =>
          rw [found] at step
          obtain rfl := Progress.continues.inj step
          exact kept.enter (distinct.holds.resolve found)

theorem Distinct.reaches {run later : Run} (distinct : run.Distinct)
    (reach : run.Reaches files later) : later.Distinct :=
  reach.induction distinct fun _ _ step distinct => distinct.next step

theorem Distinct.finished {run : Run} (distinct : run.Distinct) {graph : Graph}
    {result : Except RenderError Value} (last : run.next files = .finished graph result) :
    GivesDistinct result := by
  unfold Run.next at last
  split at last
  · obtain ⟨-, rfl⟩ := Progress.finished.inj last
    cases distinct.current with
    | ended isDistinct => exact isDistinct
  · contradiction
  · split at last <;> contradiction

/-- A run ends with a value that binds no name twice, if it ends well. -/
theorem Distinct.finish {run : Run} (distinct : run.Distinct) (files : FileTree) :
    GivesDistinct (run.finish files).2 := by
  obtain ⟨last, graph, result, reach, finished⟩ := run.finishes files
  rw [finish_of_reaches reach, finish_of_next_eq_finished finished]
  exact (distinct.reaches reach).finished finished

end Run

namespace Graph

variable {graph : Graph}

/-- The run of an asset that is imported into such a scope. -/
theorem HoldsDistinct.assetRun (holds : graph.HoldsDistinct) (address : Address) {scope : Scope}
    (distinct : scope.Distinct) (key : String) :
    (graph.assetRun address scope key).Distinct :=
  ⟨holds, .ask distinct address key, fun _ member => absurd member List.not_mem_nil⟩

/-- The run of a page, which is baked without any names. -/
theorem HoldsDistinct.pageRun (holds : graph.HoldsDistinct) {page : Page}
    (distinct : page.asset.Distinct) : (graph.pageRun page).Distinct := by
  have beginning : Run.Distinct ⟨graph, .asking [] .root page.key fun value => pure value, []⟩ :=
    ⟨holds, .asking Scope.distinct_root fun _ isDistinct => .pure isDistinct,
      fun _ member => absurd member List.not_mem_nil⟩
  exact beginning.enter distinct

/-- What a graph bakes binds no name twice, whatever it was used for before. -/
theorem givesDistinct_bakeAsset (formats : List Format) (history : List (FileTree × Operation))
    (files : FileTree) {scope : Scope} (distinct : scope.Distinct) (key : String) :
    GivesDistinct (((empty formats).performAll history).bakeAsset files key scope).2 :=
  (((holdsDistinct_empty formats).performAll history).assetRun [] distinct key).finish files

theorem Obtained.holdsDistinct {formats : List Format} {page : Page}
    (obtained : Obtained formats graph page) : graph.HoldsDistinct := by
  induction obtained with
  | @resolve history files key graph asset given =>
      have holds := ((holdsDistinct_empty formats).performAll history).perform files (.resolve key)
      rwa [Graph.perform, given] at holds
  | @resolvePages history files graph pages page given member =>
      have holds := ((holdsDistinct_empty formats).performAll history).perform files .resolvePages
      rwa [Graph.perform, given] at holds
  | later _ files operation holds => exact holds.perform files operation

/-- Wherever an asset is imported while a page is rendered, it is baked into a scope that binds no
name twice. -/
theorem Obtained.distinct_scope {formats : List Format} {page : Page}
    (obtained : Obtained formats graph page) {files : FileTree} {later : Graph}
    {address : Address} {scope : Scope} {key : String} {resume : Value → Baking Value}
    {frames : List Frame}
    (reach : (graph.pageRun page).Reaches files
      ⟨later, .asking address scope key resume, frames⟩) : scope.Distinct := by
  have holds := obtained.holdsDistinct
  have start := holds.pageRun (holds page.key page.asset obtained.ready.kept)
  cases (start.reaches reach).current with
  | asking distinct rest => exact distinct

end Graph
end StaticSite
