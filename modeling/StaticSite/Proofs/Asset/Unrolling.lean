import Mathlib
import StaticSite.Proofs.Asset.Inlining
import StaticSite.Proofs.Expression.Positions
import StaticSite.Proofs.Template.Chains

/-!
# Unrolling iterations

An iteration over a list or a string comes to the same as its unrolling: for each position, in
order, the same blocks and children are baked where the item at that position is named.
-/

namespace StaticSite

open Template (Model Node Baking Importer)
open Expression (evaluate itemText)

namespace Template

/-! ## What is rendered -/

/-- What comes out of a model. -/
def rendered (imports : Importer) (address : Address) (ambient : Scope) (model : Model) :
    Except RenderError String :=
  Baked.text <$> (bake imports .alone address ambient model).result

/-- What comes out of what a scope renders. -/
def renderedNodes (imports : Importer) (address : Address) (scope : Scope) (nodes : List Node) :
    Except RenderError String :=
  String.join <$> ((bakeNodes address scope nodes).outcome imports).result

/-- The scope that the named blocks of a model are bound in. -/
def boundBlocks (imports : Importer) (address : Address) (ambient : Scope)
    (bindings : List (String × Model)) : Except RenderError Scope :=
  ((bakeBindings address 0 ambient bindings).outcome imports).result

section

variable (imports : Importer) (address : Address) (ambient : Scope)
  (bindings : List (String × Model)) (children : List Node)

theorem join_map_cons (text : String) (others : Except RenderError (List String)) :
    String.join <$> (text :: ·) <$> others = (text ++ ·) <$> String.join <$> others := by
  rw [Functor.map_map, Functor.map_map]
  exact congrArg (· <$> others) (funext fun _ => String.join_cons)

theorem join_map_append (texts : List String) (others : Except RenderError (List String)) :
    String.join <$> (texts ++ ·) <$> others =
      (String.join texts ++ ·) <$> String.join <$> others := by
  rw [Functor.map_map, Functor.map_map]
  exact congrArg (· <$> others) (funext fun _ => String.join_append)

/-- What is baked for each of some items comes out in order, up to the first that fails. -/
theorem join_result_gather {α : Type} (items : List α) (bake : α → Baking (List String)) :
    String.join <$> ((Baking.gather items bake).outcome imports).result =
      String.join <$> items.mapM fun item =>
        String.join <$> ((bake item).outcome imports).result := by
  induction items with
  | nil => rfl
  | cons item items induction =>
      rw [Baking.gather, Baking.result_outcome_bind, List.mapM_cons]
      simp only [Baking.result_outcome_bind, map_bind, bind_map_left, map_pure]
      refine congrArg _ (funext fun texts => ?_)
      have before := join_map_append texts ((Baking.gather items bake).outcome imports).result
      have after := join_map_cons (String.join texts) (items.mapM fun item =>
        String.join <$> ((bake item).outcome imports).result)
      rw [induction, ← after, Functor.map_map, Functor.map_map, ← bind_pure_comp,
        ← bind_pure_comp] at before
      exact before

theorem rendered_letIn (name text : String) :
    rendered imports address ambient (.mk (.letIn name text) bindings children) =
      boundBlocks imports address ambient bindings >>= fun scope =>
        evaluate scope .any text >>= fun value =>
          renderedNodes imports (bindings.length :: address) (scope.bind name value) children := by
  rw [rendered, bake, Model.bake, Baking.result_outcome_bind, map_bind]
  refine congrArg _ (funext fun scope => ?_)
  rw [Baking.result_outcome_bind, map_bind]
  refine congrArg _ (funext fun value => ?_)
  rw [Baking.result_outcome_bind, map_bind]
  exact bind_pure_comp String.join _

theorem rendered_listIteration (name text : String) :
    rendered imports address ambient (.mk (.listIteration name text) bindings children) =
      boundBlocks imports address ambient bindings >>= fun scope =>
        evaluate scope .list text >>= fun list =>
          String.join <$> (List.range (list.length?.getD 0)).mapM fun position =>
            itemAt list position >>= fun item =>
              renderedNodes imports (bindings.length :: address) (scope.bind name item)
                children := by
  rw [rendered, bake, Model.bake, Baking.result_outcome_bind, map_bind]
  refine congrArg _ (funext fun scope => ?_)
  rw [Baking.result_outcome_bind, map_bind]
  refine congrArg _ (funext fun list => ?_)
  rw [Baking.result_outcome_bind, map_bind]
  refine ((bind_pure_comp String.join _).trans (join_result_gather ..)).trans ?_
  refine congrArg (String.join <$> List.mapM · _) (funext fun position => ?_)
  rw [Baking.result_outcome_bind, map_bind]
  rfl

/-- A model without children bakes to the scope of its named blocks. -/
theorem outcome_bake_blocks :
    ((Asset.template (.mk .plain bindings [])).bake address ambient).outcome imports =
      ((bakeBindings address 0 ambient bindings).outcome imports).map fun scope =>
        .scope address scope.frames "" := by
  have plain : ((Model.mk .plain bindings []).bake .alone address ambient).outcome imports =
      ((bakeBindings address 0 ambient bindings).outcome imports).andThen _ := bake_plain rfl
  rw [Asset.bake, Baking.outcome_bind_pure, plain]
  obtain ⟨keys, error | scope⟩ := (bakeBindings address 0 ambient bindings).outcome imports
  · rfl
  · exact congrArg (fun reached => Outcome.mk reached _) (List.append_nil keys)

end

/-! ## Items -/

/-- The items of a list, or the characters of a text. -/
def itemsOf : Value → List Value
  | .list items => items
  | .string text => text.toList.map fun c => .string c.toString
  | _ => []

theorem length_itemsOf {list : Value} {length : Nat} (measured : list.length? = some length) :
    (itemsOf list).length = length := by
  cases list with
  | string text => simpa [itemsOf, Value.length?, String.length_toList] using measured
  | list items => simpa [itemsOf, Value.length?] using measured
  | _ => contradiction

/-- What an iteration visits is the item at that position. -/
theorem index?_of_itemsOf {list item : Value} {position : Nat} (fits : position < Nat.pow 2 63)
    (visited : (itemsOf list)[position]? = some item) :
    list.index? .any (.ofNat position) = .ok (some item) := by
  have passes : some <$> Kind.any.coerce item = .ok (some item) :=
    congrArg (some <$> ·) (Kind.coerce_any item)
  have noSign : ¬ Int64.ofNat position < 0 := by
    have nonneg := Expression.nonneg_ofNat_of_lt fits
    rw [Int64.le_iff_toInt_le] at nonneg
    rw [Int64.lt_iff_toInt_lt]
    exact Int.not_lt.mpr nonneg
  rw [Value.index?, if_neg noSign, Expression.toNat_ofNat_of_lt fits]
  cases list with
  | string text =>
      refine Except.bind_eq_ok_iff.mpr ⟨some item, congrArg Except.ok ?_, passes⟩
      simpa only [itemsOf, List.getElem?_map] using visited
  | list items => exact Except.bind_eq_ok_iff.mpr ⟨some item, congrArg Except.ok visited, passes⟩
  | _ => contradiction

/-- So every position that an iteration comes to has an item. -/
theorem itemAt_eq_ok {list item : Value} {position : Nat} (fits : position < Nat.pow 2 63)
    (visited : (itemsOf list)[position]? = some item) : itemAt list position = .ok item :=
  Except.bind_eq_ok_iff.mpr ⟨_, index?_of_itemsOf fits visited, rfl⟩

end Template

namespace Graph

open Template (itemsOf itemAt)

/-- What comes out of a template that is baked in a scope. -/
def rendered (graph : Graph) (files : FileTree) (address : Address) (ambient : Scope)
    (model : Model) : Except RenderError String :=
  Value.text <$> ((graph.templateRun address ambient model).finish files).2

/-- The value that named blocks are baked to: the scope that they are bound in, without a text. -/
def bakedBlocks (graph : Graph) (files : FileTree) (address : Address) (ambient : Scope)
    (bindings : List (String × Model)) : Except RenderError Value :=
  ((graph.templateRun address ambient (.mk .plain bindings [])).finish files).2

variable {graph : Graph} {files : FileTree} {address : Address} {ambient scope : Scope}

theorem rendered_eq (model : Model) :
    graph.rendered files address ambient model =
      Template.rendered ((graph.library files).importer graph.stack) address ambient model := by
  rw [rendered, templateRun, Run.finish_eq, Template.rendered, Asset.bake,
    Baking.result_outcome_bind, map_bind]
  exact bind_pure_comp Template.Baked.text _

theorem bakedBlocks_eq (bindings : List (String × Model)) :
    graph.bakedBlocks files address ambient bindings =
      (fun scope => Value.scope address scope.frames "") <$>
        Template.boundBlocks ((graph.library files).importer graph.stack) address ambient
          bindings := by
  rw [bakedBlocks, templateRun, Run.finish_eq, Template.outcome_bake_blocks]
  rfl

theorem boundBlocks_eq_ok {bindings : List (String × Model)}
    (baked : graph.bakedBlocks files address ambient bindings =
      .ok (.scope address scope.frames "")) :
    Template.boundBlocks ((graph.library files).importer graph.stack) address ambient bindings =
      .ok scope := by
  rw [bakedBlocks_eq, Except.map_eq_ok_iff] at baked
  obtain ⟨found, bound, same⟩ := baked
  obtain ⟨frames⟩ := found
  obtain ⟨-, rfl, -⟩ := Value.scope.inj same
  exact bound

theorem boundBlocks_eq_error {bindings : List (String × Model)} {error : RenderError}
    (fails : graph.bakedBlocks files address ambient bindings = .error error) :
    Template.boundBlocks ((graph.library files).importer graph.stack) address ambient bindings =
      .error error := by
  rw [bakedBlocks_eq] at fails
  cases bound : Template.boundBlocks ((graph.library files).importer graph.stack) address ambient
      bindings with
  | error other => simpa [bound] using fails
  | ok scope => simp [bound] at fails

section

variable {iterable : String} {list : Value} {bindings : List (String × Model)}
  (baked : graph.bakedBlocks files address ambient bindings =
    .ok (.scope address scope.frames ""))
  (evaluates : evaluate scope .list iterable = .ok list) (name : String) (children : List Node)

include baked evaluates

/-- What an iteration visits comes out as what the let-in does that names it by its position. -/
theorem rendered_letIn_itemText {item : Value} {position : Nat} (fits : position < Nat.pow 2 63)
    (visited : (itemsOf list)[position]? = some item) :
    graph.rendered files address ambient
        (.mk (.letIn name (itemText iterable position)) bindings children) =
      Template.renderedNodes ((graph.library files).importer graph.stack)
        (bindings.length :: address) (scope.bind name item) children := by
  have named := Expression.evaluate_itemText evaluates fits
    (Template.index?_of_itemsOf fits visited)
  rw [rendered_eq, Template.rendered_letIn, boundBlocks_eq_ok baked]
  change evaluate scope .any (itemText iterable position) >>= _ = _
  rw [named]
  rfl

theorem rendered_listIteration_eq :
    graph.rendered files address ambient (.mk (.listIteration name iterable) bindings children) =
      String.join <$> (List.range (list.length?.getD 0)).mapM fun position =>
        itemAt list position >>= fun item =>
          Template.renderedNodes ((graph.library files).importer graph.stack)
            (bindings.length :: address) (scope.bind name item) children := by
  rw [rendered_eq, Template.rendered_listIteration, boundBlocks_eq_ok baked]
  change evaluate scope .list iterable >>= _ = _
  rw [evaluates]
  rfl

/-- A let-in that names the item at a position comes out as the round of the iteration there. -/
theorem rendered_letIn_eq_round {length position : Nat} (measured : list.length? = some length)
    (fits : length ≤ Nat.pow 2 63) (inside : position < length) :
    graph.rendered files address ambient
        (.mk (.letIn name (itemText iterable position)) bindings children) =
      itemAt list position >>= fun item =>
        Template.renderedNodes ((graph.library files).importer graph.stack)
          (bindings.length :: address) (scope.bind name item) children := by
  have visited := List.getElem?_eq_getElem
    (Template.length_itemsOf measured ▸ inside : position < (itemsOf list).length)
  rw [rendered_letIn_itemText baked evaluates name children (by omega) visited,
    Template.itemAt_eq_ok (by omega) visited]
  rfl

end

/-- An iteration over a list or a string of some length, in the scope that its named blocks are
bound in, comes to the same as its unrolling: it comes out just if for each position, in order, what
names the item there does, as all of their texts one behind the other, and else fails as the first
of them that fails.  What is visited at a position is the item there, so one is always found.  If
the named blocks fail then it fails as they do, even where the list would be empty.  Lengths are
those that a machine word can hold. -/
theorem templateRun_listIteration (graph : Graph) (files : FileTree) (address : Address)
    (ambient : Scope) (name iterable : String) (bindings : List (String × Model))
    (children : List Node) :
    let iteration := graph.rendered files address ambient
      (.mk (.listIteration name iterable) bindings children)
    let blocks := graph.bakedBlocks files address ambient bindings
    let unrolled (position : Nat) := graph.rendered files address ambient
      (.mk (.letIn name (itemText iterable position)) bindings children)
    (∀ error, blocks = .error error → iteration = .error error) ∧
      ∀ scope list length, blocks = .ok (.scope address scope.frames "") →
        evaluate scope .list iterable = .ok list → list.length? = some length →
        length ≤ Nat.pow 2 63 →
        (∀ position < length, ∃ item, (itemsOf list)[position]? = some item ∧
          list.index? .any (.ofNat position) = .ok (some item)) ∧
          (∀ text, iteration = .ok text ↔
            ∃ texts : List String, texts.length = length ∧ String.join texts = text ∧
              ∀ position part, texts[position]? = some part → unrolled position = .ok part) ∧
          ∀ error, iteration = .error error ↔
            ∃ position < length, unrolled position = .error error ∧
              ∀ earlier < position, ∃ part, unrolled earlier = .ok part := by
  intro iteration blocks unrolled
  refine ⟨fun error fails => ?_, ?_⟩
  · change rendered _ _ _ _ _ = _
    rw [rendered_eq, Template.rendered_listIteration, boundBlocks_eq_error fails]
    rfl
  · intro scope list length baked evaluates measured fits
    have each (position place : Nat) (visited : (List.range length)[position]? = some place) :
        unrolled position = itemAt list place >>= fun item =>
          Template.renderedNodes ((graph.library files).importer graph.stack)
            (bindings.length :: address) (scope.bind name item) children := by
      obtain ⟨inside, rfl⟩ := List.getElem?_eq_some_iff.mp visited
      rw [List.length_range] at inside
      rw [List.getElem_range]
      exact rendered_letIn_eq_round baked evaluates name children measured fits inside
    have whole : iteration = _ := rendered_listIteration_eq baked evaluates name children
    rw [measured, Option.getD_some] at whole
    refine ⟨fun position inside => ?_, fun text => ?_, fun error => ?_⟩
    · have visited := List.getElem?_eq_getElem
        (Template.length_itemsOf measured ▸ inside : position < (itemsOf list).length)
      exact ⟨_, visited, Template.index?_of_itemsOf (by omega) visited⟩
    · rw [whole, Except.map_eq_ok_iff]
      simp only [Except.mapM_eq_ok_iff_positions each, List.length_range]
      grind
    · rw [whole, Except.map_eq_error_iff, Except.mapM_eq_error_iff_positions each,
        List.length_range]

/-- A block, and what goes through the characters of a word. -/
def wordBlocks : List (String × Model) :=
  [("end", .mk .plain [] [.literal ";"])]

def wordNodes : List Node :=
  [.expression "word.length" true, .scope (.mk (.listIteration "letter" "word") []
    [.literal " ", .expression "letter" true]), .expression "end" true]

/-- A graph on which nothing is registered. -/
def bareGraph : Graph :=
  ⟨[], [], [], [], []⟩

def wordScope : Scope :=
  Scope.root.bind "words" (.list [.string "été", .string "no"])

/-- Two words, of which one has characters of two bytes, come out one behind the other. -/
theorem templateRun_listIteration_words :
    (bareGraph.rendered ⟨[], []⟩ [] wordScope
        (.mk (.letIn "word" (itemText "words" 0)) wordBlocks wordNodes) = .ok "3 é t é;" ∧
      bareGraph.rendered ⟨[], []⟩ [] wordScope
        (.mk (.letIn "word" (itemText "words" 1)) wordBlocks wordNodes) = .ok "2 n o;") ∧
    bareGraph.rendered ⟨[], []⟩ [] wordScope
        (.mk (.listIteration "word" "words") wordBlocks wordNodes) = .ok "3 é t é;2 n o;" := by
  have blocks : bareGraph.bakedBlocks ⟨[], []⟩ [] wordScope wordBlocks =
      .ok (.scope [] (wordScope.bind "end" (.scope [0] wordScope.frames ";")).frames "") := by
    rw [bakedBlocks_eq]
    cbv
  have evaluates : evaluate (wordScope.bind "end" (.scope [0] wordScope.frames ";")) .list
      "words" = .ok (.list [.string "été", .string "no"]) := by
    cbv
  have parts : bareGraph.rendered ⟨[], []⟩ [] wordScope
        (.mk (.letIn "word" (itemText "words" 0)) wordBlocks wordNodes) = .ok "3 é t é;" ∧
      bareGraph.rendered ⟨[], []⟩ [] wordScope
        (.mk (.letIn "word" (itemText "words" 1)) wordBlocks wordNodes) = .ok "2 n o;" := by
    constructor
    · rw [rendered_letIn_itemText blocks evaluates "word" wordNodes (by decide) rfl]
      cbv
    · rw [rendered_letIn_itemText blocks evaluates "word" wordNodes (by decide) rfl]
      cbv
  obtain ⟨-, unrolls⟩ := templateRun_listIteration bareGraph ⟨[], []⟩ [] wordScope "word"
    "words" wordBlocks wordNodes
  obtain ⟨-, comesOut, -⟩ := unrolls _ _ 2 blocks evaluates rfl (by decide)
  refine ⟨parts, (comesOut _).mpr ⟨["3 é t é;", "2 n o;"], rfl, by decide, ?_⟩⟩
  rintro (_ | _ | position) part found
  · obtain rfl := Option.some.inj found
    exact parts.1
  · obtain rfl := Option.some.inj found
    exact parts.2
  · contradiction

end Graph
end StaticSite
