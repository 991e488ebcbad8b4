import Mathlib
import StaticSite.Proofs.Expression.RoundTrip
import StaticSite.Proofs.Expression.Substitution
import StaticSite.Proofs.Template.Regularity

/-!
# Names that templates bind

Directives and expressions tell names on their own.  Each name that a template binds is one word of
an expression, and it has the value that it is bound to, unless it spells a truth value.
-/

namespace StaticSite
namespace Expression

/-! ## Names as expressions -/

/-- What a name is read as: a truth value if it spells one, or else itself. -/
def wordTree (name : String) : Tree :=
  if name = "true" then .boolean true
  else if name = "false" then .boolean false
  else .identifier name

theorem tokens_wordTree (name : String) :
    (wordTree name).tokens =
      [if name == "true" then .boolean true
        else if name == "false" then .boolean false
        else .identifier name] := by
  unfold wordTree
  by_cases isTrue : name = "true"
  · simp [isTrue, Tree.tokens]
  · by_cases isFalse : name = "false" <;> simp [isTrue, isFalse, Tree.tokens]

variable {name : String}

/-- What can be a name is read as one word, whatever its letters. -/
theorem parse_name (isName : isIdentifier name.toList = true) :
    parse name = .ok (wordTree name) := by
  have nothing : Ends [] := by
    rintro c ⟨⟩
  have tokenizes := tokenizes_nil.cons (spells_word isName) nothing
  rw [List.append_nil] at tokenizes
  obtain ⟨placed, read, same⟩ := tokenizes 0
  have cut : tokenize name.toList = .ok placed := read
  rw [parse, cut]
  exact treeOfTokens_tokens _ (same.trans (tokens_wordTree name).symm)

/-- So it has the value that it is bound to, unless it spells a truth value. -/
theorem evaluate_name (isName : isIdentifier name.toList = true) (scope : Scope) (value : Value) :
    evaluate (scope.bind name value) .any name =
      .ok (if name = "true" then .boolean true
        else if name = "false" then .boolean false
        else value) := by
  simp only [evaluate, parse_name isName, wordTree]
  by_cases isTrue : name = "true"
  · simp only [isTrue, ↓reduceIte]
    rfl
  · by_cases isFalse : name = "false"
    · simp only [isFalse, ↓reduceIte]
      rfl
    · have bound : (scope.bind name value).lookup? name = some value := by
        rw [Scope.lookup?_bind, if_pos rfl]
      simp only [isTrue, isFalse, ↓reduceIte]
      rw [eval_identifier_eq_coerce bound, Kind.coerce_any]

end Expression

namespace Template

/-! ## The names of a template -/

mutual

/-- The names that a model binds anywhere. -/
def Model.boundNames : Model → List String
  | .mk shape bindings children =>
      shape.boundNames ++ boundByBlocks bindings ++ boundByNodes children

def Shape.boundNames : Shape → List String
  | .letIn name _ => [name]
  | .conditional _ (some branch) => branch.boundNames
  | .listIteration item _ => [item]
  | .mapIteration key value _ => key.toList ++ value.toList
  | .importing name _ => [name]
  | _ => []

def boundByBlocks : List (String × Model) → List String
  | [] => []
  | (name, block) :: rest => name :: block.boundNames ++ boundByBlocks rest

def boundByNodes : List Node → List String
  | [] => []
  | node :: rest => node.boundNames ++ boundByNodes rest

def Node.boundNames : Node → List String
  | .scope model => model.boundNames
  | _ => []

end

section

variable {name : String}

theorem IsSlot.isBindable {slot : Option String} (isSlot : IsSlot slot)
    (member : name ∈ slot.toList) : IsBindable name :=
  (isSlot name (Option.mem_toList.mp member)).1

mutual

/-- All names that a regular model binds can be bound. -/
theorem Model.Regular.isBindable : ∀ {model : Model}, model.Regular →
    name ∈ model.boundNames → IsBindable name
  | .mk shape bindings children, .mk isShape names blocks nodes, member => by
      simp only [Model.boundNames, List.mem_append] at member
      rcases member with (ofShape | ofBlocks) | ofNodes
      · exact isShape.isBindable ofShape
      · exact isBindable_of_blocks bindings (fun other block member => (names other block member).1)
          blocks ofBlocks
      · exact isBindable_of_nodes children nodes ofNodes

theorem Shape.Regular.isBindable : ∀ {shape : Shape}, shape.Regular →
    name ∈ shape.boundNames → IsBindable name
  | _, .letIn isName _, member => List.mem_singleton.mp member ▸ isName
  | _, .chain _ _ regular, member => regular.isBindable member
  | _, .listIteration isItem _, member => List.mem_singleton.mp member ▸ isItem
  | _, .mapIteration isKey isValue _ _, member =>
      (List.mem_append.mp member).elim isKey.isBindable isValue.isBindable
  | _, .importing isName _, member => List.mem_singleton.mp member ▸ isName
  | _, .plain, member | _, .conditional _, member | _, .otherwise, member =>
      absurd member List.not_mem_nil

theorem isBindable_of_blocks : ∀ blocks : List (String × Model),
    (∀ other block, (other, block) ∈ blocks → IsBindable other) →
    (∀ other block, (other, block) ∈ blocks → block.Regular) →
    name ∈ boundByBlocks blocks → IsBindable name
  | [], _, _, member => absurd member List.not_mem_nil
  | (first, block) :: rest, areBindable, areRegular, member => by
      simp only [boundByBlocks, List.cons_append, List.mem_cons, List.mem_append] at member
      rcases member with rfl | inside | later
      · exact areBindable _ block List.mem_cons_self
      · exact (areRegular first block List.mem_cons_self).isBindable inside
      · exact isBindable_of_blocks rest
          (fun other found member => areBindable other found (List.mem_cons_of_mem _ member))
          (fun other found member => areRegular other found (List.mem_cons_of_mem _ member)) later

theorem isBindable_of_nodes : ∀ nodes : List Node, (∀ node ∈ nodes, node.Regular) →
    name ∈ boundByNodes nodes → IsBindable name
  | [], _, member => absurd member List.not_mem_nil
  | node :: rest, areRegular, member => by
      obtain ⟨isRegular, areRegular⟩ := List.forall_mem_cons.mp areRegular
      rcases List.mem_append.mp member with inside | later
      · exact isRegular.isBindable inside
      · exact isBindable_of_nodes rest areRegular later

theorem Node.Regular.isBindable : ∀ {node : Node}, node.Regular →
    name ∈ node.boundNames → IsBindable name
  | _, .scope regular _, member => regular.isBindable member
  | _, .literal _, member | _, .expression _, member | _, .importing _, member =>
      absurd member List.not_mem_nil

end

end

/-- Every name that a template binds anywhere is one that directives accept, and every name that
they accept has, as an expression, the value that it is bound to, whatever else the scope binds;
only `true` and `false` are truth values there. -/
theorem evaluate_boundName :
    (∀ source model, parse source = .ok model → ∀ name ∈ model.boundNames,
      identifier name.toList = .ok name) ∧
    ∀ chars name, identifier chars = .ok name → ∀ (scope : Scope) (value : Value),
      Expression.evaluate (scope.bind name value) .any name =
        .ok (if name = "true" then .boolean true
          else if name = "false" then .boolean false
          else value) := by
  refine ⟨fun source model parsed name member => ?_, fun chars name accepted scope value => ?_⟩
  · exact identifier_eq_ok_iff.mpr ⟨rfl, (wellFormed_of_parse parsed).regular.isBindable member⟩
  · exact Expression.evaluate_name (identifier_eq_ok_iff.mp accepted).2 scope value

/-- A template that binds a name and shows it. -/
def titledSource : String :=
  "\x7b\x7b. title <- 5\x7d\x7d\x7b\x7b= title\x7d\x7d\x7b\x7b/\x7d\x7d"

def titledModel : Model :=
  .mk .plain [] [.scope (.mk (.letIn "title" "5") [] [.expression "title" true])]

/-- What the name is bound to is read back. -/
theorem evaluate_boundName_title :
    parse titledSource = .ok titledModel ∧ "title" ∈ titledModel.boundNames ∧
      identifier "title".toList = .ok "title" ∧
      Expression.evaluate (Scope.root.bind "title" (.integer 5)) .any "title" =
        .ok (.integer 5) := by
  have parsed : parse titledSource = .ok titledModel := by cbv
  have member : "title" ∈ titledModel.boundNames := by decide
  have accepted := evaluate_boundName.1 _ _ parsed _ member
  exact ⟨parsed, member, accepted, evaluate_boundName.2 _ _ accepted .root (.integer 5)⟩

/-- A template that binds `true` to an integer and shows it. -/
def shadowingSource : String :=
  "\x7b\x7b. true <- 5\x7d\x7d\x7b\x7b= true\x7d\x7d\x7b\x7b/\x7d\x7d"

/-- A directive binds `true`, but the expression `true` is the truth value and not what it is bound
to. -/
theorem exists_evaluate_ne_bound :
    parse shadowingSource =
        .ok (.mk .plain [] [.scope (.mk (.letIn "true" "5") [] [.expression "true" true])]) ∧
      identifier "true".toList = .ok "true" ∧
      Expression.evaluate (Scope.root.bind "true" (.integer 5)) .any "true" =
        .ok (.boolean true) ∧
      ¬∀ chars name, identifier chars = .ok name → ∀ (scope : Scope) (value : Value),
        Expression.evaluate (scope.bind name value) .any name = .ok value := by
  have accepted : identifier "true".toList = .ok "true" := by decide +kernel
  have read : Expression.evaluate (Scope.root.bind "true" (.integer 5)) .any "true" =
      .ok (.boolean true) :=
    Expression.evaluate_name (identifier_eq_ok_iff.mp accepted).2 .root (.integer 5)
  refine ⟨by cbv, accepted, read, fun readBack => ?_⟩
  have same := readBack _ _ accepted .root (.integer 5)
  rw [read] at same
  simp at same

end Template
end StaticSite
