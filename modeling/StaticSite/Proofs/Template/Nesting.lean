import Mathlib
import StaticSite.Proofs.Template.Regularity

/-!
# Templates that describe a model

A model is written as segments in the way that it nests: each scope stands between a tag that opens
it and one that closes it, with its named blocks first, and later branches of a conditional each
behind a tag of their own.  However deep the scopes nest, parsing gives the model back.
-/

namespace StaticSite
namespace Template

/-! ## Models written as segments -/

/-- Whether a tag is written to open a scope as a child. -/
inductive Tag.Opens (tag : Tag) : Shape → Prop
  | letIn {name text : String} (opcode : tag.opcode = '.')
      (operand : IsArrow name.toList text tag.operand) : Tag.Opens tag (.letIn name text)
  | conditional {text : String} {next : Option Model} (opcode : tag.opcode = '|')
      (operand : tag.operand = text) : Tag.Opens tag (.conditional (some text) next)
  | listIteration {item iterable : String} (opcode : tag.opcode = '[')
      (operand : IsArrow item.toList iterable tag.operand) :
      Tag.Opens tag (.listIteration item iterable)
  | mapIteration {key value : Option String} {map : String} {names : List Char}
      (opcode : tag.opcode = '\x7b') (pair : IsPair key value names)
      (operand : IsArrow names map tag.operand) : Tag.Opens tag (.mapIteration key value map)
  | importing {name key : String} (opcode : tag.opcode = 'd')
      (operand : IsArrow name.toList key tag.operand) : Tag.Opens tag (.importing name key)

/-- The operand that a condition is written as; no condition is an empty one. -/
def conditionText (condition : Option String) : String :=
  condition.getD ""

mutual

/-- Whether segments are what stands in a scope, without later branches: first the named blocks, and
then the children. -/
inductive Model.Written : Model → List Segment → Prop
  | mk {shape : Shape} {bindings : List (String × Model)} {children : List Node}
      {front back : List Segment} (blocks : BlocksWritten bindings front)
      (nodes : NodesWritten children back) :
      Model.Written (.mk shape bindings children) (front ++ back)

inductive BlocksWritten : List (String × Model) → List Segment → Prop
  | nil : BlocksWritten [] []
  | cons {name : String} {block : Model} {rest : List (String × Model)} {opening closing : Tag}
      {inside more : List Segment} (isOpening : opening.opcode = ':' ∧ opening.operand = name)
      (written : block.Written inside) (isClosing : closing.opcode = '/')
      (others : BlocksWritten rest more) :
      BlocksWritten ((name, block) :: rest)
        ([.tag opening] ++ inside ++ [.tag closing] ++ more)

inductive NodesWritten : List Node → List Segment → Prop
  | nil : NodesWritten [] []
  | cons {node : Node} {rest : List Node} {front back : List Segment} (written : node.Written front)
      (others : NodesWritten rest back) : NodesWritten (node :: rest) (front ++ back)

inductive Node.Written : Node → List Segment → Prop
  | literal {text : String} : Node.Written (.literal text) [.literal text]
  | expression {text : String} {strict : Bool} {tag : Tag}
      (opcode : tag.opcode = if strict then '=' else '~') (operand : tag.operand = text) :
      Node.Written (.expression text strict) [.tag tag]
  | importing {key : String} {tag : Tag} (opcode : tag.opcode = '+') (operand : tag.operand = key) :
      Node.Written (.importing key) [.tag tag]
  | scope {model : Model} {opening closing : Tag} {inside : List Segment}
      (opens : opening.Opens model.shape) (written : model.BranchesWritten inside)
      (isClosing : closing.opcode = '/') :
      Node.Written (.scope model) ([.tag opening] ++ inside ++ [.tag closing])

/-- Whether segments are what stands in a scope, with the later branches of a conditional. -/
inductive Model.BranchesWritten : Model → List Segment → Prop
  | last {model : Model} {segments : List Segment}
      (isLast : ∀ condition next, model.shape ≠ .conditional condition (some next))
      (written : model.Written segments) : Model.BranchesWritten model segments
  | branch {model next : Model} {condition nextCondition : Option String} {following : Option Model}
      {tag : Tag} {front back : List Segment}
      (isFirst : model.shape = .conditional condition (some next))
      (isNext : next.shape = .conditional nextCondition following)
      (written : model.Written front) (opcode : tag.opcode = ',')
      (operand : tag.operand = conditionText nextCondition) (later : next.BranchesWritten back) :
      Model.BranchesWritten model (front ++ [.tag tag] ++ back)

end

/-! ## Segments that lead on -/

/-- Whether segments lead from open scopes to open scopes. -/
def ScopeStack.Leads (stack : ScopeStack) (segments : List Segment) (next : ScopeStack) : Prop :=
  segments.foldlM ScopeStack.step stack = .ok next

section

variable {stack between next : ScopeStack} {front back : List Segment} {tag : Tag}

theorem ScopeStack.leads_nil (stack : ScopeStack) : stack.Leads [] stack :=
  rfl

theorem ScopeStack.Leads.append (first : stack.Leads front between)
    (second : between.Leads back next) : stack.Leads (front ++ back) next := by
  rw [Leads, List.foldlM_append]
  exact Except.bind_eq_ok_iff.mpr ⟨between, first, second⟩

theorem ScopeStack.leads_literal (stack : ScopeStack) (text : String) :
    stack.Leads [.literal text] (stack.modify (.append (.literal text))) :=
  rfl

theorem ScopeStack.leads_tag (applied : stack.apply tag = .ok next) :
    stack.Leads [.tag tag] next := by
  have stepped : stack.step (.tag tag) = .ok next := by rw [step, applied]
  exact Except.bind_eq_ok_iff.mpr ⟨next, stepped, rfl⟩

end

/-! ## Tags that are applied -/

/-- The scope before any later branch is there. -/
def Shape.withoutNext : Shape → Shape
  | .conditional condition _ => .conditional condition none
  | shape => shape

section

variable {stack : ScopeStack} {tag : Tag}

theorem ScopeStack.apply_block {name : String}
    (isOpening : tag.opcode = ':' ∧ tag.operand = name) (isName : IsBindable name) :
    stack.apply tag = .ok (stack.push (.binding name) .plain tag.location) := by
  obtain ⟨opcode, operand, location⟩ := tag
  obtain ⟨rfl, rfl⟩ := isOpening
  have read : identifier operand.toList = .ok operand := identifier_eq_ok_iff.mpr ⟨rfl, isName⟩
  simp only [apply, read]
  rfl

theorem ScopeStack.apply_expression {text : String} {strict : Bool}
    (isOpcode : tag.opcode = if strict then '=' else '~') (isOperand : tag.operand = text)
    (isText : IsOperand text) :
    stack.apply tag = .ok (stack.modify (.append (.expression text strict))) := by
  obtain ⟨opcode, operand, location⟩ := tag
  obtain rfl := isOperand
  have read : required .missingExpression operand = .ok operand :=
    required_eq_ok_iff.mpr ⟨rfl, isText.1⟩
  cases strict <;> obtain rfl := isOpcode <;> simp only [apply, read] <;> rfl

theorem ScopeStack.apply_importing {key : String} (isOpcode : tag.opcode = '+')
    (isOperand : tag.operand = key) (isKey : IsOperand key) :
    stack.apply tag = .ok (stack.modify (.append (.importing key))) := by
  obtain ⟨opcode, operand, location⟩ := tag
  obtain rfl := isOperand
  obtain rfl := isOpcode
  have read : required .missingAssetKey operand = .ok operand :=
    required_eq_ok_iff.mpr ⟨rfl, isKey.1⟩
  simp only [apply, read]
  rfl

theorem ScopeStack.apply_branch {condition : Option String} (isOpcode : tag.opcode = ',')
    (isOperand : tag.operand = conditionText condition)
    (isCondition : ∀ text ∈ condition, IsOperand text) :
    stack.apply tag = stack.branch condition := by
  obtain ⟨opcode, operand, location⟩ := tag
  obtain rfl := isOperand
  obtain rfl := isOpcode
  cases condition with
  | none => rfl
  | some text =>
      have isText : text ≠ "" := (isCondition text rfl).1
      simp [apply, conditionText, isText]

theorem ScopeStack.apply_close (isClosing : tag.opcode = '/') : stack.apply tag = stack.pop := by
  obtain ⟨opcode, operand, location⟩ := tag
  obtain rfl := isClosing
  rfl

/-- The two sides of an operand that binds a name are read. -/
theorem IsArrow.read_name {name text operand : String} (arrow : IsArrow name.toList text operand)
    (isName : IsBindable name) (isText : IsArrowOperand text) :
    arrowSides operand = .ok (name.toList, text) ∧ identifier name.toList = .ok name :=
  ⟨arrow.arrowSides_eq (Text.isTrimmed_of_forall isName.isBlank_eq_false)
      (isName.not_mem (by decide)) isText,
    identifier_eq_ok_iff.mpr ⟨rfl, isName⟩⟩

theorem ScopeStack.apply_opens {shape : Shape} (opens : tag.Opens shape) (regular : shape.Regular) :
    stack.apply tag = .ok (stack.push .child shape.withoutNext tag.location) := by
  obtain ⟨opcode, operand, location⟩ := tag
  cases opens with
  | letIn isOpcode arrow =>
      obtain rfl := isOpcode
      cases regular with
      | letIn isName isText =>
          obtain ⟨sides, read⟩ := arrow.read_name isName isText
          simp only [apply, sides, bind, Except.bind, read]
          rfl
  | conditional isOpcode isOperand =>
      obtain rfl := isOpcode
      obtain rfl := isOperand
      have isText : operand ≠ "" := by
        cases regular with
        | conditional isText => exact isText.1
        | chain isText => exact isText.1
      have read : required .missingExpression operand = .ok operand :=
        required_eq_ok_iff.mpr ⟨rfl, isText⟩
      simp only [apply, read]
      rfl
  | listIteration isOpcode arrow =>
      obtain rfl := isOpcode
      cases regular with
      | listIteration isItem isIterable =>
          obtain ⟨sides, read⟩ := arrow.read_name isItem isIterable
          simp only [apply, sides, bind, Except.bind, read]
          rfl
  | mapIteration isOpcode pair arrow =>
      obtain rfl := isOpcode
      cases regular with
      | mapIteration isKey isValue bindsSome isMap =>
          have sides := arrow.arrowSides_eq (pair.isTrimmed isKey isValue)
            (pair.not_mem isKey isValue) isMap
          have read := pair.pairNames_eq isKey isValue bindsSome
          simp only [apply, sides, bind, Except.bind, read]
          rfl
  | importing isOpcode arrow =>
      obtain rfl := isOpcode
      cases regular with
      | importing isName isKey =>
          obtain ⟨sides, read⟩ := arrow.read_name isName isKey
          simp only [apply, sides, bind, Except.bind, read]
          rfl

end

/-! ## Parsing what is written -/

/-- The model with more named blocks and more children at the end. -/
def Model.extend (bindings : List (String × Model)) (children : List Node) : Model → Model
  | mk shape before front => mk shape (before ++ bindings) (front ++ children)

section

variable {stack : ScopeStack} {block : Model}

theorem Model.Regular.isOperand_of_condition {model : Model} {condition : Option String}
    {next : Option Model} (regular : model.Regular)
    (isConditional : model.shape = .conditional condition next) :
    ∀ text ∈ condition, IsOperand text := by
  rintro text rfl
  have isShape := regular.shape_regular
  rw [isConditional] at isShape
  cases isShape with
  | conditional isText => exact isText
  | chain isText => exact isText

theorem Model.Regular.of_branch {model next : Model} {condition : Option String}
    (regular : model.Regular) (isConditional : model.shape = .conditional condition (some next)) :
    (∃ text, condition = some text) ∧ next.Regular := by
  have isShape := regular.shape_regular
  rw [isConditional] at isShape
  cases isShape with
  | chain _ _ isRegular => exact ⟨⟨_, rfl⟩, isRegular⟩

/-- Two changes of the innermost scope are one. -/
theorem ScopeStack.Leads.modify_modify {segments : List Segment} {before : ScopeStack}
    {first second change : Model → Model}
    (leads : before.Leads segments ((stack.modify first).modify second))
    (same : ∀ model, second (first model) = change model) :
    before.Leads segments (stack.modify change) := by
  obtain rfl : second ∘ first = change := funext same
  obtain ⟨root, _ | ⟨scope, outer⟩⟩ := stack <;> exact leads

theorem ScopeStack.modify_eq_self {change : Model → Model} (same : ∀ model, change model = model) :
    stack.modify change = stack := by
  obtain rfl : change = id := funext same
  obtain ⟨root, _ | ⟨scope, outer⟩⟩ := stack <;> rfl

/-- A block that is closed is put into the scope around it. -/
theorem ScopeStack.pop_block (name : String) (location : Location) :
    ((stack.push (.binding name) block.shape location).modify
        (.extend block.bindings block.children)).pop =
      .ok (stack.modify (.appendBinding name block)) := by
  obtain ⟨shape, bindings, children⟩ := block
  rfl

theorem ScopeStack.pop_child {scope : OpenScope} (isChild : scope.placement = .child) :
    ({ stack with opened := scope :: stack.opened } : ScopeStack).pop =
      .ok (stack.modify (.append (.scope scope.linked))) := by
  simp only [pop, isChild]

end

mutual

/-- What is written in a scope is put into it. -/
theorem Model.Written.leads {model : Model} {segments : List Segment}
    (written : model.Written segments) (regular : model.Regular) (stack : ScopeStack) :
    stack.Leads segments (stack.modify (.extend model.bindings model.children)) := by
  match written, regular with
  | .mk blocks nodes, .mk _ names areBlocks areNodes =>
      refine ((blocks.leads names areBlocks stack).append
        (nodes.leads areNodes _)).modify_modify fun model => ?_
      cases model
      simp [Model.extend, Model.bindings, Model.children]

theorem BlocksWritten.leads {bindings : List (String × Model)} {segments : List Segment}
    (written : BlocksWritten bindings segments)
    (names : ∀ name block, (name, block) ∈ bindings → IsBindable name ∧ block.shape = .plain)
    (areRegular : ∀ name block, (name, block) ∈ bindings → block.Regular) (stack : ScopeStack) :
    stack.Leads segments (stack.modify (.extend bindings [])) := by
  match written with
  | .nil =>
      rw [ScopeStack.modify_eq_self fun model => by cases model; simp [Model.extend]]
      exact stack.leads_nil
  | @BlocksWritten.cons name block rest opening closing _ _ isOpening inside isClosing others =>
      obtain ⟨isName, isPlain⟩ := names name block List.mem_cons_self
      have opened := ScopeStack.leads_tag (stack.apply_block isOpening isName)
      have filled := inside.leads (areRegular name block List.mem_cons_self)
        (stack.push (.binding name) .plain opening.location)
      have closed : ScopeStack.Leads
          ((stack.push (.binding name) .plain opening.location).modify
            (.extend block.bindings block.children))
          [.tag closing] (stack.modify (.appendBinding name block)) := by
        refine ScopeStack.leads_tag ?_
        rw [ScopeStack.apply_close isClosing, ← isPlain, ScopeStack.pop_block]
      have more := others.leads
        (fun other found member => names other found (List.mem_cons_of_mem _ member))
        (fun other found member => areRegular other found (List.mem_cons_of_mem _ member))
        (stack.modify (.appendBinding name block))
      refine (((opened.append filled).append closed).append more).modify_modify fun model => ?_
      cases model
      simp [Model.extend, Model.appendBinding]

theorem NodesWritten.leads {children : List Node} {segments : List Segment}
    (written : NodesWritten children segments) (areRegular : ∀ node ∈ children, node.Regular)
    (stack : ScopeStack) : stack.Leads segments (stack.modify (.extend [] children)) := by
  match written with
  | .nil =>
      rw [ScopeStack.modify_eq_self fun model => by cases model; simp [Model.extend]]
      exact stack.leads_nil
  | .cons first others =>
      obtain ⟨isRegular, areRegular⟩ := List.forall_mem_cons.mp areRegular
      refine ((first.leads isRegular stack).append
        (others.leads areRegular _)).modify_modify fun model => ?_
      cases model
      simp [Model.extend, Model.append]

theorem Node.Written.leads {node : Node} {segments : List Segment} (written : node.Written segments)
    (regular : node.Regular) (stack : ScopeStack) :
    stack.Leads segments (stack.modify (.append node)) := by
  match written, regular with
  | .literal, _ => exact stack.leads_literal _
  | .expression opcode operand, .expression isText =>
      exact ScopeStack.leads_tag (ScopeStack.apply_expression opcode operand isText)
  | .importing opcode operand, .importing isKey =>
      exact ScopeStack.leads_tag (ScopeStack.apply_importing opcode operand isKey)
  | @Node.Written.scope model opening closing _ opens inside isClosing, .scope isRegular alone =>
      have opened := ScopeStack.leads_tag
        (stack.apply_opens opens isRegular.shape_regular)
      obtain ⟨scope, filled, isChild, isModel⟩ :=
        inside.leads isRegular stack [] opening.location
      have closed := ScopeStack.leads_tag
        ((ScopeStack.apply_close isClosing).trans (stack.pop_child isChild))
      rw [isModel] at closed
      exact (opened.append filled).append closed

/-- What is written in a scope and its later branches opens the last of them, with the earlier ones
to link it to. -/
theorem Model.BranchesWritten.leads {model : Model} {segments : List Segment}
    (written : model.BranchesWritten segments) (regular : model.Regular) (stack : ScopeStack)
    (earlier : List Model) (location : Location) :
    ∃ scope : OpenScope,
      ScopeStack.Leads { stack with
          opened := ⟨.ofShape model.shape.withoutNext, .child, earlier, location⟩ :: stack.opened }
        segments { stack with opened := scope :: stack.opened } ∧
      scope.placement = .child ∧
      scope.linked = earlier.foldl (fun next branch => branch.followedBy next) model := by
  match written with
  | .last isLast inside =>
      refine ⟨⟨model, .child, earlier, location⟩, ?_, rfl, rfl⟩
      have whole : model.shape.withoutNext = model.shape := by
        cases shape : model.shape with
        | conditional condition next =>
            cases next with
            | none => rfl
            | some next => exact absurd shape (isLast condition next)
        | _ => rfl
      have filled := inside.leads regular { stack with
        opened := ⟨.ofShape model.shape.withoutNext, .child, earlier, location⟩ :: stack.opened }
      rw [whole] at filled ⊢
      obtain ⟨shape, bindings, children⟩ := model
      exact filled
  | @Model.BranchesWritten.branch _ next condition nextCondition following tag _ _ isFirst isNext
      inside opcode operand later =>
      obtain ⟨⟨text, isSome⟩, isRegular⟩ := regular.of_branch isFirst
      have filled := inside.leads regular { stack with opened :=
        ⟨.ofShape model.shape.withoutNext, .child, earlier, location⟩ :: stack.opened }
      obtain ⟨scope, more, isChild, isModel⟩ := later.leads isRegular stack
        (.mk model.shape.withoutNext model.bindings model.children :: earlier) location
      have branched : ScopeStack.apply
          { stack with opened :=
              ⟨.mk model.shape.withoutNext model.bindings model.children, .child, earlier,
                location⟩ :: stack.opened } tag =
          .ok { stack with opened :=
              ⟨.ofShape next.shape.withoutNext, .child,
                .mk model.shape.withoutNext model.bindings model.children :: earlier,
                location⟩ :: stack.opened } := by
        rw [ScopeStack.apply_branch opcode operand (isRegular.isOperand_of_condition isNext),
          isFirst, isNext, isSome]
        rfl
      refine ⟨scope, (filled.append (ScopeStack.leads_tag branched)).append more, isChild, ?_⟩
      obtain ⟨shape, bindings, children⟩ := model
      obtain rfl := isFirst
      exact isModel

end

/-! ## Parsing and writing -/

theorem parse_of_written {source : String} {segments : List Segment} {model : Model}
    (wellFormed : model.WellFormed) (scanned : scan source = .ok segments)
    (written : model.Written segments) : parse source = .ok model := by
  obtain ⟨shape, bindings, children⟩ := model
  obtain rfl : shape = .plain := wellFormed.plain
  have filled := written.leads wellFormed.regular .empty
  exact Except.bind_eq_ok_iff.mpr ⟨_, scanned, Except.bind_eq_ok_iff.mpr ⟨_, filled, rfl⟩⟩

/-- Parsing gives well-formed models only, and gives each of them back from every source that is
scanned as the model is written. -/
theorem parse_exact :
    (∀ source model, parse source = .ok model → model.WellFormed) ∧
    ∀ (model : Model) source segments, model.WellFormed → scan source = .ok segments →
      model.Written segments → parse source = .ok model :=
  ⟨fun _ _ parsed => wellFormed_of_parse parsed,
    fun _ _ _ wellFormed scanned written => parse_of_written wellFormed scanned written⟩

/-! ## An example

A named block and a conditional with three branches, of which the second holds an iteration. -/

namespace NestedExample

def block : Model := .mk .plain [] [.literal "x"]

def iteration : Model := .mk (.mapIteration none (some "e") "f") [] []

def third : Model := .mk (.conditional none none) [] [.literal "y"]

def second : Model := .mk (.conditional (some "d") (some third)) [] [.scope iteration]

def first : Model := .mk (.conditional (some "b") (some second)) [] [.expression "c" true]

def root : Model := .mk .plain [("a", block)] [.scope first]

/-- How the iteration is written. -/
def iterationSegments : List Segment :=
  [.tag ⟨'\x7b', "_, e <- f", ⟨1, 35⟩⟩, .tag ⟨'/', "", ⟨1, 50⟩⟩]

/-- How the branches are written. -/
def branchSegments : List Segment :=
  [.tag ⟨'=', "c", ⟨1, 21⟩⟩] ++ [.tag ⟨',', "d", ⟨1, 28⟩⟩] ++
    (iterationSegments ++ [.tag ⟨',', "", ⟨1, 55⟩⟩] ++ [.literal "y"])

/-- How the named block is written. -/
def blockSegments : List Segment :=
  [.tag ⟨':', "a", ⟨1, 1⟩⟩, .literal "x", .tag ⟨'/', "", ⟨1, 9⟩⟩]

/-- How the conditional is written. -/
def conditionalSegments : List Segment :=
  [.tag ⟨'|', "b", ⟨1, 14⟩⟩] ++ branchSegments ++ [.tag ⟨'/', "", ⟨1, 61⟩⟩]

def source : String :=
  "\x7b\x7b: a\x7d\x7dx\x7b\x7b/\x7d\x7d\x7b\x7b| b\x7d\x7d\x7b\x7b= c\x7d\x7d" ++
    "\x7b\x7b, d\x7d\x7d\x7b\x7b\x7b _, e <- f\x7d\x7d\x7b\x7b/\x7d\x7d" ++
    "\x7b\x7b,\x7d\x7dy\x7b\x7b/\x7d\x7d"

theorem wellFormed_root : root.WellFormed := by
  have isSlot : IsSlot (some "e") := by
    intro name same
    obtain rfl := Option.mem_some_iff.mp same
    decide
  have isBlock : block.Regular := (Model.regular_ofShape .plain).append (.literal (by decide))
  have isIteration : iteration.Regular :=
    Model.regular_ofShape (.mapIteration (fun _ same => by simp at same) isSlot (.inr (by simp))
      (by decide))
  have isThird : third.Regular := (Model.regular_ofShape .otherwise).append (.literal (by decide))
  have isSecond : second.Regular :=
    (Model.regular_ofShape (.chain (by decide) ⟨_, _, rfl⟩ isThird)).append
      (.scope isIteration fun _ same => by simp [iteration, Model.shape] at same)
  have isFirst : first.Regular :=
    (Model.regular_ofShape (.chain (by decide) ⟨_, _, rfl⟩ isSecond)).append
      (.expression (by decide))
  exact ⟨rfl, ((Model.regular_ofShape .plain).appendBinding (by decide) rfl isBlock).append
    (.scope isFirst fun _ same => by simp [first, Model.shape] at same)⟩

theorem written_root : root.Written (blockSegments ++ conditionalSegments) := by
  have inBlock : block.Written [.literal "x"] := .mk .nil (.cons .literal .nil)
  have blocks : BlocksWritten [("a", block)] blockSegments :=
    @BlocksWritten.cons "a" block [] ⟨':', "a", ⟨1, 1⟩⟩ ⟨'/', "", ⟨1, 9⟩⟩ _ _ ⟨rfl, rfl⟩ inBlock
      rfl .nil
  have inIteration : Node.Written (.scope iteration) iterationSegments :=
    .scope
      (.mapIteration rfl ⟨[], [' '], Text.isBlank_nil, Text.isBlank_space, rfl⟩
        ⟨[' '], [' '], Text.isBlank_space, Text.isBlank_space, by decide⟩)
      (.last (fun _ _ same => by simp [Model.shape] at same) (.mk .nil .nil)) rfl
  have inThird : third.BranchesWritten [.literal "y"] :=
    .last (fun _ _ same => by simp [third, Model.shape] at same) (.mk .nil (.cons .literal .nil))
  have inSecond : second.BranchesWritten
      (iterationSegments ++ [.tag ⟨',', "", ⟨1, 55⟩⟩] ++ [.literal "y"]) :=
    .branch rfl rfl (.mk .nil (.cons inIteration .nil)) rfl rfl inThird
  have value : Node.Written (.expression "c" true) [.tag ⟨'=', "c", ⟨1, 21⟩⟩] :=
    .expression rfl rfl
  have inFirst : first.BranchesWritten branchSegments :=
    .branch rfl rfl (.mk .nil (.cons value .nil)) rfl rfl inSecond
  have conditional : Node.Written (.scope first) conditionalSegments :=
    .scope (.conditional rfl rfl) inFirst rfl
  have nodes : NodesWritten [.scope first] conditionalSegments := by
    simpa using NodesWritten.cons conditional .nil
  exact .mk blocks nodes

/-- The example is well-formed, and is parsed from the source that is scanned as it is written. -/
theorem parse_exact_nested :
    scan source = .ok (blockSegments ++ conditionalSegments) ∧
      root.Written (blockSegments ++ conditionalSegments) ∧ parse source = .ok root ∧
      root.WellFormed := by
  have scanned : scan source = .ok (blockSegments ++ conditionalSegments) := by cbv
  have parsed := parse_exact.2 _ _ _ wellFormed_root scanned written_root
  exact ⟨scanned, written_root, parsed, parse_exact.1 _ _ parsed⟩

end NestedExample

end Template
end StaticSite
