import StaticSite.Proofs.Template.Operands
import StaticSite.Proofs.Template.Scanning

/-!
# The models that templates describe

The model of every template has a regular form: its names can be bound, its operands are there and
trimmed, and its conditionals are chains of branches of which at most the last has no condition.
The open scopes have this form after each segment.
-/

namespace StaticSite
namespace Template

/-- Whether the scope is a branch of a conditional. -/
def Shape.IsBranch (shape : Shape) : Prop :=
  ∃ condition next, shape = .conditional condition next

/-- Whether the scope can stand on its own: it is not a branch without a condition. -/
def Shape.StandsAlone (shape : Shape) : Prop :=
  ∀ next, shape ≠ .conditional none next

mutual

/-- Whether a scope and all within it have the form that parsing gives them. -/
inductive Model.Regular : Model → Prop
  | mk {shape : Shape} {bindings : List (String × Model)} {children : List Node}
      (isShape : shape.Regular)
      (names : ∀ name block, (name, block) ∈ bindings → IsBindable name ∧ block.shape = .plain)
      (blocks : ∀ name block, (name, block) ∈ bindings → block.Regular)
      (nodes : ∀ node ∈ children, node.Regular) :
      Model.Regular (.mk shape bindings children)

inductive Shape.Regular : Shape → Prop
  | plain : Shape.Regular .plain
  | letIn {name text : String} (isName : IsBindable name) (isText : IsArrowOperand text) :
      Shape.Regular (.letIn name text)
  | conditional {text : String} (isText : IsOperand text) :
      Shape.Regular (.conditional (some text) none)
  | chain {text : String} {branch : Model} (isText : IsOperand text)
      (isBranch : branch.shape.IsBranch) (regular : branch.Regular) :
      Shape.Regular (.conditional (some text) (some branch))
  | otherwise : Shape.Regular (.conditional none none)
  | listIteration {item iterable : String} (isItem : IsBindable item)
      (isIterable : IsArrowOperand iterable) : Shape.Regular (.listIteration item iterable)
  | mapIteration {key value : Option String} {map : String} (isKey : IsSlot key)
      (isValue : IsSlot value) (bindsSome : key ≠ none ∨ value ≠ none)
      (isMap : IsArrowOperand map) : Shape.Regular (.mapIteration key value map)
  | importing {name key : String} (isName : IsBindable name) (isKey : IsArrowOperand key) :
      Shape.Regular (.importing name key)

inductive Node.Regular : Node → Prop
  | literal {text : String} (isText : text ≠ "") : Node.Regular (.literal text)
  | expression {text : String} {strict : Bool} (isText : IsOperand text) :
      Node.Regular (.expression text strict)
  | importing {key : String} (isKey : IsOperand key) : Node.Regular (.importing key)
  | scope {model : Model} (regular : model.Regular) (alone : model.shape.StandsAlone) :
      Node.Regular (.scope model)

end

/-- Whether a model has the form that the model of a template has. -/
structure Model.WellFormed (model : Model) : Prop where
  plain : model.shape = .plain
  regular : model.Regular

/-! ## Scopes that grow -/

section

variable {model block branch next : Model} {shape : Shape} {node : Node} {name text : String}

@[simp]
theorem Model.shape_append (node : Node) (model : Model) : (model.append node).shape = model.shape := by
  cases model
  rfl

@[simp]
theorem Model.shape_appendBinding (name : String) (block model : Model) :
    (appendBinding name block model).shape = model.shape := by
  cases model
  rfl

theorem Model.regular_ofShape (regular : shape.Regular) : (ofShape shape).Regular :=
  .mk regular (fun _ _ member => by simp at member) (fun _ _ member => by simp at member)
    fun _ member => by simp at member

theorem Model.Regular.shape_regular (regular : model.Regular) : model.shape.Regular := by
  cases regular with
  | mk shape => exact shape

theorem Model.Regular.append (regular : model.Regular) (isNode : node.Regular) :
    (model.append node).Regular := by
  cases regular with
  | mk shape names blocks children =>
      refine .mk shape names blocks fun other member => ?_
      rcases List.mem_append.mp member with before | last
      · exact children other before
      · obtain rfl := List.mem_singleton.mp last
        exact isNode

theorem Model.Regular.appendBinding (regular : model.Regular) (isName : IsBindable name)
    (isPlain : block.shape = .plain) (isBlock : block.Regular) :
    (Model.appendBinding name block model).Regular := by
  cases regular with
  | mk shape names blocks children =>
      refine .mk shape (fun other found member => ?_) (fun other found member => ?_) children
      · rcases List.mem_append.mp member with before | last
        · exact names other found before
        · obtain ⟨rfl, rfl⟩ := Prod.mk.inj (List.mem_singleton.mp last)
          exact ⟨isName, isPlain⟩
      · rcases List.mem_append.mp member with before | last
        · exact blocks other found before
        · obtain ⟨-, rfl⟩ := Prod.mk.inj (List.mem_singleton.mp last)
          exact isBlock

/-- A branch that no other follows yet. -/
structure Model.LastBranch (model : Model) : Prop where
  regular : model.Regular
  condition : ∃ text, model.shape = .conditional (some text) none

theorem Model.LastBranch.followedBy (last : branch.LastBranch) (regular : next.Regular)
    (isBranch : next.shape.IsBranch) :
    (branch.followedBy next).Regular ∧
      ∃ text, (branch.followedBy next).shape = .conditional (some text) (some next) := by
  obtain ⟨⟨shape, names, blocks, children⟩, text, rfl⟩ := last
  cases shape with
  | conditional isText =>
      exact ⟨.mk (.chain isText isBranch regular) names blocks children, text, rfl⟩

/-- Branches are linked into a regular scope, that stands alone if there are any before the last. -/
theorem Model.Regular.linked {earlier : List Model} (areLast : ∀ branch ∈ earlier, branch.LastBranch)
    (regular : model.Regular) (isBranch : earlier ≠ [] → model.shape.IsBranch)
    (alone : earlier = [] → model.shape.StandsAlone) :
    (earlier.foldl (fun next branch => branch.followedBy next) model).Regular ∧
      (earlier.foldl (fun next branch => branch.followedBy next) model).shape.StandsAlone := by
  induction earlier generalizing model with
  | nil => exact ⟨regular, alone rfl⟩
  | cons branch earlier induction =>
      obtain ⟨isLast, areLast⟩ := List.forall_mem_cons.mp areLast
      obtain ⟨isRegular, text, shape⟩ := isLast.followedBy regular (isBranch (by simp))
      refine induction areLast isRegular (fun _ => ⟨_, _, shape⟩) fun _ next same => ?_
      rw [shape] at same
      simp at same

end

/-! ## Open scopes -/

/-- Whether an open scope has the form that it needs to be put where it goes. -/
structure OpenScope.Regular (opened : OpenScope) : Prop where
  model : opened.model.Regular
  last : ∀ condition next, opened.model.shape = .conditional condition next → next = none
  earlier : ∀ branch ∈ opened.earlier, branch.LastBranch
  isBranch : opened.earlier ≠ [] → opened.model.shape.IsBranch
  block : ∀ name, opened.placement = .binding name →
    IsBindable name ∧ opened.model.shape = .plain
  alone : opened.earlier = [] → opened.model.shape.StandsAlone

/-- Whether all open scopes, and the root, have the form that parsing gives them. -/
structure ScopeStack.Regular (stack : ScopeStack) : Prop where
  root : stack.root.WellFormed
  opened : ∀ scope ∈ stack.opened, scope.Regular

section

variable {stack next : ScopeStack} {opened : OpenScope} {shape : Shape} {node : Node} {tag : Tag}
  {change : Model → Model}

theorem ScopeStack.regular_empty : ScopeStack.empty.Regular where
  root := ⟨rfl, Model.regular_ofShape .plain⟩
  opened _ member := by simp [empty] at member

/-- A change keeps the form of a scope if it keeps that of models and what they do. -/
theorem OpenScope.Regular.modify (regular : opened.Regular)
    (same : (change opened.model).shape = opened.model.shape)
    (keeps : opened.model.Regular → (change opened.model).Regular) :
    ({ opened with model := change opened.model } : OpenScope).Regular where
  model := keeps regular.model
  last := by simpa only [same] using regular.last
  earlier := regular.earlier
  isBranch := by simpa only [same] using regular.isBranch
  block := by simpa only [same] using regular.block
  alone := by simpa only [same] using regular.alone

theorem ScopeStack.Regular.modify (regular : stack.Regular)
    (same : ∀ model, (change model).shape = model.shape)
    (keeps : ∀ model : Model, model.Regular → (change model).Regular) :
    (stack.modify change).Regular := by
  obtain ⟨⟨plain, isRegular⟩, areRegular⟩ := regular
  unfold ScopeStack.modify
  split
  · exact ⟨⟨(same _).trans plain, keeps _ isRegular⟩, areRegular⟩
  · next scope outer isOpen =>
    rw [isOpen] at areRegular
    obtain ⟨first, others⟩ := List.forall_mem_cons.mp areRegular
    exact ⟨⟨plain, isRegular⟩,
      List.forall_mem_cons.mpr ⟨first.modify (same _) (keeps _), others⟩⟩

theorem ScopeStack.Regular.append (regular : stack.Regular) (isNode : node.Regular) :
    (stack.modify (.append node)).Regular :=
  regular.modify (Model.shape_append node) fun _ isRegular => isRegular.append isNode

theorem ScopeStack.Regular.appendBinding {name : String} {block : Model} (regular : stack.Regular)
    (isName : IsBindable name) (isPlain : block.shape = .plain) (isBlock : block.Regular) :
    (stack.modify (.appendBinding name block)).Regular :=
  regular.modify (Model.shape_appendBinding name block) fun _ isRegular =>
    isRegular.appendBinding isName isPlain isBlock

/-- Whether a scope of this shape can be opened as a child. -/
structure Shape.Opening (shape : Shape) : Prop where
  regular : shape.Regular
  alone : shape.StandsAlone
  last : ∀ condition next, shape = .conditional condition next → next = none

theorem ScopeStack.Regular.push (regular : stack.Regular) (opening : shape.Opening)
    (placement : Placement)
    (block : ∀ name, placement = .binding name → IsBindable name ∧ shape = .plain)
    (location : Location) : (stack.push placement shape location).Regular where
  root := regular.root
  opened := by
    refine List.forall_mem_cons.mpr ⟨?_, regular.opened⟩
    exact {
      model := Model.regular_ofShape opening.regular
      last := opening.last
      earlier := fun _ member => by simp at member
      isBranch := fun some => absurd rfl some
      block := block
      alone := fun _ => opening.alone }

theorem ScopeStack.Regular.pop (regular : stack.Regular) (popped : stack.pop = .ok next) :
    next.Regular := by
  unfold ScopeStack.pop at popped
  split at popped
  · contradiction
  · next scope outer isOpen =>
    have areRegular := regular.opened
    rw [isOpen] at areRegular
    obtain ⟨first, others⟩ := List.forall_mem_cons.mp areRegular
    have below : ({ stack with opened := outer } : ScopeStack).Regular := ⟨regular.root, others⟩
    obtain ⟨isRegular, alone⟩ :=
      Model.Regular.linked first.earlier first.model first.isBranch first.alone
    dsimp only at popped
    split at popped
    · obtain rfl := Except.ok.inj popped
      exact below.append (.scope isRegular alone)
    · next name isBlock =>
      obtain rfl := Except.ok.inj popped
      obtain ⟨isName, isPlain⟩ := first.block name isBlock
      -- a block has no branches
      have single : scope.earlier = [] := by
        by_contra some
        obtain ⟨_, _, isBranch⟩ := first.isBranch some
        rw [isPlain] at isBranch
        contradiction
      have same : scope.linked = scope.model := by simp [OpenScope.linked, single]
      exact below.appendBinding isName (same ▸ isPlain) isRegular

theorem ScopeStack.Regular.branch {condition : Option String} (regular : stack.Regular)
    (isCondition : ∀ text ∈ condition, IsOperand text)
    (branched : stack.branch condition = .ok next) : next.Regular := by
  unfold ScopeStack.branch at branched
  split at branched
  · contradiction
  · next scope outer isOpen =>
    have areRegular := regular.opened
    rw [isOpen] at areRegular
    obtain ⟨first, others⟩ := List.forall_mem_cons.mp areRegular
    split at branched
    · next text following isConditional =>
      obtain rfl := Except.ok.inj branched
      obtain rfl := first.last _ _ isConditional
      refine ⟨regular.root, List.forall_mem_cons.mpr ⟨?_, others⟩⟩
      have isShape : (Shape.conditional condition none).Regular := by
        cases condition with
        | none => exact .otherwise
        | some text => exact .conditional (isCondition text rfl)
      exact {
        model := Model.regular_ofShape isShape
        last := fun _ _ same => (Shape.conditional.inj same).2.symm
        earlier := List.forall_mem_cons.mpr ⟨⟨first.model, text, isConditional⟩, first.earlier⟩
        isBranch := fun _ => ⟨_, _, rfl⟩
        block := fun name isBlock => by
          have isPlain := (first.block name isBlock).2
          rw [isConditional] at isPlain
          contradiction
        alone := fun none => by simp at none }
    · contradiction
    · contradiction

end

/-! ## What a tag does -/

section

variable {stack next : ScopeStack} {tag : Tag}

theorem Shape.Regular.opening {shape : Shape} (regular : shape.Regular)
    (notBranch : ∀ condition next, shape ≠ .conditional condition next) : shape.Opening where
  regular := regular
  alone next := notBranch none next
  last condition next same := absurd same (notBranch condition next)

/-- What is made of an operand that binds a name. -/
theorem exists_of_bound {α : Type} (make : String → String → α) {operand : String} {last : α}
    (made : (do
      let (left, text) ← arrowSides operand
      let name ← identifier left
      pure (make name text)) = Except.ok last) :
    ∃ name text, IsBindable name ∧ IsArrowOperand text ∧ last = make name text := by
  obtain ⟨⟨left, text⟩, sides, made⟩ := Except.bind_eq_ok_iff.mp made
  obtain ⟨name, read, made⟩ := Except.bind_eq_ok_iff.mp made
  exact ⟨name, text, (identifier_eq_ok_iff.mp read).2, (of_arrowSides sides).2,
    (Except.ok.inj made).symm⟩

/-- What is made of an operand that must not be empty. -/
theorem exists_of_required {α : Type} {make : String → α} {fault : DirectiveFault}
    {operand : String} {last : α} (trimmed : Text.IsTrimmed operand.toList)
    (made : (do
      let text ← required fault operand
      pure (make text)) = Except.ok last) :
    ∃ text, IsOperand text ∧ last = make text := by
  obtain ⟨text, read, made⟩ := Except.bind_eq_ok_iff.mp made
  obtain ⟨rfl, isText⟩ := required_eq_ok_iff.mp read
  exact ⟨operand, ⟨isText, trimmed⟩, (Except.ok.inj made).symm⟩

/-- A tag adds a child, opens a block or another scope, goes on with the next branch or closes a
scope. -/
theorem ScopeStack.of_apply (applied : stack.apply tag = .ok next)
    (trimmed : Text.IsTrimmed tag.operand.toList) :
    (∃ node : Node, node.Regular ∧ next = stack.modify (.append node)) ∨
    (∃ name, IsBindable name ∧ next = stack.push (.binding name) .plain tag.location) ∨
    (∃ shape : Shape, shape.Opening ∧ next = stack.push .child shape tag.location) ∨
    (∃ condition : Option String, (∀ text ∈ condition, IsOperand text) ∧
      stack.branch condition = .ok next) ∨
    stack.pop = .ok next := by
  unfold ScopeStack.apply at applied
  split at applied
  -- a child that is no scope
  · obtain ⟨text, isText, rfl⟩ := exists_of_required trimmed applied
    exact .inl ⟨_, .expression isText, rfl⟩
  · obtain ⟨text, isText, rfl⟩ := exists_of_required trimmed applied
    exact .inl ⟨_, .expression isText, rfl⟩
  · obtain ⟨key, isKey, rfl⟩ := exists_of_required trimmed applied
    exact .inl ⟨_, .importing isKey, rfl⟩
  -- a block
  · obtain ⟨name, read, applied⟩ := Except.bind_eq_ok_iff.mp applied
    exact .inr (.inl ⟨name, (identifier_eq_ok_iff.mp read).2, (Except.ok.inj applied).symm⟩)
  -- another scope
  · obtain ⟨name, text, isName, isText, rfl⟩ :=
      exists_of_bound (fun name text => stack.push .child (.letIn name text) tag.location) applied
    have regular : (Shape.letIn name text).Regular := .letIn isName isText
    exact .inr (.inr (.inl ⟨_, regular.opening fun _ _ => by simp, rfl⟩))
  · obtain ⟨text, isText, rfl⟩ := exists_of_required trimmed applied
    exact .inr (.inr (.inl ⟨_, {
      regular := .conditional isText
      alone := fun _ => by simp
      last := fun _ _ same => (Shape.conditional.inj same).2.symm }, rfl⟩))
  -- the next branch
  · refine .inr (.inr (.inr (.inl ⟨_, fun text member => ?_, applied⟩)))
    split at member
    · contradiction
    · next isText =>
      obtain rfl := Option.mem_some_iff.mp member
      exact ⟨by simpa using isText, trimmed⟩
  · obtain ⟨item, iterable, isItem, isIterable, rfl⟩ := exists_of_bound
      (fun item iterable => stack.push .child (.listIteration item iterable) tag.location) applied
    have regular : (Shape.listIteration item iterable).Regular := .listIteration isItem isIterable
    exact .inr (.inr (.inl ⟨_, regular.opening fun _ _ => by simp, rfl⟩))
  · obtain ⟨⟨names, map⟩, sides, applied⟩ := Except.bind_eq_ok_iff.mp applied
    obtain ⟨⟨key, value⟩, read, applied⟩ := Except.bind_eq_ok_iff.mp applied
    obtain ⟨isKey, isValue, bindsSome⟩ := of_pairNames read
    have regular : (Shape.mapIteration key value map).Regular :=
      .mapIteration isKey isValue bindsSome (of_arrowSides sides).2
    exact .inr (.inr (.inl
      ⟨_, regular.opening fun _ _ => by simp, (Except.ok.inj applied).symm⟩))
  · obtain ⟨name, key, isName, isKey, rfl⟩ :=
      exists_of_bound (fun name key => stack.push .child (.importing name key) tag.location) applied
    have regular : (Shape.importing name key).Regular := .importing isName isKey
    exact .inr (.inr (.inl ⟨_, regular.opening fun _ _ => by simp, rfl⟩))
  -- the end of a scope
  · exact .inr (.inr (.inr (.inr applied)))
  · contradiction

theorem ScopeStack.Regular.apply (regular : stack.Regular)
    (trimmed : Text.IsTrimmed tag.operand.toList) (applied : stack.apply tag = .ok next) :
    next.Regular := by
  rcases of_apply applied trimmed with ⟨node, isNode, rfl⟩ | ⟨name, isName, rfl⟩ |
    ⟨shape, opening, rfl⟩ | ⟨condition, isCondition, branched⟩ | popped
  · exact regular.append isNode
  · refine regular.push (Shape.Regular.plain.opening fun _ _ => by simp) _ (fun other same => ?_) _
    obtain rfl := Placement.binding.inj same
    exact ⟨isName, rfl⟩
  · exact regular.push opening .child (fun _ same => by simp at same) _
  · exact regular.branch isCondition branched
  · exact regular.pop popped

end

/-! ## What parsing gives -/

/-- A segment of a scanned source keeps the form of the open scopes. -/
theorem ScopeStack.Regular.step {stack next : ScopeStack} {segment : Segment}
    (regular : stack.Regular) (literal : ∀ text, segment = .literal text → text ≠ "")
    (isScanned : ∀ tag, segment = .tag tag → tag.IsScanned)
    (stepped : stack.step segment = .ok next) : next.Regular := by
  cases segment with
  | literal text =>
      obtain rfl := Except.ok.inj stepped
      exact regular.append (.literal (literal text rfl))
  | tag tag =>
      simp only [ScopeStack.step] at stepped
      split at stepped
      · contradiction
      · next applied =>
        obtain rfl := Except.ok.inj stepped
        exact regular.apply (isScanned tag rfl).trimmed applied

theorem wellFormed_of_modelOfSegments {segments : List Segment} {model : Model}
    (literals : ∀ text, .literal text ∈ segments → text ≠ "")
    (tags : ∀ tag, .tag tag ∈ segments → tag.IsScanned)
    (built : modelOfSegments segments = .ok model) : model.WellFormed := by
  obtain ⟨stack, ran, finished⟩ := Except.bind_eq_ok_iff.mp built
  have regular : stack.Regular :=
    Except.keeps_of_foldlM (fun segment member before after isRegular stepped =>
      isRegular.step (fun text same => literals text (same ▸ member))
        (fun tag same => tags tag (same ▸ member)) stepped)
      ScopeStack.regular_empty ran
  unfold ScopeStack.finish at finished
  split at finished
  · exact Except.ok.inj finished ▸ regular.root
  · contradiction

theorem wellFormed_of_parse {source : String} {model : Model} (parsed : parse source = .ok model) :
    model.WellFormed := by
  obtain ⟨segments, scanned, built⟩ := Except.bind_eq_ok_iff.mp parsed
  have areScanned := areScanned_of_scan scanned
  exact wellFormed_of_modelOfSegments areScanned.literals areScanned.tags built

end Template
end StaticSite
