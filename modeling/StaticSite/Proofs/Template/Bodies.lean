import StaticSite.Proofs.Template.Nesting

/-!
# Bodies of scopes

Segments that can be parsed on their own lead on from any open scopes: what they describe is put
into the innermost one.  So a conditional whose branches have such bodies is read as the branches in
order, linked to one another.
-/

namespace StaticSite
namespace Template

/-- The open scopes above those of another stack, whose innermost scope has what the root has. -/
def ScopeStack.above (stack base : ScopeStack) : ScopeStack :=
  let below := base.modify (.extend stack.root.bindings stack.root.children)
  { below with opened := stack.opened ++ below.opened }

section

variable {stack next base : ScopeStack} {tag : Tag} {segment : Segment} {change : Model → Model}

theorem ScopeStack.above_modify (stack base : ScopeStack)
    (adds : ∀ root model : Model, .extend (change root).bindings (change root).children model =
      change (.extend root.bindings root.children model)) :
    (stack.above base).modify change = (stack.modify change).above base := by
  obtain ⟨root, _ | ⟨scope, outer⟩⟩ := stack
  · obtain ⟨baseRoot, _ | ⟨baseScope, baseOuter⟩⟩ := base <;> simp [above, modify, adds]
  · rfl

theorem ScopeStack.above_append (stack base : ScopeStack) (node : Node) :
    (stack.above base).modify (.append node) = (stack.modify (.append node)).above base := by
  refine above_modify stack base fun root model => ?_
  obtain ⟨shape, bindings, children⟩ := root
  obtain ⟨_, _, _⟩ := model
  simp [Model.extend, Model.append, Model.bindings, Model.children]

theorem ScopeStack.above_appendBinding (stack base : ScopeStack) (name : String) (block : Model) :
    (stack.above base).modify (.appendBinding name block) =
      (stack.modify (.appendBinding name block)).above base := by
  refine above_modify stack base fun root model => ?_
  obtain ⟨shape, bindings, children⟩ := root
  obtain ⟨_, _, _⟩ := model
  simp [Model.extend, Model.appendBinding, Model.bindings, Model.children]

theorem ScopeStack.pop_above (base : ScopeStack) (popped : stack.pop = .ok next) :
    (stack.above base).pop = .ok (next.above base) := by
  obtain ⟨root, _ | ⟨⟨model, placement, earlier, location⟩, outer⟩⟩ := stack
  · contradiction
  · cases placement with
    | child =>
        obtain rfl := Except.ok.inj popped
        exact congrArg Except.ok (above_append ⟨root, outer⟩ base _)
    | binding name =>
        obtain rfl := Except.ok.inj popped
        exact congrArg Except.ok (above_appendBinding ⟨root, outer⟩ base name _)

theorem ScopeStack.branch_above (base : ScopeStack) {condition : Option String}
    (branched : stack.branch condition = .ok next) :
    (stack.above base).branch condition = .ok (next.above base) := by
  obtain ⟨root, _ | ⟨scope, outer⟩⟩ := stack
  · contradiction
  · unfold branch at branched ⊢
    dsimp only [above, List.cons_append] at branched ⊢
    split at branched
    · obtain rfl := Except.ok.inj branched
      rfl
    · contradiction
    · contradiction

/-- A tag that is accepted does the same above other open scopes. -/
theorem ScopeStack.apply_above (base : ScopeStack) (applied : stack.apply tag = .ok next) :
    (stack.above base).apply tag = .ok (next.above base) := by
  have appended (node : Node)
      (made : @Except.ok RenderError _ (stack.modify (.append node)) = .ok next) :
      @Except.ok RenderError _ ((stack.above base).modify (.append node)) =
        .ok (next.above base) := by
    obtain rfl := Except.ok.inj made
    rw [above_append]
  have pushed (placement : Placement) (shape : Shape)
      (made : @Except.ok RenderError _ (stack.push placement shape tag.location) = .ok next) :
      @Except.ok RenderError _ ((stack.above base).push placement shape tag.location) =
        .ok (next.above base) := by
    obtain rfl := Except.ok.inj made
    rfl
  obtain ⟨opcode, operand, location⟩ := tag
  unfold apply at applied ⊢
  dsimp only at applied ⊢ pushed
  split at applied
  · exact Except.bind_eq_ok_imp applied fun text => appended _
  · exact Except.bind_eq_ok_imp applied fun text => appended _
  · exact Except.bind_eq_ok_imp applied fun key => appended _
  · exact Except.bind_eq_ok_imp applied fun name => pushed _ _
  · exact Except.bind_eq_ok_imp applied fun sides rest =>
      Except.bind_eq_ok_imp rest fun name => pushed _ _
  · exact Except.bind_eq_ok_imp applied fun text => pushed _ _
  · exact branch_above base applied
  · exact Except.bind_eq_ok_imp applied fun sides rest =>
      Except.bind_eq_ok_imp rest fun name => pushed _ _
  · exact Except.bind_eq_ok_imp applied fun sides rest =>
      Except.bind_eq_ok_imp rest fun names => pushed _ _
  · exact Except.bind_eq_ok_imp applied fun sides rest =>
      Except.bind_eq_ok_imp rest fun name => pushed _ _
  · exact pop_above base applied
  · contradiction

theorem ScopeStack.step_above (base : ScopeStack) (stepped : stack.step segment = .ok next) :
    (stack.above base).step segment = .ok (next.above base) := by
  cases segment with
  | literal text =>
      obtain rfl := Except.ok.inj stepped
      exact congrArg Except.ok (above_append stack base (.literal text))
  | tag tag =>
      simp only [step] at stepped ⊢
      split at stepped
      · contradiction
      · next applied =>
        obtain rfl := Except.ok.inj stepped
        rw [apply_above base applied]

theorem ScopeStack.Leads.above {segments : List Segment} (leads : stack.Leads segments next)
    (base : ScopeStack) : (stack.above base).Leads segments (next.above base) := by
  induction segments generalizing stack with
  | nil =>
      obtain rfl := Except.ok.inj leads
      exact leads_nil _
  | cons segment segments induction =>
      obtain ⟨between, stepped, rest⟩ := Except.bind_eq_ok_iff.mp leads
      exact Except.bind_eq_ok_iff.mpr ⟨_, step_above base stepped, induction rest⟩

/-- Segments that can be parsed on their own put what they describe into the innermost scope. -/
theorem ScopeStack.leads_of_modelOfSegments {segments : List Segment} {model : Model}
    (parsed : modelOfSegments segments = .ok model) (base : ScopeStack) :
    base.Leads segments (base.modify (.extend model.bindings model.children)) := by
  obtain ⟨⟨root, opened⟩, ran, finished⟩ := Except.bind_eq_ok_iff.mp parsed
  cases opened with
  | cons scope outer => contradiction
  | nil =>
      obtain rfl := Except.ok.inj finished
      have start : ScopeStack.empty.above base = base :=
        modify_eq_self fun model => by cases model; simp [Model.extend, empty, Model.ofShape,
          Model.bindings, Model.children]
      have leads := Leads.above ran base
      rwa [start] at leads

end

/-! ## Conditionals -/

/-- A branch of a conditional: its condition, if it has one, and what its body describes. -/
structure Branch where
  condition : Option String
  body : Model

/-- Whether segments are the later branches of a conditional, of which the last may have no
condition.  The body of each can be parsed on its own. -/
inductive BranchesRead : List Branch → List Segment → Prop
  | nil : BranchesRead [] []
  | next {tag : Tag} {body : Model} {inside rest : List Segment} {later : List Branch}
      (isComma : tag.opcode = ',') (isText : tag.operand ≠ "")
      (parsed : modelOfSegments inside = .ok body) (others : BranchesRead later rest) :
      BranchesRead (⟨some tag.operand, body⟩ :: later) (.tag tag :: inside ++ rest)
  | otherwise {tag : Tag} {body : Model} {inside : List Segment} (isComma : tag.opcode = ',')
      (isEmpty : tag.operand = "") (parsed : modelOfSegments inside = .ok body) :
      BranchesRead [⟨none, body⟩] (.tag tag :: inside)

/-- Whether segments are one conditional with the given branches. -/
inductive ConditionalRead : List Branch → List Segment → Prop
  | mk {opening closing : Tag} {body : Model} {inside rest : List Segment} {later : List Branch}
      (isOpening : opening.opcode = '|') (isText : opening.operand ≠ "")
      (parsed : modelOfSegments inside = .ok body) (others : BranchesRead later rest)
      (closes : closing.opcode = '/') :
      ConditionalRead (⟨some opening.operand, body⟩ :: later)
        (.tag opening :: inside ++ rest ++ [.tag closing])

/-- A branch linked to later ones. -/
def Branch.linked (branch : Branch) : List Branch → Model
  | [] => .mk (.conditional branch.condition none) branch.body.bindings branch.body.children
  | next :: later =>
      .mk (.conditional branch.condition (some (next.linked later))) branch.body.bindings
        branch.body.children

/-- An open scope in which the body of a branch was read. -/
def Branch.opened (branch : Branch) (earlier : List Model) (location : Location) : OpenScope :=
  ⟨branch.linked [], .child, earlier, location⟩

section

variable {branch : Branch} {later : List Branch} {body : Model} {segments inside : List Segment}
  {tag : Tag}

/-- A branch that is opened is filled with its body. -/
theorem Branch.leads_body (parsed : modelOfSegments inside = .ok body) (stack : ScopeStack)
    (condition : Option String) (earlier : List Model) (location : Location) :
    ScopeStack.Leads
      { stack with opened :=
          ⟨.ofShape (.conditional condition none), .child, earlier, location⟩ :: stack.opened }
      inside
      { stack with opened := (Branch.mk condition body).opened earlier location :: stack.opened } :=
  ScopeStack.leads_of_modelOfSegments parsed { stack with opened :=
    ⟨.ofShape (.conditional condition none), .child, earlier, location⟩ :: stack.opened }

/-- Behind a branch with a condition another is opened. -/
theorem Branch.leads_comma (condition : Option String) (isComma : tag.opcode = ',')
    (isCondition : (if tag.operand.isEmpty then none else some tag.operand) = condition)
    (stack : ScopeStack) (text : String) (body : Model) (earlier : List Model)
    (location : Location) :
    ScopeStack.Leads
      { stack with opened :=
          (Branch.mk (some text) body).opened earlier location :: stack.opened }
      [.tag tag]
      { stack with opened :=
          ⟨.ofShape (.conditional condition none), .child,
            (Branch.mk (some text) body).linked [] :: earlier, location⟩ :: stack.opened } := by
  refine ScopeStack.leads_tag ?_
  obtain ⟨opcode, operand, place⟩ := tag
  obtain rfl := isComma
  obtain rfl := isCondition
  rfl

theorem BranchesRead.leads (read : BranchesRead later segments) (stack : ScopeStack) (text : String)
    (body : Model) (earlier : List Model) (location : Location) :
    ∃ scope : OpenScope,
      ScopeStack.Leads
        { stack with opened :=
            (Branch.mk (some text) body).opened earlier location :: stack.opened }
        segments { stack with opened := scope :: stack.opened } ∧
      scope.placement = .child ∧
      scope.linked = earlier.foldl (fun next branch => branch.followedBy next)
        ((Branch.mk (some text) body).linked later) := by
  induction read generalizing text body earlier with
  | nil => exact ⟨_, ScopeStack.leads_nil _, rfl, rfl⟩
  | @next tag inner inside rest later isComma isText parsed others induction =>
      obtain ⟨scope, more, isChild, isLinked⟩ := induction tag.operand inner
        ((Branch.mk (some text) body).linked [] :: earlier)
      have opened := Branch.leads_comma (some tag.operand) isComma (by simp [isText]) stack text
        body earlier location
      have filled := Branch.leads_body parsed stack (some tag.operand)
        ((Branch.mk (some text) body).linked [] :: earlier) location
      exact ⟨scope, (opened.append filled).append more, isChild, isLinked⟩
  | @otherwise tag inner inside isComma isEmpty parsed =>
      have opened := Branch.leads_comma none isComma (by simp [isEmpty]) stack text body earlier
        location
      have filled := Branch.leads_body parsed stack none
        ((Branch.mk (some text) body).linked [] :: earlier) location
      exact ⟨_, opened.append filled, rfl, rfl⟩

/-- A conditional is read as its branches linked in order. -/
theorem ConditionalRead.modelOfSegments_eq (read : ConditionalRead (branch :: later) segments) :
    modelOfSegments segments = .ok (.mk .plain [] [.scope (branch.linked later)]) := by
  cases read with
  | @mk opening closing body inside rest _ isOpening isText parsed others closes =>
      have opened : ScopeStack.empty.Leads [.tag opening]
          { ScopeStack.empty with opened := [⟨.ofShape (.conditional (some opening.operand) none),
              .child, [], opening.location⟩] } := by
        refine ScopeStack.leads_tag ?_
        obtain ⟨opcode, operand, place⟩ := opening
        obtain rfl := isOpening
        have read : required .missingExpression operand = .ok operand :=
          required_eq_ok_iff.mpr ⟨rfl, isText⟩
        simp only [ScopeStack.apply, read]
        rfl
      have filled := Branch.leads_body parsed .empty (some opening.operand) [] opening.location
      obtain ⟨scope, more, isChild, isLinked⟩ :=
        others.leads .empty opening.operand body [] opening.location
      have closed := ScopeStack.leads_tag
        ((ScopeStack.apply_close closes).trans (ScopeStack.empty.pop_child isChild))
      have ran := ((opened.append filled).append more).append closed
      rw [isLinked] at ran
      exact Except.bind_eq_ok_iff.mpr ⟨_, ran, rfl⟩

theorem BranchesRead.plain {segments : List Segment} (read : BranchesRead later segments)
    (literals : ∀ text, .literal text ∈ segments → text ≠ "")
    (tags : ∀ tag, .tag tag ∈ segments → tag.IsScanned) :
    ∀ branch ∈ later, branch.body.shape = .plain := by
  induction read with
  | nil => simp
  | @next tag body inside rest later isComma isText parsed others induction =>
      have first := wellFormed_of_modelOfSegments
        (fun text member => literals text (by simp [member]))
        (fun tag member => tags tag (by simp [member])) parsed
      exact List.forall_mem_cons.mpr ⟨first.plain, induction
        (fun text member => literals text (by simp [member]))
        (fun tag member => tags tag (by simp [member]))⟩
  | @otherwise tag body inside isComma isEmpty parsed =>
      have first := wellFormed_of_modelOfSegments
        (fun text member => literals text (by simp [member]))
        (fun tag member => tags tag (by simp [member])) parsed
      simpa using first.plain

theorem ConditionalRead.plain {branches : List Branch} {segments : List Segment}
    (read : ConditionalRead branches segments) (scanned : AreScanned segments) :
    ∀ branch ∈ branches, branch.body.shape = .plain := by
  obtain ⟨literals, tags, -⟩ := scanned
  cases read with
  | mk isOpening isText parsed others closes =>
      have first := wellFormed_of_modelOfSegments
        (fun text member => literals text (by simp [member]))
        (fun tag member => tags tag (by simp [member])) parsed
      exact List.forall_mem_cons.mpr ⟨first.plain, others.plain
        (fun text member => literals text (by simp [member]))
        (fun tag member => tags tag (by simp [member]))⟩

end

end Template
end StaticSite
