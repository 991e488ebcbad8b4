import StaticSite.Proofs.Template.Malformed
import StaticSite.Proofs.Template.Nesting

/-!
# Balanced scopes

This file tells when parsing fails, and with which error, by what stands before each tag.  A tag is
wrong by itself, or because of the innermost scope that is open before it.  The first wrong tag
gives the error, and if there is none, the innermost scope that is open at the end.
-/

namespace StaticSite
namespace Template

/-- Whether a tag opens a scope. -/
def Tag.OpensScope (tag : Tag) : Prop :=
  tag.opcode ∈ [':', '.', '|', '[', '\x7b', 'd']

/-- Whether a tag starts a branch without a condition. -/
def Tag.IsElse (tag : Tag) : Prop :=
  tag.opcode = ',' ∧ tag.operand = ""

/-- Whether a segment neither opens nor closes a scope, nor starts a branch. -/
def Segment.IsFlat : Segment → Prop
  | .literal _ => True
  | .tag found => ¬found.OpensScope ∧ found.opcode ≠ ',' ∧ found.opcode ≠ '/'

/-- Whether segments can stand between the tag that opens a scope and a place where that scope is
the innermost one open, and which tag has started its current branch there.  That is the opening
tag until a `,` follows. -/
inductive Within : (opening : Tag) → List Segment → (branch : Tag) → Prop
  | opened {opening : Tag} : Within opening [] opening
  | flat {opening branch : Tag} {inside : List Segment} {segment : Segment}
      (within : Within opening inside branch) (isFlat : segment.IsFlat) :
      Within opening (inside ++ [segment]) branch
  | next {opening branch comma : Tag} {inside : List Segment}
      (within : Within opening inside branch) (isComma : comma.opcode = ',') :
      Within opening (inside ++ [.tag comma]) comma
  | closed {opening branch inner last closing : Tag} {inside deeper : List Segment}
      (within : Within opening inside branch) (opens : inner.OpensScope)
      (deep : Within inner deeper last) (closes : closing.opcode = '/') :
      Within opening (inside ++ .tag inner :: deeper ++ [.tag closing]) branch

/-- Whether the innermost scope that is open after some segments was opened by a tag, and its
current branch started by another. -/
def Innermost (before : List Segment) (opening branch : Tag) : Prop :=
  opening.OpensScope ∧
    ∃ outer inside, before = outer ++ .tag opening :: inside ∧ Within opening inside branch

/-- Whether a tag is wrong after some segments, and the error that tells so. -/
inductive Wrong (before : List Segment) (tag : Tag) : RenderError → Prop
  | unknown (isUnknown : tag.opcode ∉ opcodes) : Wrong before tag (.invalidOperator tag.opcode)
  | malformed {fault : DirectiveFault} (isMalformed : Malformed tag.operand fault tag.opcode) :
      Wrong before tag (.malformedDirective fault)
  | unmatched (closes : tag.opcode = '/')
      (noneOpen : ∀ opening branch, ¬Innermost before opening branch) :
      Wrong before tag (.unbalancedScope .unmatchedClose)
  | outside (isComma : tag.opcode = ',')
      (noConditional : ∀ opening branch, Innermost before opening branch → opening.opcode ≠ '|') :
      Wrong before tag (.malformedDirective .branchOutsideConditional)
  | afterElse {opening branch : Tag} (isComma : tag.opcode = ',')
      (innermost : Innermost before opening branch) (isConditional : opening.opcode = '|')
      (isElse : branch.IsElse) : Wrong before tag (.malformedDirective .branchAfterElse)

/-- Whether no tag is wrong at its place. -/
def Sound (segments : List Segment) : Prop :=
  ∀ before tag after error, segments = before ++ .tag tag :: after → ¬Wrong before tag error

/-! ## The innermost scope -/

section

variable {opening branch tag closing : Tag} {before outer inside : List Segment} {segment : Segment}

theorem Tag.OpensScope.ne_comma (opens : tag.OpensScope) : tag.opcode ≠ ',' := by
  intro isComma
  simp [OpensScope, isComma] at opens

theorem Tag.OpensScope.ne_slash (opens : tag.OpensScope) : tag.opcode ≠ '/' := by
  intro closes
  simp [OpensScope, closes] at opens

/-- What can stand last after the opening tag. -/
theorem Within.concat_cases (within : Within opening (inside ++ [segment]) branch) :
    segment.IsFlat ∧ Within opening inside branch ∨
    (segment = .tag branch ∧ branch.opcode = ',' ∧ ∃ last, Within opening inside last) ∨
    ∃ closing inner last front deeper, segment = .tag closing ∧ closing.opcode = '/' ∧
      inside = front ++ .tag inner :: deeper ∧ Within opening front branch ∧ inner.OpensScope ∧
      Within inner deeper last := by
  generalize whole : inside ++ [segment] = all at within
  cases within with
  | opened => simp at whole
  | flat within isFlat =>
      obtain ⟨rfl, same⟩ := List.append_inj' whole rfl
      obtain rfl := List.singleton_inj.mp same
      exact .inl ⟨isFlat, within⟩
  | next within isComma =>
      obtain ⟨rfl, same⟩ := List.append_inj' whole rfl
      obtain rfl := List.singleton_inj.mp same
      exact .inr (.inl ⟨rfl, isComma, _, within⟩)
  | closed within opens deep closes =>
      obtain ⟨rfl, same⟩ := List.append_inj' whole rfl
      obtain rfl := List.singleton_inj.mp same
      exact .inr (.inr ⟨_, _, _, _, _, rfl, closes, rfl, within, opens, deep⟩)

/-- The last segment opens the innermost scope, or stands in it, or closes the last one in it. -/
theorem Within.split_cases (within : Within opening inside branch)
    (whole : before ++ [segment] = outer ++ .tag opening :: inside) :
    (segment = .tag opening ∧ before = outer ∧ inside = [] ∧ branch = opening) ∨
    ∃ front, inside = front ++ [segment] ∧ before = outer ++ .tag opening :: front := by
  rcases List.eq_nil_or_concat inside with rfl | ⟨front, last, rfl⟩
  · obtain ⟨rfl, same⟩ := List.append_inj' whole rfl
    refine .inl ⟨List.singleton_inj.mp same, rfl, rfl, ?_⟩
    generalize none : [] = segments at within
    cases within with
    | opened => rfl
    | flat | next | closed => simp at none
  · rw [List.concat_eq_append, ← List.cons_append, ← List.append_assoc] at whole
    obtain ⟨rfl, same⟩ := List.append_inj' whole rfl
    obtain rfl := List.singleton_inj.mp same
    exact .inr ⟨front, by simp, rfl⟩

theorem Within.eq_of_opens {opening' : Tag} (within : Within opening inside branch)
    (opens : opening'.OpensScope)
    (whole : before ++ [.tag opening'] = outer ++ .tag opening :: inside) :
    opening = opening' ∧ before = outer ∧ inside = [] ∧ branch = opening' := by
  rcases within.split_cases whole with ⟨same, rfl, rfl, rfl⟩ | ⟨front, rfl, rfl⟩
  · obtain rfl := Segment.tag.inj same
    exact ⟨rfl, rfl, rfl, rfl⟩
  · rcases within.concat_cases with ⟨isFlat, -⟩ | ⟨same, isComma, -⟩ |
      ⟨closing, inner, last, front, deeper, same, closes, -⟩
    · exact absurd opens isFlat.1
    · exact absurd (Segment.tag.inj same ▸ isComma) opens.ne_comma
    · exact absurd (Segment.tag.inj same ▸ closes) opens.ne_slash

theorem Within.of_flat (within : Within opening inside branch) (opens : opening.OpensScope)
    (isFlat : segment.IsFlat)
    (whole : before ++ [segment] = outer ++ .tag opening :: inside) :
    ∃ front, inside = front ++ [segment] ∧ before = outer ++ .tag opening :: front ∧
      Within opening front branch := by
  rcases within.split_cases whole with ⟨rfl, -⟩ | ⟨front, rfl, rfl⟩
  · exact absurd opens isFlat.1
  · rcases within.concat_cases with ⟨-, within⟩ | ⟨rfl, isComma, -⟩ |
      ⟨closing, inner, last, front, deeper, rfl, closes, -⟩
    · exact ⟨front, rfl, rfl, within⟩
    · exact absurd isComma isFlat.2.1
    · exact absurd closes isFlat.2.2

theorem Within.of_comma {comma : Tag} (within : Within opening inside branch)
    (opens : opening.OpensScope) (isComma : comma.opcode = ',')
    (whole : before ++ [.tag comma] = outer ++ .tag opening :: inside) :
    ∃ front last, inside = front ++ [.tag comma] ∧ before = outer ++ .tag opening :: front ∧
      Within opening front last ∧ branch = comma := by
  rcases within.split_cases whole with ⟨same, -⟩ | ⟨front, rfl, rfl⟩
  · exact absurd (Segment.tag.inj same ▸ isComma) opens.ne_comma
  · rcases within.concat_cases with ⟨isFlat, -⟩ | ⟨same, -, last, within⟩ |
      ⟨closing, inner, last, front, deeper, same, closes, -⟩
    · exact absurd isComma isFlat.2.1
    · exact ⟨front, last, rfl, rfl, within, (Segment.tag.inj same).symm⟩
    · obtain rfl := Segment.tag.inj same
      rw [isComma] at closes
      contradiction

theorem Within.of_close (within : Within opening inside branch) (opens : opening.OpensScope)
    (closes : closing.opcode = '/')
    (whole : before ++ [.tag closing] = outer ++ .tag opening :: inside) :
    ∃ front inner deeper last, inside = front ++ .tag inner :: deeper ++ [.tag closing] ∧
      before = outer ++ .tag opening :: front ++ .tag inner :: deeper ∧
      Within opening front branch ∧ inner.OpensScope ∧ Within inner deeper last := by
  rcases within.split_cases whole with ⟨same, -⟩ | ⟨front, rfl, rfl⟩
  · exact absurd (Segment.tag.inj same ▸ closes) opens.ne_slash
  · rcases within.concat_cases with ⟨isFlat, -⟩ | ⟨same, isComma, -⟩ |
      ⟨_, inner, last, front, deeper, -, -, rfl, within, opensInner, deep⟩
    · exact absurd closes isFlat.2.2
    · obtain rfl := Segment.tag.inj same
      rw [isComma] at closes
      contradiction
    · exact ⟨front, inner, deeper, last, rfl, by simp, within, opensInner, deep⟩

/-- The innermost open scope, and where it was opened, are determined. -/
theorem Within.unique {outer' : List Segment} {opening' branch' : Tag} {inside' : List Segment}
    (within : Within opening inside branch) (within' : Within opening' inside' branch')
    (opens : opening.OpensScope) (opens' : opening'.OpensScope)
    (same : outer ++ .tag opening :: inside = outer' ++ .tag opening' :: inside') :
    outer = outer' ∧ opening = opening' ∧ inside = inside' ∧ branch = branch' := by
  induction within generalizing outer outer' opening' inside' branch' with
  | opened =>
      obtain ⟨rfl, rfl, rfl, rfl⟩ := within'.eq_of_opens opens same
      exact ⟨rfl, rfl, rfl, rfl⟩
  | flat within isFlat induction =>
      rw [← List.cons_append, ← List.append_assoc] at same
      obtain ⟨front, rfl, before, around⟩ := within'.of_flat opens' isFlat same
      obtain ⟨rfl, rfl, rfl, rfl⟩ := induction around opens opens' before
      exact ⟨rfl, rfl, rfl, rfl⟩
  | next within isComma induction =>
      rw [← List.cons_append, ← List.append_assoc] at same
      obtain ⟨front, last, rfl, before, around, rfl⟩ := within'.of_comma opens' isComma same
      obtain ⟨rfl, rfl, rfl, rfl⟩ := induction around opens opens' before
      exact ⟨rfl, rfl, rfl, rfl⟩
  | closed within opensInner deep closes first second =>
      rw [← List.cons_append, ← List.append_assoc] at same
      obtain ⟨front, inner', deeper', last', rfl, before, around, opensInner', deep'⟩ :=
        within'.of_close opens' closes same
      rw [← List.cons_append, ← List.append_assoc] at before
      obtain ⟨ahead, rfl, rfl, -⟩ := second deep' opensInner opensInner' before
      obtain ⟨rfl, rfl, rfl, rfl⟩ := first around opens opens' ahead
      exact ⟨rfl, rfl, rfl, rfl⟩

theorem Innermost.unique {opening' branch' : Tag} (innermost : Innermost before opening branch)
    (innermost' : Innermost before opening' branch') : opening = opening' ∧ branch = branch' := by
  obtain ⟨opens, outer, inside, rfl, within⟩ := innermost
  obtain ⟨opens', outer', inside', same, within'⟩ := innermost'
  obtain ⟨-, rfl, -, rfl⟩ := within.unique within' opens opens' same
  exact ⟨rfl, rfl⟩

end

/-! ## The open scopes -/

/-- The condition of the current branch, if the scope is a conditional. -/
def Shape.condition? : Shape → Option (Option String)
  | .conditional condition _ => some condition
  | _ => none

/-- What balance depends on: where an open scope was opened, and the condition of its current
branch. -/
def OpenScope.outline (scope : OpenScope) : Location × Option (Option String) :=
  (scope.location, scope.model.shape.condition?)

def ScopeStack.outline (stack : ScopeStack) : List (Location × Option (Option String)) :=
  stack.opened.map OpenScope.outline

instance (tag : Tag) : Decidable tag.IsElse :=
  inferInstanceAs (Decidable (tag.opcode = ',' ∧ tag.operand = ""))

/-- The condition of a branch, if the scope that it belongs to is a conditional. -/
def Tag.condition? (opening branch : Tag) : Option (Option String) :=
  if opening.opcode = '|' then some (if branch.IsElse then none else some branch.operand) else none

/-- Whether the open scopes are those that were opened and not closed by some segments. -/
def Tracks (before : List Segment) : List (Location × Option (Option String)) → Prop
  | [] => ∀ opening branch, ¬Innermost before opening branch
  | (location, condition) :: rest => ∃ outer opening inside branch,
      before = outer ++ .tag opening :: inside ∧ opening.OpensScope ∧
        Within opening inside branch ∧ location = opening.location ∧
        condition = opening.condition? branch ∧ Tracks outer rest

section

variable {stack next : ScopeStack} {tag opening branch : Tag} {before outer inside : List Segment}
  {scopes : List (Location × Option (Option String))} {segment : Segment} {error : RenderError}

theorem tracks_nil : Tracks [] [] := by
  rintro opening branch ⟨-, outer, inside, whole, -⟩
  simp at whole

theorem Tracks.flat (tracks : Tracks before scopes) (isFlat : segment.IsFlat) :
    Tracks (before ++ [segment]) scopes := by
  cases scopes with
  | nil =>
      rintro opening branch ⟨opens, outer, inside, whole, within⟩
      obtain ⟨front, -, rfl, within⟩ := within.of_flat opens isFlat whole
      exact tracks opening branch ⟨opens, outer, front, rfl, within⟩
  | cons scope rest =>
      obtain ⟨outer, opening, inside, branch, rfl, opens, within, placed, isBranch, others⟩ :=
        tracks
      exact ⟨outer, opening, inside ++ [segment], branch, by simp, opens, within.flat isFlat,
        placed, isBranch, others⟩

theorem Tracks.open (tracks : Tracks before scopes) (opens : tag.OpensScope) :
    Tracks (before ++ [.tag tag]) ((tag.location, tag.condition? tag) :: scopes) :=
  ⟨before, tag, [], tag, rfl, opens, .opened, rfl, rfl, tracks⟩

theorem Tracks.close {scope : Location × Option (Option String)}
    (tracks : Tracks before (scope :: scopes)) (closes : tag.opcode = '/') :
    Tracks (before ++ [.tag tag]) scopes := by
  obtain ⟨outer, opening, inside, branch, rfl, opens, within, -, -, tracks⟩ := tracks
  cases scopes with
  | nil =>
      rintro other last ⟨opensOther, front, rest, whole, around⟩
      obtain ⟨front', inner, deeper, last', -, same, around, opensInner, deep⟩ :=
        around.of_close opensOther closes whole
      obtain ⟨rfl, -⟩ := within.unique deep opens opensInner same
      exact tracks other last ⟨opensOther, front, front', rfl, around⟩
  | cons scope rest =>
      obtain ⟨further, around, front, last, rfl, opensAround, surrounds, placed, isLast, others⟩ :=
        tracks
      exact ⟨further, around, front ++ .tag opening :: inside ++ [.tag tag], last, by simp,
        opensAround, surrounds.closed opens within closes, placed, isLast, others⟩

theorem Tracks.comma {location : Location} {condition : Option String}
    (tracks : Tracks before ((location, some condition) :: scopes)) (isComma : tag.opcode = ',') :
    Tracks (before ++ [.tag tag])
      ((location, some (if tag.operand.isEmpty then none else some tag.operand)) :: scopes) := by
  obtain ⟨outer, opening, inside, branch, rfl, opens, within, placed, isBranch, others⟩ := tracks
  refine ⟨outer, opening, inside ++ [.tag tag], tag, by simp, opens, within.next isComma, placed,
    ?_, others⟩
  unfold Tag.condition? at isBranch ⊢
  split at isBranch
  · next isConditional => simp [isConditional, Tag.IsElse, isComma]
  · contradiction

/-- What the innermost of the open scopes tells about the segments. -/
theorem Tracks.innermost {location : Location} {condition : Option (Option String)}
    (tracks : Tracks before ((location, condition) :: scopes)) :
    ∃ opening branch, Innermost before opening branch ∧ location = opening.location ∧
      condition = opening.condition? branch := by
  obtain ⟨outer, opening, inside, branch, whole, opens, within, placed, isBranch, -⟩ := tracks
  exact ⟨opening, branch, ⟨opens, outer, inside, whole, within⟩, placed, isBranch⟩

/-! ## What a tag does -/

theorem ScopeStack.outline_modify {change : Model → Model}
    (same : ∀ model, (change model).shape = model.shape) :
    (stack.modify change).outline = stack.outline := by
  unfold modify
  split
  · rfl
  · next scope outer isOpen => simp [outline, OpenScope.outline, isOpen, same]

theorem ScopeStack.outline_append (node : Node) :
    (stack.modify (.append node)).outline = stack.outline :=
  outline_modify fun model => by cases model; rfl

theorem ScopeStack.outline_pop (popped : stack.pop = .ok next) :
    ∃ scope, stack.outline = scope :: next.outline := by
  unfold pop at popped
  split at popped
  · contradiction
  · next scope outer isOpen =>
    have below : stack.outline =
        scope.outline :: ({ stack with opened := outer } : ScopeStack).outline := by
      simp [outline, isOpen]
    refine ⟨scope.outline, ?_⟩
    dsimp only at popped
    split at popped <;> obtain rfl := Except.ok.inj popped
    · rw [outline_append, below]
    · rw [outline_modify fun model => by cases model; rfl, below]

theorem ScopeStack.pop_eq_error_iff :
    stack.pop = .error error ↔ stack.outline = [] ∧ error = .unbalancedScope .unmatchedClose := by
  unfold pop outline
  cases stack.opened with
  | nil =>
      simp only [List.map_nil, true_and, Except.error.injEq]
      exact eq_comm
  | cons scope outer =>
      dsimp only
      split <;> simp

theorem ScopeStack.outline_branch {condition : Option String}
    (branched : stack.branch condition = .ok next) :
    ∃ location text rest, stack.outline = (location, some (some text)) :: rest ∧
      next.outline = (location, some condition) :: rest := by
  unfold branch at branched
  split at branched
  · contradiction
  · next scope outer isOpen =>
    split at branched
    · next text following isConditional =>
      obtain rfl := Except.ok.inj branched
      refine ⟨scope.location, text, outer.map OpenScope.outline, ?_, rfl⟩
      simp [outline, OpenScope.outline, isOpen, isConditional, Shape.condition?]
    · contradiction
    · contradiction

theorem ScopeStack.branch_eq_error_iff {condition : Option String} :
    stack.branch condition = .error error ↔
      (∃ location rest, stack.outline = (location, some none) :: rest ∧
        error = .malformedDirective .branchAfterElse) ∨
      (∀ location held rest, stack.outline ≠ (location, some held) :: rest) ∧
        error = .malformedDirective .branchOutsideConditional := by
  unfold branch outline
  cases stack.opened with
  | nil =>
      refine ⟨fun refused => .inr ⟨by simp, (Except.error.inj refused).symm⟩, ?_⟩
      rintro (⟨_, _, isOpen, -⟩ | ⟨-, rfl⟩)
      · contradiction
      · rfl
  | cons scope outer =>
      cases shape : scope.model.shape with
      | conditional held following =>
          cases held <;> simp [OpenScope.outline, shape, Shape.condition?, eq_comm]
      | _ => simp [OpenScope.outline, shape, Shape.condition?, eq_comm]

/-- What a tag that is accepted does to the open scopes. -/
theorem ScopeStack.apply_cases (applied : stack.apply tag = .ok next) :
    (Segment.tag tag).IsFlat ∧ next.outline = stack.outline ∨
    tag.OpensScope ∧ next.outline = (tag.location, tag.condition? tag) :: stack.outline ∨
    tag.opcode = ',' ∧
      stack.branch (if tag.operand.isEmpty then none else some tag.operand) = .ok next ∨
    tag.opcode = '/' ∧ stack.pop = .ok next := by
  obtain ⟨opcode, operand, location⟩ := tag
  unfold apply at applied
  dsimp only at applied
  split at applied
  -- a child that is no scope
  · obtain ⟨text, -, made⟩ := Except.bind_eq_ok_iff.mp applied
    obtain rfl := Except.ok.inj made
    exact .inl ⟨by simp [Segment.IsFlat, Tag.OpensScope], outline_append _⟩
  · obtain ⟨text, -, made⟩ := Except.bind_eq_ok_iff.mp applied
    obtain rfl := Except.ok.inj made
    exact .inl ⟨by simp [Segment.IsFlat, Tag.OpensScope], outline_append _⟩
  · obtain ⟨text, -, made⟩ := Except.bind_eq_ok_iff.mp applied
    obtain rfl := Except.ok.inj made
    exact .inl ⟨by simp [Segment.IsFlat, Tag.OpensScope], outline_append _⟩
  -- another scope
  · obtain ⟨name, -, made⟩ := Except.bind_eq_ok_iff.mp applied
    obtain rfl := Except.ok.inj made
    exact .inr (.inl ⟨by simp [Tag.OpensScope], rfl⟩)
  · obtain ⟨⟨left, text⟩, -, applied⟩ := Except.bind_eq_ok_iff.mp applied
    obtain ⟨name, -, made⟩ := Except.bind_eq_ok_iff.mp applied
    obtain rfl := Except.ok.inj made
    exact .inr (.inl ⟨by simp [Tag.OpensScope], rfl⟩)
  · obtain ⟨text, read, made⟩ := Except.bind_eq_ok_iff.mp applied
    obtain rfl := Except.ok.inj made
    obtain ⟨rfl, -⟩ := required_eq_ok_iff.mp read
    exact .inr (.inl ⟨by simp [Tag.OpensScope], rfl⟩)
  · exact .inr (.inr (.inl ⟨rfl, applied⟩))
  · obtain ⟨⟨left, text⟩, -, applied⟩ := Except.bind_eq_ok_iff.mp applied
    obtain ⟨name, -, made⟩ := Except.bind_eq_ok_iff.mp applied
    obtain rfl := Except.ok.inj made
    exact .inr (.inl ⟨by simp [Tag.OpensScope], rfl⟩)
  · obtain ⟨⟨left, text⟩, -, applied⟩ := Except.bind_eq_ok_iff.mp applied
    obtain ⟨names, -, made⟩ := Except.bind_eq_ok_iff.mp applied
    obtain rfl := Except.ok.inj made
    exact .inr (.inl ⟨by simp [Tag.OpensScope], rfl⟩)
  · obtain ⟨⟨left, text⟩, -, applied⟩ := Except.bind_eq_ok_iff.mp applied
    obtain ⟨name, -, made⟩ := Except.bind_eq_ok_iff.mp applied
    obtain rfl := Except.ok.inj made
    exact .inr (.inl ⟨by simp [Tag.OpensScope], rfl⟩)
  · exact .inr (.inr (.inr ⟨rfl, applied⟩))
  · contradiction

/-- A tag that is accepted leaves open what was opened and not closed with it. -/
theorem Tracks.apply (tracks : Tracks before stack.outline) (applied : stack.apply tag = .ok next) :
    Tracks (before ++ [.tag tag]) next.outline := by
  rcases ScopeStack.apply_cases applied with ⟨isFlat, same⟩ | ⟨opens, more⟩ |
    ⟨isComma, branched⟩ | ⟨closes, popped⟩
  · exact same ▸ tracks.flat isFlat
  · exact more ▸ tracks.open opens
  · obtain ⟨location, text, rest, isOpen, isNext⟩ := ScopeStack.outline_branch branched
    rw [isOpen] at tracks
    exact isNext ▸ tracks.comma isComma
  · obtain ⟨scope, isOpen⟩ := ScopeStack.outline_pop popped
    rw [isOpen] at tracks
    exact tracks.close closes

theorem Tracks.eq_nil_iff (tracks : Tracks before scopes) :
    scopes = [] ↔ ∀ opening branch, ¬Innermost before opening branch := by
  cases scopes with
  | nil => exact iff_of_true rfl tracks
  | cons scope rest =>
      obtain ⟨opening, branch, innermost, -⟩ := tracks.innermost
      exact iff_of_false (by simp) fun none => none opening branch innermost

theorem Tracks.exists_condition_iff {condition : Option (Option String)}
    (tracks : Tracks before scopes) :
    (∃ location rest, scopes = (location, condition) :: rest) ↔
      ∃ opening branch, Innermost before opening branch ∧
        opening.condition? branch = condition := by
  constructor
  · rintro ⟨location, rest, rfl⟩
    obtain ⟨opening, branch, innermost, -, isCondition⟩ := tracks.innermost
    exact ⟨opening, branch, innermost, isCondition.symm⟩
  · rintro ⟨opening, branch, innermost, rfl⟩
    cases scopes with
    | nil => exact absurd innermost (tracks opening branch)
    | cons scope rest =>
        obtain ⟨opening', branch', innermost', -, isCondition⟩ := tracks.innermost
        obtain ⟨rfl, rfl⟩ := innermost.unique innermost'
        exact ⟨scope.1, rest, by rw [← isCondition]⟩

theorem Tag.condition?_eq_some_none_iff :
    opening.condition? branch = some none ↔ opening.opcode = '|' ∧ branch.IsElse := by
  unfold condition?
  split
  · next isConditional => simp [isConditional]
  · next noConditional => simp [noConditional]

theorem Tag.exists_condition?_iff :
    (∃ held, opening.condition? branch = some held) ↔ opening.opcode = '|' := by
  unfold condition?
  split
  · next isConditional => simp [isConditional]
  · next noConditional => simp [noConditional]

theorem ScopeStack.apply_comma (isComma : tag.opcode = ',') :
    stack.apply tag =
      stack.branch (if tag.operand.isEmpty then none else some tag.operand) := by
  obtain ⟨opcode, operand, location⟩ := tag
  obtain rfl := isComma
  rfl

/-- A `,` is refused if the innermost scope takes no other branch. -/
theorem Tracks.branch_eq_error_iff {condition : Option String}
    (tracks : Tracks before stack.outline) (isComma : tag.opcode = ',') :
    stack.branch condition = .error error ↔ Wrong before tag error := by
  have afterElse : (∃ location rest, stack.outline = (location, some none) :: rest) ↔
      ∃ opening branch, Innermost before opening branch ∧
        opening.opcode = '|' ∧ branch.IsElse := by
    simp only [tracks.exists_condition_iff, Tag.condition?_eq_some_none_iff]
  have outside : (∀ location held rest, stack.outline ≠ (location, some held) :: rest) ↔
      ∀ opening branch, Innermost before opening branch → opening.opcode ≠ '|' := by
    constructor
    · intro noConditional opening branch innermost isConditional
      obtain ⟨held, isHeld⟩ := Tag.exists_condition?_iff.mpr isConditional
      obtain ⟨location, rest, isOpen⟩ :=
        tracks.exists_condition_iff.mpr ⟨opening, branch, innermost, isHeld⟩
      exact noConditional location held rest isOpen
    · intro noConditional location held rest isOpen
      obtain ⟨opening, branch, innermost, isHeld⟩ :=
        tracks.exists_condition_iff.mp ⟨location, rest, isOpen⟩
      exact noConditional opening branch innermost (Tag.exists_condition?_iff.mp ⟨held, isHeld⟩)
  rw [ScopeStack.branch_eq_error_iff, outside]
  constructor
  · rintro (⟨location, rest, isOpen, rfl⟩ | ⟨noConditional, rfl⟩)
    · obtain ⟨opening, branch, innermost, isConditional, isElse⟩ :=
        afterElse.mp ⟨location, rest, isOpen⟩
      exact .afterElse isComma innermost isConditional isElse
    · exact .outside isComma noConditional
  · intro wrong
    cases wrong with
    | unknown isUnknown => simp [isComma, opcodes] at isUnknown
    | malformed isMalformed => simp [isComma, Malformed] at isMalformed
    | unmatched closes => simp [isComma] at closes
    | outside _ noConditional => exact .inr ⟨noConditional, rfl⟩
    | afterElse _ innermost isConditional isElse =>
        obtain ⟨location, rest, isOpen⟩ :=
          afterElse.mpr ⟨_, _, innermost, isConditional, isElse⟩
        exact .inl ⟨location, rest, isOpen, rfl⟩

/-- A tag is refused if it is wrong where it stands. -/
theorem Tracks.apply_eq_error_iff (tracks : Tracks before stack.outline) :
    stack.apply tag = .error error ↔ Wrong before tag error := by
  by_cases isComma : tag.opcode = ','
  · rw [ScopeStack.apply_comma isComma]
    exact tracks.branch_eq_error_iff isComma
  by_cases closes : tag.opcode = '/'
  · rw [ScopeStack.apply_close closes, ScopeStack.pop_eq_error_iff, tracks.eq_nil_iff]
    constructor
    · rintro ⟨noneOpen, rfl⟩
      exact .unmatched closes noneOpen
    · intro wrong
      cases wrong with
      | unknown isUnknown => simp [closes, opcodes] at isUnknown
      | malformed isMalformed => simp [closes, Malformed] at isMalformed
      | unmatched _ noneOpen => exact ⟨noneOpen, rfl⟩
      | outside other => simp [closes] at other
      | afterElse other => simp [closes] at other
  · rw [ScopeStack.apply_eq_error_iff isComma closes]
    constructor
    · rintro (⟨fault, isMalformed, rfl⟩ | ⟨isUnknown, rfl⟩)
      · exact .malformed isMalformed
      · exact .unknown isUnknown
    · intro wrong
      cases wrong with
      | unknown isUnknown => exact .inr ⟨isUnknown, rfl⟩
      | malformed isMalformed => exact .inl ⟨_, isMalformed, rfl⟩
      | unmatched other => exact absurd other closes
      | outside other => exact absurd other isComma
      | afterElse other => exact absurd other isComma

end

/-! ## What parsing does -/

section

variable {segments before after : List Segment} {segment : Segment} {tag : Tag}
  {error : RenderError}

theorem Sound.concat (sound : Sound before)
    (right : ∀ tag error, segment = .tag tag → ¬Wrong before tag error) :
    Sound (before ++ [segment]) := by
  intro front tag back error whole
  rcases List.eq_nil_or_concat back with rfl | ⟨back, last, rfl⟩
  · obtain ⟨rfl, same⟩ := List.append_inj' whole rfl
    exact right tag error (List.singleton_inj.mp same)
  · rw [List.concat_eq_append, ← List.cons_append, ← List.append_assoc] at whole
    exact sound front tag back error (List.append_inj' whole rfl).1

theorem Sound.of_append (sound : Sound (before ++ after)) : Sound before := by
  rintro front tag back error rfl
  exact sound front tag (back ++ after) error (by simp)

/-- Segments without wrong tags are read, and leave open what they open and do not close. -/
theorem Sound.exists_tracks (sound : Sound segments) :
    ∃ stack, segments.foldlM ScopeStack.step .empty = .ok stack ∧
      Tracks segments stack.outline := by
  induction segments using List.reverseRecOn with
  | nil => exact ⟨.empty, rfl, tracks_nil⟩
  | append_singleton before segment induction =>
      obtain ⟨stack, ran, tracks⟩ := induction sound.of_append
      rw [List.foldlM_append, ran]
      cases segment with
      | literal text =>
          refine ⟨_, rfl, ?_⟩
          rw [ScopeStack.outline_append]
          exact tracks.flat trivial
      | tag tag =>
          cases applied : stack.apply tag with
          | error error =>
              exact absurd (tracks.apply_eq_error_iff.mp applied)
                (sound before tag [] error rfl)
          | ok next =>
              refine ⟨next, ?_, tracks.apply applied⟩
              have stepped : stack.step (.tag tag) = .ok next := by
                simp only [ScopeStack.step, applied]
              exact Except.bind_eq_ok_iff.mpr ⟨stack, rfl, by rw [List.foldlM_cons, stepped]; rfl⟩

/-- Reading stops at the first wrong tag. -/
theorem Sound.foldlM_eq_error (sound : Sound before) (wrong : Wrong before tag error)
    (after : List Segment) :
    (before ++ .tag tag :: after).foldlM ScopeStack.step .empty =
      .error ⟨error, tag.location⟩ := by
  obtain ⟨stack, ran, tracks⟩ := sound.exists_tracks
  have refused : stack.step (.tag tag) = .error ⟨error, tag.location⟩ := by
    simp only [ScopeStack.step, tracks.apply_eq_error_iff.mpr wrong]
  rw [List.foldlM_append, ran]
  refine Except.bind_eq_error_iff.mpr (.inr ⟨stack, rfl, ?_⟩)
  rw [List.foldlM_cons, refused]
  rfl

/-- After the last segment the innermost open scope, if there is any, is told as never closed. -/
theorem Tracks.finish_eq_error_iff {stack : ScopeStack} {located : Located}
    (tracks : Tracks segments stack.outline) :
    stack.finish = .error located ↔ ∃ opening branch, Innermost segments opening branch ∧
      located = ⟨.unbalancedScope (.neverClosed opening.location), opening.location⟩ := by
  unfold ScopeStack.finish
  cases isOpen : stack.opened with
  | nil =>
      have noneOpen := tracks.eq_nil_iff.mp (by simp [ScopeStack.outline, isOpen])
      simp [noneOpen]
  | cons scope outer =>
      rw [ScopeStack.outline, isOpen] at tracks
      obtain ⟨opening, branch, innermost, placed, -⟩ := tracks.innermost
      dsimp only
      rw [placed]
      constructor
      · intro refused
        exact ⟨opening, branch, innermost, (Except.error.inj refused).symm⟩
      · rintro ⟨opening', branch', innermost', rfl⟩
        rw [(innermost.unique innermost').1]

/-- If any tag is wrong, there is a first one. -/
theorem sound_or_exists_wrong (segments : List Segment) :
    Sound segments ∨ ∃ before tag after error, segments = before ++ .tag tag :: after ∧
      Sound before ∧ Wrong before tag error := by
  induction segments using List.reverseRecOn with
  | nil =>
      refine .inl fun before tag after error whole => ?_
      simp at whole
  | append_singleton segments segment induction =>
      rcases induction with sound | ⟨before, tag, after, error, rfl, sound, wrong⟩
      · by_cases right : ∀ tag error, segment = .tag tag → ¬Wrong segments tag error
        · exact .inl (sound.concat right)
        · push Not at right
          obtain ⟨tag, error, rfl, wrong⟩ := right
          exact .inr ⟨segments, tag, [], error, rfl, sound, wrong⟩
      · exact .inr ⟨before, tag, after ++ [segment], error, by simp, sound, wrong⟩

theorem sound_of_foldlM {stack : ScopeStack}
    (ran : segments.foldlM ScopeStack.step .empty = .ok stack) : Sound segments := by
  rcases sound_or_exists_wrong segments with
    sound | ⟨before, tag, after, error, rfl, sound, wrong⟩
  · exact sound
  · rw [sound.foldlM_eq_error wrong after] at ran
    contradiction

/-- Parsing a source that can be scanned fails if some tag is wrong at its place, or some scope is
still open at the end.  The error is that of the first wrong tag, at its place; if no tag is wrong,
it tells of the innermost scope that is open, at the place of the tag that opened it. -/
theorem parse_balance {source : String} (scanned : scan source = .ok segments) :
    ((∃ located, parse source = .error located) ↔
      (∃ before tag after error, segments = before ++ .tag tag :: after ∧
        Wrong before tag error) ∨
      ∃ opening branch, Innermost segments opening branch) ∧
    (∀ before tag after error, segments = before ++ .tag tag :: after → Sound before →
      Wrong before tag error → parse source = .error ⟨error, tag.location⟩) ∧
    ∀ opening branch, Sound segments → Innermost segments opening branch →
      parse source =
        .error ⟨.unbalancedScope (.neverClosed opening.location), opening.location⟩ := by
  have parsed : parse source = segments.foldlM ScopeStack.step .empty >>= ScopeStack.finish := by
    rw [parse, scanned]
    rfl
  have atFirst (before : List Segment) (tag : Tag) (after : List Segment) (error : RenderError)
      (whole : segments = before ++ .tag tag :: after) (sound : Sound before)
      (wrong : Wrong before tag error) : parse source = .error ⟨error, tag.location⟩ := by
    rw [parsed, whole, sound.foldlM_eq_error wrong after]
    rfl
  have atEnd (opening branch : Tag) (sound : Sound segments)
      (innermost : Innermost segments opening branch) :
      parse source =
        .error ⟨.unbalancedScope (.neverClosed opening.location), opening.location⟩ := by
    obtain ⟨stack, ran, tracks⟩ := sound.exists_tracks
    rw [parsed, ran]
    exact tracks.finish_eq_error_iff.mpr ⟨opening, branch, innermost, rfl⟩
  refine ⟨⟨?_, ?_⟩, atFirst, atEnd⟩
  · rintro ⟨located, failed⟩
    rcases sound_or_exists_wrong segments with sound | ⟨before, tag, after, error, whole, -, wrong⟩
    · obtain ⟨stack, ran, tracks⟩ := sound.exists_tracks
      rw [parsed, ran] at failed
      obtain ⟨opening, branch, innermost, -⟩ := tracks.finish_eq_error_iff.mp failed
      exact .inr ⟨opening, branch, innermost⟩
    · exact .inl ⟨before, tag, after, error, whole, wrong⟩
  · intro faulty
    rcases sound_or_exists_wrong segments with
      sound | ⟨before, tag, after, error, whole, sound, wrong⟩
    · rcases faulty with ⟨before, tag, after, error, whole, wrong⟩ | ⟨opening, branch, innermost⟩
      · exact absurd wrong (sound before tag after error whole)
      · exact ⟨_, atEnd opening branch sound innermost⟩
    · exact ⟨_, atFirst before tag after error whole sound wrong⟩

/-- A conditional with two branches, the second of which has a block, that is not closed. -/
def unclosedSource : String :=
  "\x7b\x7b| a\x7d\x7dx\x7b\x7b, b\x7d\x7d\x7b\x7b: c\x7d\x7d\x7b\x7b/\x7d\x7d"

def unclosedSegments : List Segment :=
  [.tag ⟨'|', "a", ⟨1, 1⟩⟩, .literal "x", .tag ⟨',', "b", ⟨1, 9⟩⟩, .tag ⟨':', "c", ⟨1, 16⟩⟩,
    .tag ⟨'/', "", ⟨1, 23⟩⟩]

/-- The conditional is told as never closed, at its first branch. -/
theorem parse_balance_unclosed :
    scan unclosedSource = .ok unclosedSegments ∧
      parse unclosedSource = .error ⟨.unbalancedScope (.neverClosed ⟨1, 1⟩), ⟨1, 1⟩⟩ := by
  have scanned : scan unclosedSource = .ok unclosedSegments := by cbv
  have accepted : (unclosedSegments.foldlM ScopeStack.step .empty).isOk = true := by cbv
  have sound : Sound unclosedSegments := by
    cases ran : unclosedSegments.foldlM ScopeStack.step .empty with
    | error located => simp [ran, Except.isOk, Except.toBool] at accepted
    | ok stack => exact sound_of_foldlM ran
  have first : Within ⟨'|', "a", ⟨1, 1⟩⟩ [.literal "x"] ⟨'|', "a", ⟨1, 1⟩⟩ :=
    Within.opened.flat trivial
  have second : Within ⟨'|', "a", ⟨1, 1⟩⟩ [.literal "x", .tag ⟨',', "b", ⟨1, 9⟩⟩]
      ⟨',', "b", ⟨1, 9⟩⟩ := first.next rfl
  have block : Within ⟨':', "c", ⟨1, 16⟩⟩ [] ⟨':', "c", ⟨1, 16⟩⟩ := .opened
  have within : Within ⟨'|', "a", ⟨1, 1⟩⟩ (unclosedSegments.drop 1) ⟨',', "b", ⟨1, 9⟩⟩ :=
    second.closed (by simp [Tag.OpensScope]) block rfl
  have innermost : Innermost unclosedSegments ⟨'|', "a", ⟨1, 1⟩⟩ ⟨',', "b", ⟨1, 9⟩⟩ :=
    ⟨by simp [Tag.OpensScope], [], unclosedSegments.drop 1, rfl, within⟩
  exact ⟨scanned, (parse_balance scanned).2.2 _ _ sound innermost⟩

end

end Template
end StaticSite
