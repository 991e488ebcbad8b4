import StaticSite.Proofs.Expression.Failure
import StaticSite.Template.Directive

/-!
# What reading a template fails with

A source that is no template is refused for one of its directives, at the place of a tag.
-/

namespace StaticSite

/-- Whether an error tells of a directive. -/
def RenderError.IsDirective : RenderError → Prop
  | malformedDirective _ | invalidOperator _ | unbalancedScope _ => True
  | _ => False

namespace Template

/-- Whether a result can fail only as directives do. -/
abbrev OnlyReads {α : Type} (result : Except RenderError α) : Prop :=
  FailsOnly RenderError.IsDirective result

/-- Whether a result can fail only as directives do, at some place. -/
abbrev OnlyReadsAt {α : Type} (result : Except Located α) : Prop :=
  FailsOnly (fun located => located.error.IsDirective) result

/-! ## Tags -/

theorem onlyReadsAt_tagOfBody (opened : Location) (gathered : List Char) :
    OnlyReadsAt (tagOfBody opened gathered) := by
  unfold tagOfBody
  split
  · exact .error trivial
  · split
    · exact .error trivial
    · exact .ok _

mutual

theorem onlyReadsAt_scanText (location : Location) (gathered : List Char) (slashes : Nat)
    (chars : List Char) : OnlyReadsAt (scanText location gathered slashes chars) := by
  rw [scanText.eq_def]
  split
  · exact .ok _
  · exact onlyReadsAt_scanText _ _ _ _
  · next rest =>
    have tag := onlyReadsAt_scanTag location ((location.after '\x7b').after '\x7b') [] rest
    dsimp only
    split
    · exact onlyReadsAt_scanText _ _ _ _
    · split
      · next error failed => exact .error (tag error failed)
      · exact .ok _
  · exact onlyReadsAt_scanText _ _ _ _
termination_by chars.length

theorem onlyReadsAt_scanTag (opened location : Location) (gathered chars : List Char) :
    OnlyReadsAt (scanTag opened location gathered chars) := by
  rw [scanTag.eq_def]
  split
  · exact .error trivial
  · next rest =>
    have text := onlyReadsAt_scanText ((location.after '\x7d').after '\x7d') [] 0 rest
    split
    · next error failed => exact .error (onlyReadsAt_tagOfBody opened gathered error failed)
    · split
      · next error failed => exact .error (text error failed)
      · exact .ok _
  · exact onlyReadsAt_scanTag _ _ _ _
termination_by chars.length

end

/-! ## Directives -/

theorem onlyReads_identifier (chars : List Char) : OnlyReads (identifier chars) := by
  unfold identifier
  split
  · exact .ok _
  · exact .error trivial

theorem onlyReads_required (fault : DirectiveFault) (operand : String) :
    OnlyReads (required fault operand) := by
  unfold required
  split
  · exact .error trivial
  · exact .ok _

theorem onlyReads_arrowSides (operand : String) : OnlyReads (arrowSides operand) := by
  unfold arrowSides
  dsimp only
  split
  · exact .error trivial
  · split
    · exact .error trivial
    · exact .ok _

theorem onlyReads_bindable (chars : List Char) : OnlyReads (bindable chars) := by
  unfold bindable
  split
  · exact .ok none
  · exact (onlyReads_identifier _).map some

theorem onlyReads_pairNames (names : List Char) : OnlyReads (pairNames names) := by
  unfold pairNames
  split
  · next left right _ =>
    refine (onlyReads_bindable left).bind fun key => (onlyReads_bindable right).bind fun value => ?_
    split
    · exact .error trivial
    · exact .ok _
  · exact .error trivial

theorem ScopeStack.onlyReads_pop (stack : ScopeStack) : OnlyReads stack.pop := by
  unfold ScopeStack.pop
  split
  · exact .error trivial
  · dsimp only
    split
    · exact .ok _
    · exact .ok _

theorem ScopeStack.onlyReads_branch (stack : ScopeStack) (condition : Option String) :
    OnlyReads (stack.branch condition) := by
  unfold ScopeStack.branch
  split
  · exact .error trivial
  · split
    · exact .ok _
    · exact .error trivial
    · exact .error trivial

theorem ScopeStack.onlyReads_apply (stack : ScopeStack) (tag : Tag) :
    OnlyReads (stack.apply tag) := by
  unfold ScopeStack.apply
  split
  · exact (onlyReads_required _ _).bind fun _ => .ok _
  · exact (onlyReads_required _ _).bind fun _ => .ok _
  · exact (onlyReads_required _ _).bind fun _ => .ok _
  · exact (onlyReads_identifier _).bind fun _ => .ok _
  · exact (onlyReads_arrowSides _).bind fun _ => (onlyReads_identifier _).bind fun _ => .ok _
  · exact (onlyReads_required _ _).bind fun _ => .ok _
  · exact stack.onlyReads_branch _
  · exact (onlyReads_arrowSides _).bind fun _ => (onlyReads_identifier _).bind fun _ => .ok _
  · exact (onlyReads_arrowSides _).bind fun _ => (onlyReads_pairNames _).bind fun _ => .ok _
  · exact (onlyReads_arrowSides _).bind fun _ => (onlyReads_identifier _).bind fun _ => .ok _
  · exact stack.onlyReads_pop
  · exact .error trivial

theorem ScopeStack.onlyReadsAt_step (stack : ScopeStack) (segment : Segment) :
    OnlyReadsAt (stack.step segment) := by
  cases segment with
  | literal text => exact .ok _
  | tag tag =>
      rw [ScopeStack.step]
      cases applied : stack.apply tag with
      | error error => exact .error (stack.onlyReads_apply tag error applied)
      | ok next => exact .ok next

theorem ScopeStack.onlyReadsAt_foldlM (segments : List Segment) (stack : ScopeStack) :
    OnlyReadsAt (segments.foldlM ScopeStack.step stack) := by
  induction segments generalizing stack with
  | nil => exact .ok stack
  | cons segment rest induction => exact (stack.onlyReadsAt_step segment).bind induction

/-- A source that is no template is refused for one of its directives. -/
theorem onlyReadsAt_parse (source : String) : OnlyReadsAt (parse source) := by
  refine FailsOnly.bind (onlyReadsAt_scanText _ _ _ _) fun segments => ?_
  refine (ScopeStack.onlyReadsAt_foldlM segments .empty).bind fun stack => ?_
  unfold ScopeStack.finish
  split
  · exact .ok _
  · exact .error trivial

end Template
end StaticSite
