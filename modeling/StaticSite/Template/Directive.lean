import StaticSite.Expression.Token
import StaticSite.Template.Model
import StaticSite.Template.Tag

/-!
# Directives

This file builds the model of a template from its tags.

| opcode | operand              | effect                            |
|--------|----------------------|-----------------------------------|
| `=`    | expression           | value, strictly                   |
| `~`    | expression           | value, or nothing                 |
| `+`    | asset key            | another asset in place            |
| `:`    | name                 | open a named block                |
| `.`    | `name <- expression` | open a scope with a name bound    |
| `\|`   | expression           | open a conditional                |
| `,`    | expression or none   | next branch of the conditional    |
| `[`    | `item <- list`       | open an iteration over a list     |
| `{`    | `key, value <- map`  | open an iteration over a map      |
| `d`    | `name <- asset key`  | open a scope with an asset bound  |
| `/`    | ignored              | close the innermost scope         |

The scopes that are open form a stack above the root.  Each tag turns one stack into the next.
-/

namespace StaticSite
namespace Template

/-- Where a scope goes when it is closed. -/
inductive Placement where
  | child
  | binding (name : String)
  deriving DecidableEq, Repr

/-- A scope that is open. -/
structure OpenScope where
  model : Model
  placement : Placement
  /-- The earlier branches of a conditional, the latest first. -/
  earlier : List Model
  /-- Where the scope was opened. -/
  location : Location

/-- The branches of a conditional linked into one model. -/
def OpenScope.linked (opened : OpenScope) : Model :=
  opened.earlier.foldl (fun next branch => branch.followedBy next) opened.model

/-- The open scopes above the root, the innermost first. -/
structure ScopeStack where
  root : Model
  opened : List OpenScope

namespace ScopeStack

/-- Nothing read yet. -/
def empty : ScopeStack := ⟨.ofShape .plain, []⟩

/-- Change the innermost scope. -/
def modify (stack : ScopeStack) (change : Model → Model) : ScopeStack :=
  match stack.opened with
  | [] => { stack with root := change stack.root }
  | scope :: outer => { stack with opened := { scope with model := change scope.model } :: outer }

/-- Open a scope. -/
def push (stack : ScopeStack) (placement : Placement) (shape : Shape) (location : Location) :
    ScopeStack :=
  { stack with opened := ⟨.ofShape shape, placement, [], location⟩ :: stack.opened }

/-- Close the innermost scope and put it where it goes. -/
def pop (stack : ScopeStack) : Except RenderError ScopeStack :=
  match stack.opened with
  | [] => .error (.unbalancedScope .unmatchedClose)
  | scope :: outer =>
      let below : ScopeStack := { stack with opened := outer }
      match scope.placement with
      | .child => .ok (below.modify (.append (.scope scope.linked)))
      | .binding name => .ok (below.modify (.appendBinding name scope.linked))

/-- End the current branch of the innermost conditional and start the next. -/
def branch (stack : ScopeStack) (condition : Option String) : Except RenderError ScopeStack :=
  match stack.opened with
  | [] => .error (.malformedDirective .branchOutsideConditional)
  | scope :: outer =>
      match scope.model.shape with
      | .conditional (some _) _ =>
          let next : OpenScope :=
            { scope with
              model := .ofShape (.conditional condition none)
              earlier := scope.model :: scope.earlier }
          .ok { stack with opened := next :: outer }
      | .conditional none _ => .error (.malformedDirective .branchAfterElse)
      | _ => .error (.malformedDirective .branchOutsideConditional)

end ScopeStack

/-- The text, if it is an identifier. -/
def identifier (chars : List Char) : Except RenderError String :=
  if Expression.isIdentifier chars then .ok (String.ofList chars)
  else .error (.malformedDirective (.invalidIdentifier (String.ofList chars)))

/-- The operand, which must not be empty. -/
def required (fault : DirectiveFault) (operand : String) : Except RenderError String :=
  if operand.isEmpty then .error (.malformedDirective fault) else .ok operand

/-- The two sides of the one arrow in an operand, trimmed; the right side must not be empty. -/
def arrowSides (operand : String) : Except RenderError (List Char × String) :=
  let fault : RenderError := .malformedDirective (.missingArrow operand)
  match Text.splitFirst ['<', '-'] operand.toList with
  | none => .error fault
  | some (left, right) =>
      if (Text.splitFirst ['<', '-'] right).isSome || (Text.trim right).isEmpty then .error fault
      else .ok (Text.trim left, String.ofList (Text.trim right))

/-- A name to bind; the placeholder `_` binds nothing. -/
def bindable (chars : List Char) : Except RenderError (Option String) :=
  if Text.trim chars == ['_'] then .ok none else some <$> identifier (Text.trim chars)

/-- The names for the key and the value of a map iteration. -/
def pairNames (names : List Char) : Except RenderError (Option String × Option String) := do
  match names.splitOn ',' with
  | [left, right] =>
      let key ← bindable left
      let value ← bindable right
      if key.isNone && value.isNone then throw (.malformedDirective .bindsNothing)
      pure (key, value)
  | _ => throw (.malformedDirective (.missingPair (String.ofList names)))

/-- The stack after a tag. -/
def ScopeStack.apply (stack : ScopeStack) (tag : Tag) : Except RenderError ScopeStack :=
  match tag.opcode with
  | '=' => do
      let text ← required .missingExpression tag.operand
      pure (stack.modify (.append (.expression text true)))
  | '~' => do
      let text ← required .missingExpression tag.operand
      pure (stack.modify (.append (.expression text false)))
  | '+' => do
      let key ← required .missingAssetKey tag.operand
      pure (stack.modify (.append (.importing key)))
  | ':' => do
      let name ← identifier tag.operand.toList
      pure (stack.push (.binding name) .plain tag.location)
  | '.' => do
      let (name, text) ← arrowSides tag.operand
      let name ← identifier name
      pure (stack.push .child (.letIn name text) tag.location)
  | '|' => do
      let condition ← required .missingExpression tag.operand
      pure (stack.push .child (.conditional (some condition) none) tag.location)
  | ',' => stack.branch (if tag.operand.isEmpty then none else some tag.operand)
  | '[' => do
      let (item, iterable) ← arrowSides tag.operand
      let item ← identifier item
      pure (stack.push .child (.listIteration item iterable) tag.location)
  | '\x7b' => do
      let (names, map) ← arrowSides tag.operand
      let (key, value) ← pairNames names
      pure (stack.push .child (.mapIteration key value map) tag.location)
  | 'd' => do
      let (name, key) ← arrowSides tag.operand
      let name ← identifier name
      pure (stack.push .child (.importing name key) tag.location)
  | '/' => stack.pop
  | opcode => .error (.invalidOperator opcode)

/-- The stack after a segment. -/
def ScopeStack.step (stack : ScopeStack) : Segment → Except Located ScopeStack
  | .literal text => .ok (stack.modify (.append (.literal text)))
  | .tag tag =>
      match stack.apply tag with
      | .error error => .error ⟨error, tag.location⟩
      | .ok next => .ok next

/-- The root model, once nothing is open. -/
def ScopeStack.finish (stack : ScopeStack) : Except Located Model :=
  match stack.opened with
  | [] => .ok stack.root
  | scope :: _ => .error ⟨.unbalancedScope (.neverClosed scope.location), scope.location⟩

/-- The model that segments describe. -/
def modelOfSegments (segments : List Segment) : Except Located Model := do
  let stack ← segments.foldlM ScopeStack.step .empty
  stack.finish

/-- The model of a template's source. -/
def parse (source : String) : Except Located Model := do
  modelOfSegments (← scan source)

end Template
end StaticSite
