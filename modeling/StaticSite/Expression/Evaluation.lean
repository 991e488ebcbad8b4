import StaticSite.Expression.Parsing
import StaticSite.Value.Text

/-!
# Evaluating expressions

This file evaluates expression trees in a scope.  The kind that is asked for is handed down the
tree: an operation first compares it with the kind of its result, and only leaves coerce values.
An integer literal where a float is asked for thus becomes a float before anything is computed.
-/

namespace StaticSite

/-- Let a result of the natural kind stand where `kind` is asked for. -/
def Kind.require (kind natural : Kind) : Except RenderError Unit :=
  if natural.conformsTo kind then .ok () else .error (.typeMismatch kind natural)

/-- Let some number stand where `kind` is asked for. -/
def Kind.requireNumber (kind : Kind) : Except RenderError Unit :=
  if kind.acceptsNumber then .ok () else .error (.typeMismatch kind .number)

namespace Value

def expectNumber (value : Value) : Except RenderError Number :=
  match value.number? with
  | some number => .ok number
  | none => .error (.typeMismatch .number value.kind)

def expectInteger (value : Value) : Except RenderError Int64 :=
  match value.integer? with
  | some number => .ok number
  | none => .error (.typeMismatch .integer value.kind)

def expectBoolean (value : Value) : Except RenderError Bool :=
  match value.boolean? with
  | some truth => .ok truth
  | none => .error (.typeMismatch .boolean value.kind)

end Value

/-- The value of a name, coerced to the kind asked for. -/
def Scope.resolve? (scope : Scope) (kind : Kind) (name : String) :
    Except RenderError (Option Value) :=
  match scope.lookup? name with
  | none => .ok none
  | some value => some <$> kind.coerce value

/-- The value of a name that must be bound, coerced to the kind asked for. -/
def Scope.resolve (scope : Scope) (kind : Kind) (name : String) : Except RenderError Value := do
  match ← scope.resolve? kind name with
  | some value => pure value
  | none => throw (.unresolvedReference name)

namespace Expression

/-- An operation on the bits of two integers.  Only the last six bits of a shift count. -/
def bitwise (operation : Binary) (a b : Int64) : Int64 :=
  match operation with
  | .bitOr => a ||| b
  | .bitXor => a ^^^ b
  | .bitAnd => a &&& b
  | .shiftLeft => a <<< b
  | .shiftRight => a >>> b
  | _ => (a.toUInt64 >>> b.toUInt64).toInt64

def compares (operation : Binary) (a b : Number) : Bool :=
  match operation with
  | .less => a.isLess b
  | .greater => a.isGreater b
  | .atMost => a.isAtMost b
  | _ => a.isAtLeast b

/-- A number with the sign in front of it. -/
def signed (operation : Unary) (a : Number) : Number :=
  match operation with
  | .negate => a.negated
  | _ => a

/-- An operation whose operands are both numbers. -/
def arithmetic (operation : Binary) (a b : Number) : Except RenderError Number :=
  match operation with
  | .add => .ok (a.plus b)
  | .subtract => .ok (a.minus b)
  | .multiply => .ok (a.times b)
  | .divide => a.dividedBy b
  | _ => a.power b

/-- Whether two values are equal, or differ. -/
def agrees (operation : Binary) (a b : Value) : Bool :=
  match operation with
  | .equal => a.isEqual b
  | _ => !a.isEqual b

/-- The sum of two numbers where a number may stand, or else the two texts joined. -/
def addOrJoin (kind : Kind) (a b : Value) : Value :=
  match a.number?, b.number? with
  | some x, some y =>
      if kind.acceptsNumber then .ofNumber (x.plus y) else .string (a.text ++ b.text)
  | _, _ => .string (a.text ++ b.text)

/-- The value of a tree in a scope, of the kind asked for. -/
def eval (scope : Scope) : Tree → Kind → Except RenderError Value
  | .integer value, kind =>
      if Kind.integer.conformsTo kind then .ok (.integer value)
      else if kind == .float then .ok (.float value.toFloat)
      else .error (.typeMismatch kind .integer)
  | .float value, kind => do
      kind.require .float
      pure (.float value)
  | .boolean value, kind => do
      kind.require .boolean
      pure (.boolean value)
  | .string text, kind => do
      kind.require .string
      pure (.string text)
  | .identifier name, kind => scope.resolve kind name
  | .field target name, kind => do
      let target ← eval scope target .map
      match ← target.field? kind name with
      | some value => pure value
      | none => throw (.unresolvedReference name)
  | .index target position, kind => do
      let target ← eval scope target .list
      let position ← (← eval scope position .integer).expectInteger
      match ← target.index? kind position with
      | some value => pure value
      | none => throw (.unresolvedReference ("[" ++ toString position.toInt ++ "]"))
  | .unary operation operand, kind =>
      match operation with
      | .plus | .negate => do
          kind.requireNumber
          let a ← (← eval scope operand kind.ofOperands).expectNumber
          kind.coerce (.ofNumber (signed operation a))
      | .bitNot => do
          kind.require .integer
          let number ← (← eval scope operand .integer).expectInteger
          pure (.integer (~~~number))
      | .not => do
          kind.require .boolean
          let truth ← (← eval scope operand .boolean).expectBoolean
          pure (.boolean !truth)
  | .binary operation left right, kind =>
      match operation with
      | .or => do
          kind.require .boolean
          let a ← (← eval scope left .boolean).expectBoolean
          if a then pure (.boolean true)
          else
            let b ← (← eval scope right .boolean).expectBoolean
            pure (.boolean b)
      | .and => do
          kind.require .boolean
          let a ← (← eval scope left .boolean).expectBoolean
          if a then
            let b ← (← eval scope right .boolean).expectBoolean
            pure (.boolean b)
          else pure (.boolean false)
      | .equal | .notEqual => do
          kind.require .boolean
          let a ← eval scope left .any
          let b ← eval scope right .any
          pure (.boolean (agrees operation a b))
      | .less | .greater | .atMost | .atLeast => do
          kind.require .boolean
          let a ← (← eval scope left .number).expectNumber
          let b ← (← eval scope right .number).expectNumber
          pure (.boolean (compares operation a b))
      | .bitOr | .bitXor | .bitAnd | .shiftLeft | .shiftRight | .shiftRightUnsigned => do
          kind.require .integer
          let a ← (← eval scope left .integer).expectInteger
          let b ← (← eval scope right .integer).expectInteger
          pure (.integer (bitwise operation a b))
      | .add => do
          if Kind.string.conformsTo kind then
            let a ← eval scope left .any
            let b ← eval scope right .any
            pure (addOrJoin kind a b)
          else
            kind.requireNumber
            let a ← (← eval scope left kind.ofOperands).expectNumber
            let b ← (← eval scope right kind.ofOperands).expectNumber
            kind.coerce (.ofNumber (a.plus b))
      | .subtract | .multiply | .divide | .power => do
          kind.requireNumber
          let a ← (← eval scope left kind.ofOperands).expectNumber
          let b ← (← eval scope right kind.ofOperands).expectNumber
          kind.coerce (.ofNumber (← arithmetic operation a b))
      | .remainder => do
          kind.requireNumber
          let a ← (← eval scope left kind.ofOperands).expectNumber
          let b ← (← eval scope right .integer).expectInteger
          kind.coerce (.ofNumber (← a.modulo b))
  | .conditional condition whenTrue whenFalse, kind => do
      let holds ← (← eval scope condition .boolean).expectBoolean
      if holds then eval scope whenTrue kind else eval scope whenFalse kind

/-- A leaf is coerced to the kind asked for. -/
theorem eval_integer_eq_coerce {scope : Scope} {kind : Kind} (value : Int64) :
    eval scope (.integer value) kind = kind.coerce (.integer value) := by
  cases kind <;> rfl

theorem eval_float_eq_coerce {scope : Scope} {kind : Kind} (value : Float) :
    eval scope (.float value) kind = kind.coerce (.float value) := by
  cases kind <;> rfl

theorem eval_identifier_eq_coerce {scope : Scope} {kind : Kind} {name : String} {value : Value}
    (bound : scope.lookup? name = some value) :
    eval scope (.identifier name) kind = kind.coerce value := by
  simp only [eval, Scope.resolve, Scope.resolve?, bound]
  cases kind.coerce value <;> rfl

def evaluate (scope : Scope) (kind : Kind) (text : String) : Except RenderError Value :=
  match parse text with
  | .error error => .error (.expressionSyntax error)
  | .ok tree => eval scope tree kind

/-- The value of an expression's text, or none if it has no value of the kind asked for. -/
def evaluate? (scope : Scope) (kind : Kind) (text : String) : Option Value :=
  (evaluate scope kind text).toOption

end Expression
end StaticSite
