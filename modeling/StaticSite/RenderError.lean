import StaticSite.Asset.Format
import StaticSite.Kind

/-!
# Rendering errors

Everything that can go wrong while templates are parsed, assets are decoded and pages are rendered.
Each error is a cause; its wording is given by `RenderError.message`.  An asset's error is wrapped
with the asset's key, so that a chain of wrappers follows the imports down to the cause.
-/

namespace StaticSite

/-- Line and column of a tag, both counted from one, columns in characters. -/
structure Location where
  line : Nat
  column : Nat
  deriving DecidableEq, Repr

namespace Location

def start : Location := ⟨1, 1⟩

def after (location : Location) (c : Char) : Location :=
  if c == '\n' then ⟨location.line + 1, 1⟩ else ⟨location.line, location.column + 1⟩

def afterAll (location : Location) (chars : List Char) : Location :=
  chars.foldl after location

/-- Line and column with a colon between. -/
def text (location : Location) : String :=
  toString location.line ++ ":" ++ toString location.column

end Location

/-- What is wrong with an expression's text. -/
inductive SyntaxFault where
  | bareFraction
  | assignment
  | unexpectedCharacter (c : Char)
  | integerOutOfRange (numeral : String)
  | invalidFloat (numeral : String)
  | unterminatedString
  | unterminatedEscape
  | escapeWithoutBrace
  | unterminatedUnicodeEscape
  | invalidUnicodeEscape (code : String)
  | unknownEscape (c : Char)
  | missingExpression
  | missingColon
  | missingBracket
  | missingParenthesis
  | missingFieldName
  | trailingInput
  deriving DecidableEq, Repr

def SyntaxFault.message : SyntaxFault → String
  | bareFraction => "float literal needs a leading digit"
  | assignment => "assignment is not an expression, use `==`"
  | unexpectedCharacter c => "unexpected character '" ++ c.toString ++ "'"
  | integerOutOfRange numeral => "integer literal `" ++ numeral ++ "` out of range"
  | invalidFloat numeral => "invalid float literal `" ++ numeral ++ "`"
  | unterminatedString => "unterminated string literal"
  | unterminatedEscape => "unterminated escape sequence"
  | escapeWithoutBrace => "expected `\x7b` after `\\u`"
  | unterminatedUnicodeEscape => "unterminated unicode escape"
  | invalidUnicodeEscape code => "invalid unicode escape `" ++ code ++ "`"
  | unknownEscape c => "unknown escape `\\" ++ c.toString ++ "`"
  | missingExpression => "expected an expression"
  | missingColon => "expected `:` in conditional expression"
  | missingBracket => "expected `]`"
  | missingParenthesis => "expected `)`"
  | missingFieldName => "expected field name after `.`"
  | trailingInput => "unexpected trailing input"

/-- A fault of an expression and the byte at which it lies. -/
structure SyntaxError where
  offset : Nat
  fault : SyntaxFault
  deriving DecidableEq, Repr

/-- What is wrong with a directive. -/
inductive DirectiveFault where
  | unterminatedTag
  | missingOpcode
  | missingExpression
  | missingAssetKey
  | invalidIdentifier (text : String)
  | missingArrow (operand : String)
  | missingPair (names : String)
  | bindsNothing
  | branchOutsideConditional
  | branchAfterElse
  deriving DecidableEq, Repr

def DirectiveFault.message : DirectiveFault → String
  | unterminatedTag => "unterminated directive tag"
  | missingOpcode => "directive tag has no opcode"
  | missingExpression => "missing expression"
  | missingAssetKey => "missing asset key"
  | invalidIdentifier text => "invalid identifier `" ++ text ++ "`"
  | missingArrow operand => "expected `name <- value`, found `" ++ operand ++ "`"
  | missingPair names => "expected `key, value`, found `" ++ names ++ "`"
  | bindsNothing => "map iteration must bind a key or a value"
  | branchOutsideConditional => "`,` outside of a conditional"
  | branchAfterElse => "no branch may follow an unconditional `,`"

/-- How opening and closing tags fail to match. -/
inductive BalanceFault where
  | unmatchedClose
  | neverClosed (opened : Location)
  deriving DecidableEq, Repr

def BalanceFault.message : BalanceFault → String
  | unmatchedClose => "`/` without a matching open scope"
  | neverClosed opened => "scope opened at " ++ opened.text ++ " is never closed"

/-- An operation on integers without a result. -/
inductive ArithmeticFault where
  | divisionByZero
  | moduloByZero
  | negativePower
  deriving DecidableEq, Repr

def ArithmeticFault.message : ArithmeticFault → String
  | divisionByZero => "division by zero"
  | moduloByZero => "modulo by zero"
  | negativePower => "negative powers yield non-integrals"

/-- Why the bytes of an asset are no asset. -/
inductive DecodeFault where
  /-- The bytes are no text of the format at all. -/
  | unreadable
  | jsonNotObject
  | jsonNull
  | yamlNotMapping
  | yamlCompoundKey
  deriving DecidableEq, Repr

/-- The wording of undecodable data.  For bytes that are no text of the format, only a place for
the wording of a parser is shown. -/
def DecodeFault.message : DecodeFault → String
  | unreadable => "<parser>"
  | jsonNotObject => "JSON data must be an object"
  | jsonNull => "null is not a supported value"
  | yamlNotMapping => "YAML data must be a mapping"
  | yamlCompoundKey => "mapping keys must be scalars"

/-- What can go wrong while assets are parsed, baked and rendered. -/
inductive RenderError where
  | unresolvedReference (name : String)
  | typeMismatch (expected actual : Kind)
  | malformedDirective (fault : DirectiveFault)
  | invalidOperator (opcode : Char)
  | unbalancedScope (fault : BalanceFault)
  | expressionSyntax (error : SyntaxError)
  | arithmetic (fault : ArithmeticFault)
  | duplicateAsset (key : String) (old new : Path)
  | unresolvableAsset (key : String)
  | noAdapter (key : String) (path : Path)
  /-- The keys being baked, outermost first, and last the key that closes the circle. -/
  | circularDependency (keys : List String)
  | decode (key : String) (format : Format) (fault : DecodeFault)
  | io (path : Path)
  /-- An error of the asset with this key, and the place of the tag if it is known. -/
  | parsingFailed (key : String) (location : Option Location) (source : RenderError)
  deriving DecidableEq, Repr

namespace RenderError

def message : RenderError → String
  | unresolvedReference name => "could not resolve reference: " ++ name
  | typeMismatch expected actual =>
      "expected type " ++ expected.name ++ " but found " ++ actual.name
  | malformedDirective fault => "malformed directive: " ++ fault.message
  | invalidOperator opcode => "invalid operator '" ++ opcode.toString ++ "'"
  | unbalancedScope fault => "unbalanced scope: " ++ fault.message
  | expressionSyntax error =>
      "expression syntax error at offset " ++ toString error.offset ++ ": " ++ error.fault.message
  | arithmetic fault => "arithmetic error: " ++ fault.message
  | duplicateAsset key old new =>
      "duplicate asset: " ++ key ++ " (" ++ old.text ++ " -> " ++ new.text ++ ")"
  | unresolvableAsset key => "could not resolve asset: " ++ key
  | noAdapter key path => "no adapter for asset: " ++ key ++ " (" ++ path.text ++ ")"
  | circularDependency keys => "circular dependency: " ++ String.intercalate " -> " keys
  | decode key format fault =>
      "could not decode " ++ format.name ++ " asset " ++ key ++ ": " ++ fault.message
  | io path => "IO error when reading `" ++ path.text ++ "`"
  | parsingFailed key location _ =>
      "parsing failed for asset: " ++ key ++
        (location.map fun location => " at " ++ location.text).getD ""

/-- The refusal of a circular import shows the keys being baked and then the key that closes the
circle. -/
theorem message_circularDependency_append {stack : List String} (nonempty : stack ≠ [])
    (key : String) :
    (circularDependency (stack ++ [key])).message =
      "circular dependency: " ++ (String.intercalate " -> " stack ++ " -> " ++ key) := by
  calc
    (circularDependency (stack ++ [key])).message
      = "circular dependency: " ++ String.intercalate " -> " (stack ++ [key]) := rfl
    _ = "circular dependency: " ++ (String.intercalate " -> " stack ++ " -> " ++ key) := by
        rw [String.intercalate_append_of_ne_nil nonempty (List.cons_ne_nil key []),
          String.intercalate_singleton]

/-- Wrap an error with the key of its asset, unless it is already wrapped with that key. -/
def inAsset (key : String) (location : Option Location) : RenderError → RenderError
  | error@(parsingFailed inner ..) =>
      if inner == key then error else parsingFailed key location error
  | error => parsingFailed key location error

theorem exists_inAsset_eq (key : String) (location : Option Location) (error : RenderError) :
    ∃ place source, error.inAsset key location = parsingFailed key place source := by
  unfold inAsset
  split
  · next inner place source =>
    by_cases same : inner = key
    · subst same
      exact ⟨place, source, by simp⟩
    · exact ⟨location, parsingFailed inner place source, by simp [same]⟩
  · exact ⟨location, _, rfl⟩

/-- The innermost error below all wrappers. -/
def rootCause : RenderError → RenderError
  | parsingFailed _ _ source => source.rootCause
  | error => error

/-- The messages of the error and of the errors it wraps, outermost first. -/
def chain : RenderError → List String
  | error@(parsingFailed _ _ source) => error.message :: source.chain
  | error => [error.message]

end RenderError
end StaticSite
