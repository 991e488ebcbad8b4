import StaticSite.Value.Number

/-!
# Values and scopes

This file gives the values that expressions yield and the scopes that bind names to them.  A scope
is a chain of frames, the innermost first; extending it never changes the scope it was made from.
A baked scope is a value as well: it answers for its names like a map and stands for the text that
was rendered from it.
-/

namespace StaticSite

/-- Where in the tree of a rendered page a scope was baked.  Steps are listed innermost first. -/
abbrev Address := List Nat

/-- A value with its kind. -/
inductive Value where
  | integer (value : Int64)
  | float (value : Float)
  | boolean (value : Bool)
  | string (text : String)
  | list (items : List Value)
  /-- Fields in the order of their definition. -/
  | map (fields : List (String × Value))
  /-- A baked scope: the place where it was baked, its frames innermost first, and its text. -/
  | scope (address : Address) (frames : List (List (String × Value))) (text : String)
  deriving Inhabited

/-- Named values in the order in which the names were first given. -/
abbrev Fields := List (String × Value)

namespace Fields

/-- Set a field.  A name that is already there keeps its place and takes the new value. -/
def insert (name : String) (value : Value) : Fields → Fields
  | [] => [(name, value)]
  | (other, old) :: rest =>
      if other == name then (name, value) :: rest else (other, old) :: insert name value rest

/-- The fields given by some entries, the last entry of a name deciding. -/
def ofEntries (entries : List (String × Value)) : Fields :=
  entries.foldl (fun fields entry => insert entry.1 entry.2 fields) []

def names (fields : Fields) : List String :=
  fields.map Prod.fst

end Fields

/-- A chain of frames that bind names. -/
structure Scope where
  frames : List Fields
  deriving Inhabited

namespace Scope

def root : Scope := ⟨[]⟩

/-- A scope in which the bindings hide what they share names with. -/
def extend (scope : Scope) (bindings : Fields) : Scope :=
  if bindings.isEmpty then scope else ⟨bindings :: scope.frames⟩

def bind (scope : Scope) (name : String) (value : Value) : Scope :=
  scope.extend [(name, value)]

/-- The value of a name in the innermost frame that binds it. -/
def lookup? (scope : Scope) (name : String) : Option Value :=
  scope.frames.findSome? fun frame => frame.lookup name

def names (scope : Scope) : List String :=
  (scope.frames.flatMap Fields.names).eraseDups

end Scope

namespace Value

def kind : Value → Kind
  | integer _ => .integer
  | float _ => .float
  | boolean _ => .boolean
  | string _ => .string
  | list _ => .list
  | map _ | scope .. => .map

def ofNumber : Number → Value
  | .integer value => integer value
  | .float value => float value

def number? : Value → Option Number
  | integer value => some (.integer value)
  | float value => some (.float value)
  | _ => none

def boolean? : Value → Option Bool
  | boolean value => some value
  | _ => none

def integer? : Value → Option Int64
  | integer value => some value
  | _ => none

def length? : Value → Option Nat
  | string text => some text.length
  | list items => some items.length
  | _ => none

end Value

namespace Kind

/-- Let a value pass if its kind conforms. -/
def ensure (kind : Kind) (value : Value) : Except RenderError Value :=
  if value.kind.conformsTo kind then .ok value else .error (.typeMismatch kind value.kind)

/-- Let a value pass if its kind conforms; an integer becomes a float where exactly a float is
asked for. -/
def coerce (kind : Kind) (value : Value) : Except RenderError Value :=
  match kind, value with
  | .float, .integer whole => .ok (.float whole.toFloat)
  | kind, value => kind.ensure value

end Kind

namespace Value

/-- The name of the field that tells the length of a string or a list. -/
def lengthField : String := "length"

/-- The field of that name, coerced to the kind asked for; none if there is no such field. -/
def field? (kind : Kind) (name : String) (value : Value) : Except RenderError (Option Value) := do
  let found ←
    match value with
    | map fields => pure (fields.lookup name)
    | scope _ frames _ => pure (Scope.lookup? ⟨frames⟩ name)
    | string _ | list _ =>
        pure (if name == lengthField then value.length?.map fun n => integer (.ofNat n) else none)
    | other => throw (.typeMismatch .map other.kind)
  match found with
  | none => pure none
  | some value => some <$> kind.coerce value

/-- The item or character at a position counted from zero, coerced to the kind asked for; none
outside of the value. -/
def index? (kind : Kind) (position : Int64) (value : Value) :
    Except RenderError (Option Value) := do
  if position < 0 then pure none
  else
    let place := position.toInt.toNat
    let found ←
      match value with
      | string text => pure (text.toList[place]?.map fun c => string c.toString)
      | list items => pure items[place]?
      | other => throw (.typeMismatch .list other.kind)
    match found with
    | none => pure none
    | some value => some <$> kind.coerce value

/-- The names that a value has fields for, in order. -/
def fieldNames : Value → List String
  | map fields => Fields.names fields
  | scope _ frames _ => Scope.names ⟨frames⟩
  | string _ | list _ => [lengthField]
  | _ => []

mutual

/-- Whether two values are equal.  Maps are compared without regard to order, and a baked scope
equals nothing but itself. -/
def isEqual : Value → Value → Bool
  | boolean a, boolean b => a == b
  | string a, string b => a == b
  | list a, list b => itemsEqual a b
  | map a, map b => a.length == b.length && fieldsAmong b a
  | scope a .., scope b .. => a == b
  | integer a, other => other.number?.any (Number.isEqual (.integer a))
  | float a, other => other.number?.any (Number.isEqual (.float a))
  | _, _ => false

/-- Whether two lists have the same length and equal items. -/
def itemsEqual : List Value → List Value → Bool
  | [], [] => true
  | a :: as, b :: bs => isEqual a b && itemsEqual as bs
  | _, _ => false

/-- Whether each field, second argument, has an equal one of the same name among the others. -/
def fieldsAmong (others : Fields) : Fields → Bool
  | [] => true
  | (name, value) :: rest =>
      (match others.lookup name with
        | some other => isEqual value other
        | none => false) &&
        fieldsAmong others rest

end

end Value
end StaticSite
