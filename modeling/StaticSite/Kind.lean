/-!
# Kinds of values

This file gives the lattice of kinds that expressions ask for.

```text
Any
├── Map
│   └── List
│       └── String
├── Number
│   ├── Integer
│   └── Float
└── Boolean
```

A kind conforms to itself and to everything above it, so that a string can be indexed like a list
and asked for fields like a map.
-/

namespace StaticSite

/-- The kind of a value, or the kind that a place asks for. -/
inductive Kind where
  | any
  | map
  | list
  | string
  | number
  | integer
  | float
  | boolean
  deriving DecidableEq, Repr, Inhabited

namespace Kind

def all : List Kind :=
  [any, map, list, string, number, integer, float, boolean]

def parent? : Kind → Option Kind
  | any => none
  | map | number | boolean => some any
  | list => some map
  | string => some list
  | integer | float => some number

/-- The kind and all kinds above it, nearest first. -/
def ancestors : Kind → List Kind
  | any => [any]
  | map => [map, any]
  | list => [list, map, any]
  | string => [string, list, map, any]
  | number => [number, any]
  | integer => [integer, number, any]
  | float => [float, number, any]
  | boolean => [boolean, any]

theorem ancestors_eq (kind : Kind) :
    kind.ancestors = kind :: (kind.parent?.map ancestors).getD [] := by
  cases kind <;> rfl

/-- Whether a value of this kind can stand where the other kind is asked for. -/
def conformsTo (kind other : Kind) : Bool :=
  kind.ancestors.contains other

/-- A kind conforms to another if it is that one or the kind right above it conforms to it. -/
theorem conformsTo_iff {kind other : Kind} :
    kind.conformsTo other = true ↔
      kind = other ∨ ∃ above, kind.parent? = some above ∧ above.conformsTo other = true := by
  rw [conformsTo, ancestors_eq, List.contains_cons, Bool.or_eq_true, beq_iff_eq, eq_comm]
  cases kind.parent? <;> simp [conformsTo]

theorem conformsTo_trans {low kind high : Kind} (lower : low.conformsTo kind = true)
    (upper : kind.conformsTo high = true) : low.conformsTo high = true := by
  rcases conformsTo_iff.mp lower with rfl | ⟨above, isAbove, lower⟩
  · exact upper
  · exact conformsTo_iff.mpr (.inr ⟨above, isAbove, conformsTo_trans lower upper⟩)
termination_by low.ancestors.length
decreasing_by simp [ancestors_eq low, isAbove]

def name : Kind → String
  | any => "Any"
  | map => "Map"
  | list => "List"
  | string => "String"
  | number => "Number"
  | integer => "Integer"
  | float => "Float"
  | boolean => "Boolean"

/-- Whether some number can stand where this kind is asked for. -/
def acceptsNumber (kind : Kind) : Bool :=
  integer.conformsTo kind || float.conformsTo kind

/-- The kind asked of the operands of an arithmetic operator whose result is asked for as `kind`. -/
def ofOperands : Kind → Kind
  | integer => integer
  | float => float
  | _ => number

theorem ofOperands_conformsTo_number (kind : Kind) : kind.ofOperands.conformsTo number = true := by
  cases kind <;> rfl

end Kind
end StaticSite
