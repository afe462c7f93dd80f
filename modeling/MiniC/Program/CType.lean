/-!
# Static types

A type is a value type or a function type. A value type has a base, a number of pointer levels and,
for arrays, a length; length zero stands for an array parameter of unstated length. The predicates
`isInteger`, `isPointer`, `isArray`, `isVoid` and `isFunction` exclude one another
(`CType.isArray_eq_false_of_isPointer` and the lemmas beside it).
-/

set_option autoImplicit false

namespace MiniC

/-- The types that a declaration can start from. -/
inductive BaseType where
  | int | char | void
  deriving DecidableEq

/-- The keyword that writes a base type. -/
def BaseType.name : BaseType → String
  | int => "int"
  | char => "char"
  | void => "void"

/-- The static type of a declaration or an expression. -/
inductive CType where
  /-- An object: `pointers` levels of pointer over `base`, and `length` of them if it is an
  array. -/
  | value (base : BaseType) (pointers : Nat) (length : Option Nat)
  | function (result : CType)
  deriving DecidableEq

namespace CType

/-- The type of a base type without pointers. -/
def ofBase (base : BaseType) : CType := value base 0 none

/-- The type of ordinary integers. -/
def int : CType := ofBase .int

instance : Inhabited CType := ⟨int⟩

/-- One more pointer level; of an array, on its elements. -/
def withPointer : CType → CType
  | value base pointers length => value base (pointers + 1) length
  | function result => function result

/-- `n` more pointer levels. -/
def withPointers (type : CType) : Nat → CType
  | 0 => type
  | n + 1 => (type.withPointers n).withPointer

/-- The array of a given length whose elements have the type, or the elements of the type. -/
def withLength (length : Nat) : CType → CType
  | value base pointers _ => value base pointers (some length)
  | function result => function result

/-- A number of type `int` or `char`. -/
def isInteger : CType → Bool
  | value .int 0 none => true
  | value .char 0 none => true
  | _ => false

/-- A heap address. -/
def isPointer : CType → Bool
  | value _ (_ + 1) none => true
  | _ => false

/-- An array of any length. -/
def isArray : CType → Bool
  | value _ _ (some _) => true
  | _ => false

/-- The type without values. -/
def isVoid : CType → Bool
  | value .void 0 none => true
  | _ => false

/-- A function, whatever it returns. -/
def isFunction : CType → Bool
  | function _ => true
  | _ => false

/-- The length of an array type. -/
def length? : CType → Option Nat
  | value _ _ length => length
  | function _ => none

/-- The type of what a pointer points to or an array holds. -/
def element : CType → CType
  | value base pointers (some _) => value base pointers none
  | value base pointers none => value base (pointers - 1) none
  | function _ => int

/-- The type of what a call returns; of a type that is no function, the type itself. -/
def result : CType → CType
  | function result => result
  | value base pointers length => value base pointers length

/-- A type as messages write it. -/
def describe : CType → String
  | value base pointers length =>
    base.name ++ String.ofList (List.replicate pointers '*') ++
      match length with
      | none => ""
      | some 0 => "[]"
      | some n => s!"[{n}]"
  | function result => result.describe ++ " (*)()"

theorem isArray_iff {type : CType} : type.isArray = true ↔ ∃ n, type.length? = some n := by
  rcases type with ⟨_, _, _ | _⟩ | _ <;> simp [isArray, length?]

theorem isArray_eq_false_of_isPointer {type : CType} (h : type.isPointer = true) :
    type.isArray = false := by
  rcases type with ⟨_, _ | _, _ | _⟩ | _ <;> simp_all [isArray, isPointer]

end CType

end MiniC
