import MiniC.Program.Basic

/-!
# Faults of the memory model

The reasons why an operation on the heap, the array store or a frame cannot be carried out.
-/

set_option autoImplicit false

namespace MiniC

/-- Why memory cannot answer. -/
inductive MemoryFault where
  /-- The rest of the heap is too small for a request. -/
  | heapExhausted (requested : Int32) (used capacity : Nat)
  /-- A request of negative size, or one that would begin past the last address. -/
  | invalidAllocationSize (size : Int32)
  /-- The four bytes from an address do not lie in the heap. -/
  | invalidHeapAccess (address : Int32)
  /-- No array has this id. -/
  | invalidArray (id : Int32)
  /-- An index is not below the length of its array. -/
  | arrayIndexOutOfBounds (index : Int32) (length : Nat)
  /-- An expression's value is asked for before it has one. -/
  | unboundExpression (e : ExprId)
  deriving DecidableEq

/-- The wording of a fault. -/
def MemoryFault.message : MemoryFault → String
  | heapExhausted requested used capacity =>
    s!"Out of heap memory: requested {requested} bytes with {used} of {capacity} in use"
  | invalidAllocationSize size => s!"Invalid allocation size {size}"
  | invalidHeapAccess address => s!"Invalid heap access at address {address}"
  | invalidArray id => s!"Invalid array id {id}"
  | arrayIndexOutOfBounds index length => s!"Array index {index} out of bounds for length {length}"
  | unboundExpression e => s!"Expression node ExprId({e.index}) read before it was evaluated"

end MiniC
