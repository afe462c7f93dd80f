import Std.Data.TreeMap
import MiniC.Memory.Fault
import MiniC.Memory.Word

/-!
# The array store

Arrays live apart from the heap: each has an id, a length that never changes, and the number of
calls that were active when it was made. Ids count up from zero. An element that was never written
is zero, and only the others are stored.
-/

set_option autoImplicit false

namespace MiniC

/-- One array: its length, the depth of calls at which it was made, and the elements written. -/
structure StoredArray where
  length : Nat
  scopeDepth : Nat
  cells : Std.TreeMap Nat Int32

/-- All arrays made so far, in the order of their ids. -/
structure ArrayStore where
  arrays : Array StoredArray

namespace ArrayStore

/-- The store without arrays. -/
def empty : ArrayStore := ⟨#[]⟩

/-- Makes an array of zeros; its id is the first component. -/
def create (store : ArrayStore) (length scopeDepth : Nat) : Int32 × ArrayStore :=
  (.ofNat store.arrays.size, ⟨store.arrays.push ⟨length, scopeDepth, ∅⟩⟩)

/-- The array with an id. -/
def array (store : ArrayStore) (id : Int32) : Except MemoryFault StoredArray :=
  match (Word.toNat? id).bind fun k => store.arrays[k]? with
  | some array => pure array
  | none => throw (.invalidArray id)

/-- The position of an element, from its index. -/
def slot (array : StoredArray) (index : Int32) : Except MemoryFault Nat :=
  match (Word.toNat? index).filter fun i => i < array.length with
  | some i => pure i
  | none => throw (.arrayIndexOutOfBounds index array.length)

/-- The element of an array at an index. -/
def get (store : ArrayStore) (id index : Int32) : Except MemoryFault Int32 := do
  let array ← store.array id
  let i ← slot array index
  pure (array.cells.getD i 0)

/-- Stores an element of an array. -/
def set (store : ArrayStore) (id index value : Int32) : Except MemoryFault ArrayStore := do
  let array ← store.array id
  let i ← slot array index
  pure
    ⟨store.arrays.setIfInBounds id.toInt.toNat { array with cells := array.cells.insert i value }⟩

/-- The depth of calls at which an array was made. -/
def scopeDepth (store : ArrayStore) (id : Int32) : Except MemoryFault Nat := do
  let array ← store.array id
  pure array.scopeDepth

end ArrayStore

end MiniC
