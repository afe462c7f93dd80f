import Std.Data.TreeMap
import MiniC.Memory.Fault
import MiniC.Memory.Word

/-!
# The heap

A heap is a range of bytes with addresses from zero up to its capacity. Blocks are handed out in
order of address and never taken back, so the only thing to remember about them is how many bytes
are in use. A byte that was never written is zero, and only the others are stored.

`Heap.read` and `Heap.write` move one word of four bytes and fail exactly when the four bytes do not
lie in the heap (`Heap.contains`); allocation does not limit them.
-/

set_option autoImplicit false

namespace MiniC

/-- A heap: its size in bytes, the number of bytes handed out, and the bytes that were written. -/
structure Heap where
  capacity : Nat
  used : Nat
  bytes : Std.TreeMap Nat UInt8

namespace Heap

/-- A heap of zero bytes of which none is handed out. -/
def empty (capacity : Nat) : Heap := ⟨capacity, 0, ∅⟩

/-- The size in bytes of an address as the program sees it. -/
def addressSize : Int32 := 4

/-- The size in bytes of what an address points to, whatever its type. -/
def elementSize : Int32 := 4

/-- The distance in bytes between elements that are `n` positions apart. -/
def stepSize (n : Int32) : Int32 := n * elementSize

/-- The byte at an address. -/
def byte (h : Heap) (a : Nat) : UInt8 := h.bytes.getD a 0

/-- The start of a word of the heap, from its address. -/
def wordStart? (h : Heap) (address : Int32) : Option Nat :=
  (Word.toNat? address).filter fun a => a + Word.size ≤ h.capacity

/-- Hands out the next `size` bytes; the result is the address of the first. -/
def allocate (h : Heap) (size : Int32) : Except MemoryFault (Int32 × Heap) :=
  match Word.toNat? size with
  | none => throw (.invalidAllocationSize size)
  | some n =>
    if h.capacity < h.used + n then throw (.heapExhausted size h.used h.capacity)
    else if h.used < 1 <<< 31 then pure (.ofNat h.used, { h with used := h.used + n })
    else throw (.invalidAllocationSize size)

/-- Gives a block back, which changes nothing: no byte is handed out twice. -/
def free (h : Heap) (_address : Int32) : Heap := h

/-- The word at an address. -/
def read (h : Heap) (address : Int32) : Except MemoryFault Int32 :=
  match h.wordStart? address with
  | none => throw (.invalidHeapAccess address)
  | some a => pure (Word.ofBytes (h.byte a) (h.byte (a + 1)) (h.byte (a + 2)) (h.byte (a + 3)))

/-- Stores a word at an address. -/
def write (h : Heap) (address value : Int32) : Except MemoryFault Heap :=
  match h.wordStart? address with
  | none => throw (.invalidHeapAccess address)
  | some a =>
    let store (bytes : Std.TreeMap Nat UInt8) (k : Nat) := bytes.insert (a + k) (Word.byte value k)
    pure { h with bytes := (List.range Word.size).foldl store h.bytes }

end Heap

end MiniC
