import MiniC.Machine.RuntimeError
import MiniC.Memory.ArrayStore
import MiniC.Memory.Heap

/-!
# Faults of the memory

Some faults say that a run looks for something that is not there (`RuntimeFault.isLookup`). The heap
does not raise them, and the array store raises one exactly where no array has the id
(`ArrayStore.length?`). What is stored in an array does not change anything else about the arrays
(`ArrayStore.map_arrays_set`), and what is stored in the heap not how much of it is handed out.
-/

set_option autoImplicit false

namespace MiniC

/-- Whether a run cannot go on because something that it looks for is not there: the value of an
expression or of a variable, or an array. -/
def RuntimeFault.isLookup : RuntimeFault → Bool
  | .memory (.unboundExpression _) | .memory (.invalidArray _) | .unboundDeclaration _ => true
  | _ => false

namespace ArrayStore

/-- The lengths of all arrays, in the order of their ids. -/
def lengths (store : ArrayStore) : Array Nat := store.arrays.map StoredArray.length

/-- The length of the array with an id. -/
def length? (store : ArrayStore) (id : Int32) : Option Nat :=
  (Word.toNat? id).bind fun k => store.lengths[k]?

variable {store store' : ArrayStore} {array : StoredArray} {id index value : Int32}
    {fault : MemoryFault}

theorem array_error (h : store.array id = .error fault) :
    fault = .invalidArray id ∧ store.length? id = none := by
  unfold ArrayStore.array at h
  unfold length? lengths
  cases hk : Word.toNat? id with
  | none =>
    rw [hk] at h
    cases h
    exact ⟨rfl, rfl⟩
  | some k =>
    rw [hk] at h
    simp only [Option.bind_some, Array.getElem?_map] at h ⊢
    cases harray : store.arrays[k]? with
    | none =>
      rw [harray] at h
      cases h
      exact ⟨rfl, rfl⟩
    | some array =>
      rw [harray] at h
      cases h

theorem array_ok (h : store.array id = .ok array) :
    ∃ k, id.toInt.toNat = k ∧ Word.toNat? id = some k ∧ store.arrays[k]? = some array := by
  unfold ArrayStore.array at h
  split at h
  · next found hfound =>
    obtain ⟨k, hk, harray⟩ := Option.bind_eq_some_iff.1 hfound
    cases h
    refine ⟨k, ?_, hk, harray⟩
    unfold Word.toNat? at hk
    split at hk
    · cases hk
      rfl
    · cases hk
  · cases h

theorem isLookup_of_slot (h : slot array index = .error fault) :
    (RuntimeFault.memory fault).isLookup = false := by
  unfold slot at h
  split at h
  · cases h
  · cases h
    rfl

/-- An element is not found if there is no such array, or for a reason that is no lookup. -/
theorem get_error (h : store.get id index = .error fault) :
    fault = .invalidArray id ∧ store.length? id = none ∨
      (RuntimeFault.memory fault).isLookup = false := by
  unfold get at h
  cases harray : store.array id with
  | error f =>
    rw [harray] at h
    cases h
    exact .inl (array_error harray)
  | ok array =>
    rw [harray] at h
    dsimp only [bind, Except.bind] at h
    split at h
    · next hslot =>
      cases h
      exact .inr (isLookup_of_slot hslot)
    · cases h

theorem set_error (h : store.set id index value = .error fault) :
    fault = .invalidArray id ∧ store.length? id = none ∨
      (RuntimeFault.memory fault).isLookup = false := by
  unfold set at h
  cases harray : store.array id with
  | error f =>
    rw [harray] at h
    cases h
    exact .inl (array_error harray)
  | ok array =>
    rw [harray] at h
    dsimp only [bind, Except.bind] at h
    split at h
    · next hslot =>
      cases h
      exact .inr (isLookup_of_slot hslot)
    · cases h

/-- Storing an element changes one array that is there. -/
theorem set_ok (h : store.set id index value = .ok store') :
    ∃ (k : Nat) (array : StoredArray) (i : Nat), store.arrays[k]? = some array ∧
      store' =
        ⟨store.arrays.setIfInBounds k { array with cells := array.cells.insert i value }⟩ := by
  unfold set at h
  cases harray : store.array id with
  | error f =>
    rw [harray] at h
    cases h
  | ok array =>
    rw [harray] at h
    dsimp only [bind, Except.bind] at h
    split at h
    · cases h
    · next i hslot =>
      cases h
      obtain ⟨k, rfl, -, hfound⟩ := array_ok harray
      exact ⟨_, array, i, hfound, rfl⟩

/-- Storing an element leaves everything about the arrays as it is that does not look at their
elements. -/
theorem map_arrays_set {β : Type} {f : StoredArray → β}
    (hf : ∀ (array : StoredArray) cells, f { array with cells } = f array)
    (h : store.set id index value = .ok store') : store'.arrays.map f = store.arrays.map f := by
  obtain ⟨k, array, i, hfound, rfl⟩ := set_ok h
  obtain ⟨hlt, hget⟩ := Array.getElem?_eq_some_iff.1 hfound
  apply Array.ext_getElem?
  intro j
  simp only [Array.getElem?_map, Array.getElem?_setIfInBounds]
  by_cases hj : k = j
  · subst hj
    simp [hlt, hget, hf]
  · simp [hj]

/-- Storing an element leaves all lengths as they are. -/
theorem lengths_set (h : store.set id index value = .ok store') : store'.lengths = store.lengths :=
  map_arrays_set (fun _ _ => rfl) h

end ArrayStore

namespace Heap

variable {heap : Heap} {address value size : Int32} {fault : MemoryFault}

theorem isLookup_of_read (h : heap.read address = .error fault) :
    (RuntimeFault.memory fault).isLookup = false := by
  unfold read at h
  split at h <;> cases h
  rfl

theorem isLookup_of_write (h : heap.write address value = .error fault) :
    (RuntimeFault.memory fault).isLookup = false := by
  unfold write at h
  split at h <;> cases h
  rfl

/-- Storing a word hands out nothing. -/
theorem used_write {heap' : Heap} (h : heap.write address value = .ok heap') :
    heap'.used = heap.used := by
  unfold write at h
  split at h <;> cases h
  rfl

/-- Handing out memory changes nothing but how much is handed out. -/
theorem allocate_ok {start : Int32} {heap' : Heap} (h : heap.allocate size = .ok (start, heap')) :
    ∃ n, heap' = { heap with used := heap.used + n } := by
  unfold allocate at h
  split at h
  · cases h
  · next n _ =>
    split at h
    · cases h
    · split at h <;> cases h
      exact ⟨n, rfl⟩

theorem isLookup_of_allocate (h : heap.allocate size = .error fault) :
    (RuntimeFault.memory fault).isLookup = false := by
  unfold allocate at h
  split at h
  · cases h
    rfl
  · split at h
    · cases h
      rfl
    · split at h <;> cases h
      rfl

end Heap

end MiniC
