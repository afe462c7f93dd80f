import MiniC.Proofs.MemoryFaults
import MiniC.Proofs.RunOutcome

/-!
# Stored values

What is stored at a place is found there afterwards, and a value cannot be stored at a place for the
same reason that none is found there (`Run.Place.answer_of_put`, `Run.Place.put_error_iff`). In the
heap this is so because a word is the word of its bytes (`Word.ofBytes_bytes`), and because reading
and writing ask for the same four bytes.
-/

set_option autoImplicit false

namespace MiniC

/-! ## Addresses and indices -/

theorem Word.toNat?_eq_some_iff {v : Int32} {k : Nat} : toNat? v = some k ↔ v.toInt = k := by
  unfold toNat?
  split
  · rw [Option.some.injEq]
    omega
  · simp only [reduceCtorEq, false_iff]
    omega

/-- An address or index stands for a position if it is not negative and the position is allowed. -/
theorem Word.filter_toNat? {v : Int32} {allowed : Nat → Bool} {P : Prop} [Decidable P]
    (h : 0 ≤ v.toInt → (allowed v.toInt.toNat = true ↔ P)) :
    (toNat? v).filter allowed = if 0 ≤ v.toInt ∧ P then some v.toInt.toNat else none := by
  unfold toNat?
  split
  · next hsign => simp only [Option.filter_some, h hsign, hsign, true_and]
  · next hsign => rw [Option.filter_none, if_neg (mt And.left hsign)]

/-! ## The heap -/

/-- The four bytes of a word make up the word. -/
theorem Word.ofBytes_bytes (v : Int32) :
    ofBytes (byte v 0) (byte v 1) (byte v 2) (byte v 3) = v := by
  apply Int32.toBitVec_inj.1
  unfold ofBytes byte
  simp only [UInt32.toBitVec_toInt32, UInt32.toBitVec_or, UInt32.toBitVec_shiftLeft,
    UInt8.toBitVec_toUInt32, UInt32.toBitVec_toUInt8, UInt32.toBitVec_shiftRight,
    Int32.toBitVec_toUInt32]
  ext i hi
  simp only [← BitVec.getLsbD_eq_getElem]
  -- bit `i` comes from one of the four bytes
  obtain h | ⟨h, h'⟩ | ⟨h, h'⟩ | h : i < 8 ∨ (8 ≤ i ∧ i < 16) ∨ (16 ≤ i ∧ i < 24) ∨ 24 ≤ i := by
    omega
  · simp [h, show i < 16 by omega, show i < 24 by omega, hi]
  · simp [Nat.not_lt.2 h, h', show i < 24 by omega, show i - 8 < 8 by omega,
      show 8 + (i - 8) = i by omega, hi]
  · simp [Nat.not_lt.2 h, h', show ¬ i < 8 by omega, show ¬ i - 8 < 8 by omega,
      show i - 16 < 8 by omega, show 16 + (i - 16) = i by omega, hi]
  · simp [Nat.not_lt.2 h, show ¬ i < 8 by omega, show ¬ i < 16 by omega, show ¬ i - 8 < 8 by omega,
      show ¬ i - 16 < 8 by omega, show i - 24 < 8 by omega, show 24 + (i - 24) = i by omega, hi]

namespace Heap

variable {h h' : Heap} {address value : Int32} {fault : MemoryFault} {a : Nat}

/-- A word begins where its four bytes lie in the heap. -/
theorem wordStart?_eq (h : Heap) (address : Int32) :
    h.wordStart? address =
      if 0 ≤ address.toInt ∧ address.toInt + 4 ≤ h.capacity then some address.toInt.toNat
        else none := by
  refine Word.filter_toNat? fun hsign => ?_
  rw [decide_eq_true_iff, Word.size]
  omega

theorem read_of_wordStart? (hstart : h.wordStart? address = some a) :
    h.read address =
      .ok (Word.ofBytes (h.byte a) (h.byte (a + 1)) (h.byte (a + 2)) (h.byte (a + 3))) := by
  rw [read, hstart]
  rfl

/-- Writing a word changes the four bytes from its address. -/
theorem write_of_wordStart? (hstart : h.wordStart? address = some a) (value : Int32) :
    ∃ h', h.write address value = .ok h' ∧ h'.capacity = h.capacity ∧
      h'.byte a = Word.byte value 0 ∧ h'.byte (a + 1) = Word.byte value 1 ∧
      h'.byte (a + 2) = Word.byte value 2 ∧ h'.byte (a + 3) = Word.byte value 3 := by
  rw [write, hstart]
  refine ⟨_, rfl, rfl, ?_⟩
  simp [byte, Word.size, List.range_succ, Std.TreeMap.getD_insert]

theorem read_of_wordStart?_none (hstart : h.wordStart? address = none) :
    h.read address = .error (.invalidHeapAccess address) := by
  rw [read, hstart]
  rfl

theorem write_of_wordStart?_none (hstart : h.wordStart? address = none) (value : Int32) :
    h.write address value = .error (.invalidHeapAccess address) := by
  rw [write, hstart]
  rfl

/-- A word that was written is read. -/
theorem read_of_write (hwrite : h.write address value = .ok h') : h'.read address = .ok value := by
  cases hstart : h.wordStart? address with
  | none =>
    rw [write_of_wordStart?_none hstart] at hwrite
    cases hwrite
  | some a =>
    obtain ⟨written, hwritten, hcapacity, h0, h1, h2, h3⟩ := write_of_wordStart? hstart value
    obtain rfl : written = h' := Except.ok.inj (hwritten.symm.trans hwrite)
    have hstart' : written.wordStart? address = some a := by
      rw [wordStart?, hcapacity, ← hstart, wordStart?]
    rw [read_of_wordStart? hstart', h0, h1, h2, h3, Word.ofBytes_bytes]

/-- A word cannot be written for the same reason that none can be read. -/
theorem write_error_iff : h.write address value = .error fault ↔ h.read address = .error fault := by
  cases hstart : h.wordStart? address with
  | none => rw [write_of_wordStart?_none hstart, read_of_wordStart?_none hstart]; simp
  | some a =>
    obtain ⟨written, hwritten, -⟩ := write_of_wordStart? hstart value
    rw [hwritten, read_of_wordStart? hstart]
    simp

end Heap

/-! ## The arrays -/

namespace ArrayStore

variable {store store' : ArrayStore} {array : StoredArray} {id index value : Int32}
    {fault : MemoryFault}

theorem array_eq_ok_iff : store.array id = .ok array ↔ ∃ k : Nat, id.toInt = k ∧
    store.arrays[k]? = some array := by
  constructor
  · intro h
    obtain ⟨k, -, hk, harray⟩ := array_ok h
    exact ⟨k, Word.toNat?_eq_some_iff.1 hk, harray⟩
  · rintro ⟨k, hk, harray⟩
    rw [ArrayStore.array, Word.toNat?_eq_some_iff.2 hk, Option.bind_some, harray]
    rfl

theorem slot_eq (array : StoredArray) (index : Int32) :
    slot array index = if 0 ≤ index.toInt ∧ index.toInt < array.length then .ok index.toInt.toNat
      else .error (.arrayIndexOutOfBounds index array.length) := by
  have hposition : (Word.toNat? index).filter (fun i => i < array.length) =
      if 0 ≤ index.toInt ∧ index.toInt < array.length then some index.toInt.toNat else none := by
    refine Word.filter_toNat? fun hsign => ?_
    rw [decide_eq_true_iff]
    omega
  rw [slot, hposition]
  by_cases hinside : 0 ≤ index.toInt ∧ index.toInt < array.length
  · rw [if_pos hinside, if_pos hinside]
    rfl
  · rw [if_neg hinside, if_neg hinside]
    rfl

theorem get_of_array (harray : store.array id = .ok array) (index : Int32) :
    store.get id index = if 0 ≤ index.toInt ∧ index.toInt < array.length then
      .ok (array.cells.getD index.toInt.toNat 0)
        else .error (.arrayIndexOutOfBounds index array.length) := by
  rw [get, harray]
  change (slot array index >>= fun i => pure (array.cells.getD i 0)) = _
  rw [slot_eq]
  split <;> rfl

theorem get_of_array_error (harray : store.array id = .error fault) (index : Int32) :
    store.get id index = .error fault := by
  rw [get, harray]
  rfl

/-- Storing an element changes the array with this id, and no other. -/
theorem array_of_set (hset : store.set id index value = .ok store') :
    ∃ array, store.array id = .ok array ∧ (0 ≤ index.toInt ∧ index.toInt < array.length) ∧
      ∀ id', store'.array id' = if id' = id then
        .ok { array with cells := array.cells.insert index.toInt.toNat value }
          else store.array id' := by
  cases harray : store.array id with
  | error fault =>
    rw [set, harray] at hset
    cases hset
  | ok array =>
    rw [set, harray] at hset
    change (slot array index >>= fun i => pure _) = _ at hset
    rw [slot_eq] at hset
    split at hset
    · next hinside =>
      obtain ⟨k, hk, hfound⟩ := array_eq_ok_iff.1 harray
      obtain ⟨hlt, -⟩ := Array.getElem?_eq_some_iff.1 hfound
      cases hset
      refine ⟨array, rfl, hinside, fun id' => ?_⟩
      rw [hk, Int.toNat_natCast]
      split
      · -- the element of the array itself
        next heq =>
        rw [heq]
        exact array_eq_ok_iff.2 ⟨k, hk, by simp [hlt]⟩
      · -- all other ids are those of other arrays, or of none
        next hne =>
        unfold ArrayStore.array
        cases hk' : Word.toNat? id' with
        | none => rfl
        | some k' =>
          have hother : k ≠ k' := by
            rintro rfl
            exact hne (Int32.toInt_inj.1 ((Word.toNat?_eq_some_iff.1 hk').trans hk.symm))
          simp only [Option.bind_some, Array.getElem?_setIfInBounds_ne hother]
    · cases hset

/-- An element that was stored is found. -/
theorem get_of_set (hset : store.set id index value = .ok store') :
    store'.get id index = .ok value := by
  obtain ⟨array, -, hinside, hafter⟩ := array_of_set hset
  have harray := hafter id
  rw [if_pos rfl] at harray
  rw [get_of_array harray index, if_pos hinside, Std.TreeMap.getD_insert_self]

/-- An element cannot be stored for the same reason that none is found. -/
theorem set_error_iff : store.set id index value = .error fault ↔
    store.get id index = .error fault := by
  unfold set get
  cases store.array id with
  | error f => simp [bind, Except.bind]
  | ok array =>
    dsimp only [bind, Except.bind]
    cases slot array index with
    | error f => simp
    | ok i => simp [pure, Except.pure]

end ArrayStore

/-! ## Places -/

namespace Run

/-- What memory answers when it is asked for the value at a place. -/
def Place.answer {κ : Type} (place : Place) (s : State κ) : Except MemoryFault Int32 :=
  match place with
  | .heap address => s.heap.read address
  | .array id index => s.arrays.get id index

/-- What memory answers when it is asked to store a value at a place. -/
def Place.put {κ : Type} (place : Place) (value : Int32) (s : State κ) :
    Except MemoryFault (State κ) :=
  match place with
  | .heap address => (s.heap.write address value).map fun heap => { s with heap }
  | .array id index => (s.arrays.set id index value).map fun arrays => { s with arrays }

section Places

variable {κ : Type} {image : Image} {place : Place} {value : Int32} {s t : State κ}
    {fault : MemoryFault}

theorem load_apply (image : Image) (place : Place) (s : State κ) :
    load image place s = match place.answer s with
      | .ok value => .ok value s
      | .error fault => .error (.error (.fault (.memory fault) (image.locationIn s.stack))) s := by
  have hload : load image place s = (orFault image (place.answer s) : Run κ Int32) s := by
    cases place <;> rfl
  rw [hload]
  cases place.answer s <;> rfl

theorem store_apply (image : Image) (place : Place) (value : Int32) (s : State κ) :
    store image place value s = match place.put value s with
      | .ok t => .ok () t
      | .error fault => .error (.error (.fault (.memory fault) (image.locationIn s.stack))) s := by
  unfold store
  rw [bind_apply, get_apply]
  cases place with
  | heap address =>
    dsimp only [Place.put]
    cases s.heap.write address value <;> rfl
  | array id index =>
    dsimp only [Place.put]
    cases s.arrays.set id index value <;> rfl

/-- What was stored lies in the heap or in an array. -/
theorem Place.put_ok (h : place.put value s = .ok t) :
    (∃ address heap, place = .heap address ∧ s.heap.write address value = .ok heap ∧
      t = { s with heap }) ∨
      ∃ id index arrays, place = .array id index ∧ s.arrays.set id index value = .ok arrays ∧
        t = { s with arrays } := by
  cases place with
  | heap address =>
    dsimp only [put] at h
    cases hwrite : s.heap.write address value with
    | error fault =>
      rw [hwrite] at h
      cases h
    | ok heap =>
      rw [hwrite] at h
      cases h
      exact .inl ⟨address, heap, rfl, hwrite, rfl⟩
  | array id index =>
    dsimp only [put] at h
    cases hset : s.arrays.set id index value with
    | error fault =>
      rw [hset] at h
      cases h
    | ok arrays =>
      rw [hset] at h
      cases h
      exact .inr ⟨id, index, arrays, rfl, hset, rfl⟩

theorem Place.stack_of_put (h : place.put value s = .ok t) : t.stack = s.stack := by
  obtain ⟨address, heap, -, -, rfl⟩ | ⟨id, index, arrays, -, -, rfl⟩ := put_ok h
  · rfl
  · rfl

/-- What was stored at a place is found there. -/
theorem Place.answer_of_put (h : place.put value s = .ok t) : place.answer t = .ok value := by
  obtain ⟨address, heap, rfl, hwrite, rfl⟩ | ⟨id, index, arrays, rfl, hset, rfl⟩ := put_ok h
  · exact Heap.read_of_write hwrite
  · exact ArrayStore.get_of_set hset

/-- A value cannot be stored at a place for the same reason that none is found there. -/
theorem Place.put_error_iff : place.put value s = .error fault ↔ place.answer s = .error fault := by
  cases place with
  | heap address =>
    rw [answer, ← Heap.write_error_iff, put]
    cases s.heap.write address value <;> simp [Except.map]
  | array id index =>
    rw [answer, ← ArrayStore.set_error_iff, put]
    cases s.arrays.set id index value <;> simp [Except.map]

end Places

end Run

end MiniC
