import Mathlib.Algebra.Group.Int.Defs
import MiniC.Proofs.MemoryHistory
import MiniC.Proofs.StoredValues

/-!
# Histories of the heap

A heap is used by requesting blocks and giving them back, and by reading and writing words
(`Heap.Operation`). The blocks that requests were answered with lie one behind the other from
address zero on, each as long as was requested (`Heap.Consecutive`), so no two of them share an
address and none is handed out again; which other operations there were makes no difference to them
(`Heap.blocks_of_history`).

The bytes of a heap form a map from addresses to bytes. A word is read wherever its four bytes lie
in the heap, and is made up, in base 256 and with the lowest digit first, of what was written latest
to each of the four addresses (`Heap.words_of_history`).
-/

set_option autoImplicit false

namespace MiniC

/-! ## Digits of words -/

namespace Word

/-- Digit `k` of a word in base 256. -/
def digit (v : Int32) (k : Nat) : UInt8 := .ofInt (v.toInt / 256 ^ k)

/-- The word with these digits; the highest one decides about its sign. -/
def ofDigits (digit : Nat → UInt8) : Int32 :=
  .ofInt ((digit 0).toNat + 256 * (digit 1).toNat + 256 ^ 2 *
    (digit 2).toNat + 256 ^ 3 * (digit 3).toNat)

theorem toNat_digit (v : Int32) (k : Nat) :
    ((digit v k).toNat : Int) = v.toInt / 256 ^ k % 256 := by
  rw [digit, UInt8.ofInt, UInt8.toNat_ofNat']
  omega

/-- The bits of a word, as a number that is not negative. -/
theorem toNat_toUInt32 (v : Int32) : (v.toUInt32.toNat : Int) = v.toInt % 2 ^ 32 := by
  have hbits : v.toInt = (v.toUInt32.toNat : Int).bmod (2 ^ 32) := v.toBitVec.toInt_eq_toNat_bmod
  have hlt : v.toUInt32.toNat < 2 ^ 32 := v.toUInt32.toNat_lt
  rw [Int.bmod_def] at hbits
  omega

/-- The bytes of a word are its digits. -/
theorem byte_eq_digit (v : Int32) {k : Nat} (hk : k < 4) : byte v k = digit v k := by
  have hbits := toNat_toUInt32 v
  -- the distance of the shift is below 32, so none of it is lost
  have hshift : (8 * k).toUInt32.toNat % 32 = 8 * k := by
    rw [Nat.toUInt32, UInt32.toNat_ofNat']
    omega
  apply UInt8.toNat_inj.1
  apply Int.ofNat_inj.1
  rw [toNat_digit, byte, UInt32.toNat_toUInt8, UInt32.toNat_shiftRight, hshift,
    Nat.shiftRight_eq_div_pow]
  obtain rfl | rfl | rfl | rfl : k = 0 ∨ k = 1 ∨ k = 2 ∨ k = 3 := by omega
  all_goals omega

theorem digit_ofDigits (d : Nat → UInt8) {k : Nat} (hk : k < 4) : digit (ofDigits d) k = d k := by
  have hsize : Int32.size = 2 ^ 32 := rfl
  have h0 := (d 0).toNat_lt
  have h1 := (d 1).toNat_lt
  have h2 := (d 2).toNat_lt
  have h3 := (d 3).toNat_lt
  apply UInt8.toNat_inj.1
  apply Int.ofNat_inj.1
  rw [toNat_digit, ofDigits, Int32.toInt_ofInt, hsize, Int.bmod_def]
  obtain rfl | rfl | rfl | rfl : k = 0 ∨ k = 1 ∨ k = 2 ∨ k = 3 := by omega
  all_goals omega

/-- The word that bytes make up is the one with these digits. -/
theorem ofBytes_eq_ofDigits (d : Nat → UInt8) : ofBytes (d 0) (d 1) (d 2) (d 3) = ofDigits d := by
  have hdigit {k : Nat} (hk : k < 4) : byte (ofDigits d) k = d k := by
    rw [byte_eq_digit _ hk, digit_ofDigits d hk]
  rw [← ofBytes_bytes (ofDigits d), hdigit (k := 0) (by omega), hdigit (k := 1) (by omega),
    hdigit (k := 2) (by omega), hdigit (k := 3) (by omega)]

end Word

namespace Heap

open History

/-! ## Allocation, reading and writing -/

section Functions

variable {h after : Heap} {size start address value : Int32}

/-- A block can be handed out if its size is not negative, it fits into the rest of the heap, and
its address is one; it begins where the part that is in use ends. -/
theorem allocate_eq_ok_iff :
    h.allocate size = .ok (start, after) ↔
      (0 ≤ size.toInt ∧ h.used + size.toInt ≤ h.capacity ∧ h.used ≤ Int32.maxValue.toInt) ∧
        start = .ofNat h.used ∧ after = { h with used := h.used + size.toInt.toNat } := by
  have hmax : Int32.maxValue.toInt = 2147483647 := rfl
  have hbound : 1 <<< 31 = 2147483648 := rfl
  unfold allocate
  by_cases hsize : 0 ≤ size.toInt
  · have hn : Word.toNat? size = some size.toInt.toNat := if_pos hsize
    rw [hn, hmax]
    dsimp only
    -- the bound on addresses only matters where the heap is larger than all of them
    split
    · next hfull =>
      refine ⟨nofun, fun h => ?_⟩
      omega
    · next hfits =>
      split
      · next hstart =>
        refine ⟨fun h => ?_, ?_⟩
        · cases h
          exact ⟨by omega, rfl, rfl⟩
        · rintro ⟨-, rfl, rfl⟩
          rfl
      · next hstart =>
        refine ⟨nofun, fun h => ?_⟩
        omega
  · have hn : Word.toNat? size = none := if_neg hsize
    rw [hn]
    exact ⟨nofun, fun h => absurd h.1.1 hsize⟩

/-- Of the bytes after four of them were stored, these are the digits of the word, and the others
are as they were. -/
theorem byte_store (h : Heap) (a : Nat) (value : Int32) (b : Nat) :
    let store (bytes : Std.TreeMap Nat UInt8) (k : Nat) := bytes.insert (a + k) (Word.byte value k)
    byte { h with bytes := (List.range Word.size).foldl store h.bytes } b =
      if a ≤ b ∧ b < a + 4 then Word.digit value (b - a) else h.byte b := by
  simp only [byte, Word.size, List.range_succ, List.range_zero, List.nil_append,
    List.cons_append, List.foldl_cons, List.foldl_nil, Std.TreeMap.getD_insert, Nat.compare_eq_eq]
  by_cases hb : a ≤ b ∧ b < a + 4
  · obtain ⟨k, rfl⟩ := Nat.exists_eq_add_of_le hb.1
    have hk : k < 4 := by omega
    rw [if_pos hb, Nat.add_sub_cancel_left, ← Word.byte_eq_digit value hk]
    obtain rfl | rfl | rfl | rfl : k = 0 ∨ k = 1 ∨ k = 2 ∨ k = 3 := by omega
    all_goals simp
  · rw [if_neg hb, if_neg (by omega), if_neg (by omega), if_neg (by omega), if_neg (by omega)]

/-- The digits of a value are put at the four addresses from one on, and nothing else is
different. -/
structure Replaced (h : Heap) (address value : Int32) (after : Heap) : Prop where
  capacity : after.capacity = h.capacity
  used : after.used = h.used
  byte : ∀ b : Nat, after.byte b = if address.toInt ≤ b ∧ b < address.toInt + 4 then
    Word.digit value (b - address.toInt.toNat) else h.byte b

theorem replaced_of_write (hwrite : h.write address value = .ok after) :
    h.Replaced address value after := by
  rw [write, wordStart?_eq] at hwrite
  by_cases hinside : 0 ≤ address.toInt ∧ address.toInt + 4 ≤ h.capacity
  · rw [if_pos hinside] at hwrite
    cases hwrite
    refine ⟨rfl, rfl, fun b => ?_⟩
    have hposition : (address.toInt.toNat ≤ b ∧ b < address.toInt.toNat + 4) ↔
        (address.toInt ≤ b ∧ b < address.toInt + 4) := by omega
    have hbytes := byte_store h address.toInt.toNat value b
    simp only [hposition] at hbytes
    exact hbytes
  · rw [if_neg hinside] at hwrite
    cases hwrite

theorem read_eq (h : Heap) (address : Int32) :
    h.read address = if 0 ≤ address.toInt ∧ address.toInt + 4 ≤ h.capacity then
      .ok (Word.ofDigits fun k => h.byte (address.toInt.toNat + k))
        else .error (.invalidHeapAccess address) := by
  split
  · next hinside =>
    rw [read_of_wordStart? (by rw [wordStart?_eq, if_pos hinside]), ← Word.ofBytes_eq_ofDigits]
    rfl
  · next houtside => exact read_of_wordStart?_none (by rw [wordStart?_eq, if_neg houtside])

end Functions

/-! ## Operations -/

/-- What can be asked of a heap. -/
inductive Operation where
  | allocate (size : Int32)
  | free (address : Int32)
  | read (address : Int32)
  | write (address value : Int32)

/-- Whether an operation requests a block. -/
def Operation.isRequest : Operation → Bool
  | .allocate _ => true
  | .free _ | .read _ | .write _ _ => false

/-- Performs an operation. The answer to a request is the address of the block, and the answer to a
read the word. -/
def perform : Operation → Heap → Except MemoryFault (Option Int32 × Heap)
  | .allocate size, h => (h.allocate size).map fun (start, after) => (some start, after)
  | .free address, h => .ok (none, h.free address)
  | .read address, h => (h.read address).map fun word => (some word, h)
  | .write address value, h => (h.write address value).map fun after => (none, after)

/-- An operation with its answer. -/
abbrev Entry := Operation × Except MemoryFault (Option Int32)

variable {op : Operation} {reply : Option Int32} {h h' after : Heap}

/-- What an operation that succeeds answers and leads to. -/
inductive Step (h : Heap) : Operation → Option Int32 → Heap → Prop
  | allocated {size start : Int32} {after : Heap} : h.allocate size = .ok (start, after) →
      Step h (.allocate size) (some start) after
  | freed (address : Int32) : Step h (.free address) none h
  | found {address word : Int32} : h.read address = .ok word → Step h (.read address) (some word) h
  | written {address value : Int32} {after : Heap} : h.write address value = .ok after →
      Step h (.write address value) none after

theorem step (h : Heap) (hperform : perform op h = .ok (reply, after)) : Step h op reply after := by
  cases op with
  | allocate size =>
    obtain ⟨⟨start, after⟩, hallocate, heq⟩ := exists_of_map_eq_ok hperform
    cases heq
    exact .allocated hallocate
  | free address =>
    cases hperform
    exact .freed address
  | read address =>
    obtain ⟨word, hread, heq⟩ := exists_of_map_eq_ok hperform
    cases heq
    exact .found hread
  | write address value =>
    obtain ⟨after, hwrite, heq⟩ := exists_of_map_eq_ok hperform
    cases heq
    exact .written hwrite

theorem Step.capacity_eq (hstep : Step h op reply after) : after.capacity = h.capacity := by
  cases hstep with
  | allocated hallocate =>
    obtain ⟨n, rfl⟩ := allocate_ok hallocate
    rfl
  | written hwrite => exact (replaced_of_write hwrite).capacity
  | freed _ | found _ => rfl

theorem capacity_after (op : Operation) (h : Heap) :
    (History.after perform op h).capacity = h.capacity := by
  cases hperform : perform op h with
  | error fault => rw [after_of_error hperform]
  | ok result => rw [after_of_ok hperform, (step h hperform).capacity_eq]

theorem capacity_run (ops : List Operation) (h : Heap) :
    (run perform ops h).capacity = h.capacity :=
  run_induction (P := fun _ (t : Heap) => t.capacity = h.capacity) rfl
    (fun ht hperform => (step _ hperform).capacity_eq.trans ht) (fun ht _ => ht) ops

/-! ## Blocks -/

/-- A block that was handed out: its address and the size that was requested. -/
structure Block where
  start : Int32
  size : Int32

/-- The block has this address in it. -/
def Block.Has (block : Block) (address : Int) : Prop :=
  block.start.toInt ≤ address ∧ address < block.start.toInt + block.size.toInt

/-- The size of several blocks together. -/
def totalSize : List Block → Int
  | [] => 0
  | block :: rest => block.size.toInt + totalSize rest

/-- The block that a request was answered with. -/
def block? : Operation → Option Int32 → Option Block
  | .allocate size, some start => some ⟨start, size⟩
  | _, _ => none

/-- The blocks that were handed out, the first one first. -/
def blocks (entries : List Entry) : List Block := records block? entries

/-- The requests among the operations, with their answers. -/
def requests (entries : List Entry) : List Entry :=
  entries.filter fun entry => entry.1.isRequest

/-- The blocks lie in the heap one behind the other, from one address to another. -/
inductive Consecutive (capacity : Nat) : Int → List Block → Int → Prop
  | nil (start : Int) : Consecutive capacity start [] start
  | cons {block : Block} {rest : List Block} {final : Int} : 0 ≤ block.size.toInt →
      block.start.toInt + block.size.toInt ≤ capacity →
      Consecutive capacity (block.start.toInt + block.size.toInt) rest final →
      Consecutive capacity block.start.toInt (block :: rest) final

namespace Consecutive

variable {capacity : Nat} {first final : Int} {made : List Block}

theorem first_le (h : Consecutive capacity first made final) :
    ∀ block ∈ made, first ≤ block.start.toInt := by
  induction h with
  | nil => nofun
  | cons hsize _ _ ih =>
    intro block hmem
    obtain rfl | hmem := List.mem_cons.1 hmem
    · exact Int.le_refl _
    · have hle := ih block hmem
      omega

theorem inside (h : Consecutive capacity first made final) :
    ∀ block ∈ made, 0 ≤ block.size.toInt ∧ block.start.toInt + block.size.toInt ≤ capacity := by
  induction h with
  | nil => nofun
  | cons hsize hfits _ ih => exact List.forall_mem_cons.2 ⟨⟨hsize, hfits⟩, ih⟩

theorem start_eq (h : Consecutive capacity first made final)
    {earlier later : List Block} {block : Block}
    (hmade : made = earlier ++ block :: later) : block.start.toInt = first + totalSize earlier := by
  induction h generalizing earlier with
  | nil => simp at hmade
  | @cons b rest final _ _ _ ih =>
    cases earlier with
    | nil =>
      cases hmade
      simp [totalSize]
    | cons b' earlier =>
      obtain ⟨rfl, hrest⟩ := List.cons.inj hmade
      rw [ih hrest]
      simp [totalSize, Int.add_assoc]

theorem final_eq (h : Consecutive capacity first made final) : final = first + totalSize made := by
  induction h with
  | nil => simp [totalSize]
  | cons _ _ _ ih =>
    rw [ih]
    simp [totalSize, Int.add_assoc]

/-- No address lies in two of the blocks. -/
theorem pairwise (h : Consecutive capacity first made final) :
    made.Pairwise fun b c => ∀ address, ¬ (b.Has address ∧ c.Has address) := by
  induction h with
  | nil => exact .nil
  | @cons b rest final _ _ hrest ih =>
    refine .cons (fun c hc address haddress => ?_) ih
    have hle := hrest.first_le c hc
    obtain ⟨⟨-, hbefore⟩, hfrom, -⟩ := haddress
    omega

end Consecutive

/-! ### Runs -/

/-- How much is in use before and after an operation: a block that is handed out lies behind the
part in use, which then ends where the block does; without one, the part stays as it is. -/
def Extended (h : Heap) : Option Block → Heap → Prop
  | some block, after => block.start.toInt = h.used ∧ 0 ≤ block.size.toInt ∧
      block.start.toInt + block.size.toInt ≤ h.capacity ∧
        after.used = block.start.toInt + block.size.toInt
  | none, after => after.used = h.used

theorem Step.extended (hstep : Step h op reply after) : h.Extended (block? op reply) after := by
  cases hstep with
  | @allocated size start _ hallocate =>
    have hmax : Int32.maxValue.toInt = 2147483647 := rfl
    obtain ⟨⟨hsize, hfits, haddress⟩, rfl, rfl⟩ := allocate_eq_ok_iff.1 hallocate
    have hstart : (Int32.ofNat h.used).toInt = h.used := Int32.toInt_ofNat_of_lt (by omega)
    dsimp only [block?, Extended]
    rw [hstart]
    refine ⟨rfl, hsize, hfits, ?_⟩
    omega
  | written hwrite => exact used_write hwrite
  | freed _ | found _ => rfl

theorem extended_after (op : Operation) (h : Heap) :
    h.Extended (recorded? block? (op, answer perform op h)) (History.after perform op h) := by
  cases hperform : perform op h with
  | error fault =>
    rw [answer_of_error hperform, after_of_error hperform]
    rfl
  | ok result =>
    rw [answer_of_ok hperform, after_of_ok hperform]
    exact (step h hperform).extended

/-- In every run from every heap, the blocks lie one behind the other from the part in use on. -/
theorem consecutive_run (ops : List Operation) (h : Heap) :
    Consecutive h.capacity h.used (blocks (log perform ops h)) (run perform ops h).used := by
  induction ops generalizing h with
  | nil => exact .nil h.used
  | cons op ops ih =>
    have hextended := extended_after op h
    have hrest := ih (History.after perform op h)
    rw [capacity_after] at hrest
    unfold blocks records at hrest ⊢
    rw [log, List.filterMap_cons, run, List.foldl_cons]
    -- either the other blocks begin where this one would have, or this one stands in front of them
    cases hblock : recorded? block? (op, answer perform op h) with
    | none =>
      have hused : (History.after perform op h).used = h.used := by rwa [hblock] at hextended
      dsimp only
      rwa [hused] at hrest
    | some block =>
      rw [hblock] at hextended
      obtain ⟨hstart, hsize, hfits, hafter⟩ := hextended
      dsimp only
      rw [hafter] at hrest
      rw [← hstart]
      exact .cons hsize hfits hrest

/-! ### Other operations between requests -/

/-- The heaps have the same size, and as much of it is in use. -/
def SameSpace (h h' : Heap) : Prop := h'.capacity = h.capacity ∧ h'.used = h.used

theorem answer_allocate_congr (hsame : h.SameSpace h') (size : Int32) :
    answer perform (.allocate size) h' = answer perform (.allocate size) h := by
  obtain ⟨capacity, used, bytes⟩ := h
  obtain ⟨capacity', used', bytes'⟩ := h'
  obtain ⟨rfl, rfl⟩ : capacity' = capacity ∧ used' = used := hsame
  dsimp only [answer, perform, allocate]
  cases Word.toNat? size with
  | none => rfl
  | some n =>
    dsimp only
    split
    · rfl
    · split <;> rfl

theorem recorded_block?_of_not_request (hop : op.isRequest = false)
    (reply : Except MemoryFault (Option Int32)) :
    recorded? block? (op, reply) = none := by
  cases op with
  | allocate size => cases hop
  | free _ | read _ | write _ _ => cases reply <;> rfl

theorem recorded_block?_congr (hsame : h.SameSpace h') (op : Operation) :
    recorded? block? (op, answer perform op h') = recorded? block? (op, answer perform op h) := by
  cases op with
  | allocate size => rw [answer_allocate_congr hsame]
  | free _ => rfl
  | read _ | write _ _ =>
    rw [recorded_block?_of_not_request rfl, recorded_block?_of_not_request rfl]

theorem sameSpace_step (hsame : h.SameSpace h') (op : Operation) :
    (History.after perform op h).SameSpace (History.after perform op h') := by
  refine ⟨?_, ?_⟩
  · rw [capacity_after, capacity_after, hsame.1]
  · have hextended := extended_after op h
    have hextended' := extended_after op h'
    rw [recorded_block?_congr hsame] at hextended'
    cases hblock : recorded? block? (op, answer perform op h) with
    | none =>
      rw [hblock] at hextended hextended'
      exact hextended'.trans (hsame.2.trans hextended.symm)
    | some block =>
      rw [hblock] at hextended hextended'
      exact Int.ofNat_inj.1 (hextended'.2.2.2.trans hextended.2.2.2.symm)

/-- Requests are answered alike where the heaps have the same size and as much of it is in use. -/
theorem requests_log_congr (hsame : h.SameSpace h') (ops : List Operation) :
    requests (log perform ops h') = requests (log perform ops h) := by
  induction ops generalizing h h' with
  | nil => rfl
  | cons op ops ih =>
    have hrest := ih (sameSpace_step hsame op)
    unfold requests at hrest ⊢
    rw [log, log, List.filter_cons, List.filter_cons, hrest]
    cases op with
    | allocate size => rw [answer_allocate_congr hsame]
    | free _ | read _ | write _ _ => rfl

/-- An operation that hands out no block leaves as much in use as there was. -/
theorem sameSpace_after (hnone : recorded? block? (op, answer perform op h) = none) :
    h.SameSpace (History.after perform op h) := by
  have hextended := extended_after op h
  rw [hnone] at hextended
  exact ⟨capacity_after op h, hextended⟩

/-- Blocks never overlap, and none is handed out again. After any operations on a fresh heap, every
block begins where the sizes of all earlier ones add up to, no address lies in two blocks, and all
of them lie in the heap. The next request is granted just if it is not negative, the heap has room
for it behind the part in use, which is as large as all blocks together, and this part ends at a
number of 32 bits. An operation that hands out no block (a request that fails, a block that is given
back, a read or a write) changes no later answer to a request. -/
theorem blocks_never_overlap (capacity : Nat) (ops : List Operation) :
    let heap := run perform ops (empty capacity)
    let made := blocks (log perform ops (empty capacity))
    (∀ earlier block later, made = earlier ++ block :: later →
      block.start.toInt = totalSize earlier) ∧
    made.Pairwise (fun b c => ∀ address, ¬ (b.Has address ∧ c.Has address)) ∧
    (∀ block ∈ made, 0 ≤ block.start.toInt ∧ 0 ≤ block.size.toInt ∧
      block.start.toInt + block.size.toInt ≤ capacity) ∧
    heap.used = totalSize made ∧
    (∀ size, (∃ start after, heap.allocate size = .ok (start, after)) ↔
      0 ≤ size.toInt ∧ heap.used + size.toInt ≤ capacity ∧ heap.used ≤ Int32.maxValue.toInt) ∧
    ∀ op later, recorded? block? (op, answer perform op heap) = none →
      requests (log perform later (History.after perform op heap)) =
        requests (log perform later heap) := by
  intro heap made
  have hcapacity : heap.capacity = capacity := capacity_run ops (empty capacity)
  have hmade : Consecutive capacity 0 made heap.used := consecutive_run ops (empty capacity)
  -- each block begins where those before it end
  refine ⟨fun earlier block later hsplit => ?_, hmade.pairwise, fun block hmem => ?_,
    ?_, fun size => ?_, ?_⟩
  · rw [hmade.start_eq hsplit, Int.zero_add]
  · exact ⟨hmade.first_le block hmem, hmade.inside block hmem⟩
  · rw [hmade.final_eq, Int.zero_add]
  · rw [← hcapacity]
    constructor
    · rintro ⟨start, after, hallocate⟩
      exact (allocate_eq_ok_iff.1 hallocate).1
    · exact fun hfits => ⟨_, _, allocate_eq_ok_iff.2 ⟨hfits, rfl, rfl⟩⟩
  · exact fun op later hnone => requests_log_congr (sameSpace_after hnone) later

/-! ## Bytes -/

/-- The byte that a write stores at an address. -/
def storedByte? (b : Nat) : Operation → Option Int32 → Option UInt8
  | .write address value, _ =>
    if address.toInt ≤ b ∧
      b < address.toInt + 4 then some (Word.digit value (b - address.toInt.toNat)) else none
  | _, _ => none

/-- The byte that was stored latest at an address; zero if there was none. -/
def latestByte (entries : List Entry) (b : Nat) : UInt8 := latest (storedByte? b) 0 entries

theorem Step.byte_eq (hstep : Step h op reply after) (b : Nat) :
    after.byte b = (storedByte? b op reply).getD (h.byte b) := by
  cases hstep with
  | allocated hallocate =>
    obtain ⟨n, rfl⟩ := allocate_ok hallocate
    rfl
  | freed _ | found _ => rfl
  | written hwrite =>
    rw [(replaced_of_write hwrite).byte b, storedByte?]
    split <;> rfl

/-- After any operations on a fresh heap, every byte is the one that was stored latest. -/
theorem byte_run (capacity : Nat) (ops : List Operation) (b : Nat) :
    (run perform ops (empty capacity)).byte b =
      latestByte (log perform ops (empty capacity)) b := by
  have hempty : (empty capacity).byte b = 0 := Std.TreeMap.getD_emptyc
  have hview :=
    view_run (fun h => h.byte b) (storedByte? b) (fun hperform => (step _ hperform).byte_eq b) ops
    (empty capacity)
  rwa [hempty] at hview

/-- The word at an address is neither read nor written, and the heap stays as it is. -/
def Refuses (h : Heap) (address : Int32) : Prop :=
  h.read address = .error (.invalidHeapAccess address) ∧
    ∀ value, h.write address value = .error (.invalidHeapAccess address) ∧
      History.after perform (.write address value) h = h

/-- Memory is a map from addresses to bytes. After any operations on a fresh heap, a word is read
just if its four bytes lie in the heap, and then its digits in base 256 are the bytes that were
stored latest at the four addresses, by whatever writes these were. A word is written under the same
condition. This puts its digits at the four addresses and changes nothing else; where it fails, it
changes nothing. -/
theorem words_of_latest_bytes (capacity : Nat) (ops : List Operation) :
    let heap := run perform ops (empty capacity)
    let entries := log perform ops (empty capacity)
    ∀ address : Int32, if 0 ≤ address.toInt ∧ address.toInt + 4 ≤ capacity then
        heap.read address = .ok (Word.ofDigits fun k =>
          latestByte entries (address.toInt.toNat + k)) ∧
        ∀ value, ∃ after, heap.write address value = .ok after ∧ heap.Replaced address value after
      else heap.Refuses address := by
  intro heap entries address
  have hcapacity : heap.capacity = capacity := capacity_run ops (empty capacity)
  -- both reading and writing look for the word at the address first
  have hread := read_eq heap address
  rw [hcapacity] at hread
  split
  · next hinside =>
    rw [if_pos hinside] at hread
    refine ⟨?_, fun value => ?_⟩
    · rw [hread]
      simp only [heap, entries, byte_run]
    · have hstart : heap.wordStart? address = some address.toInt.toNat := by
        rw [wordStart?_eq, hcapacity, if_pos hinside]
      obtain ⟨after, hwrite, -⟩ := write_of_wordStart? hstart value
      exact ⟨after, hwrite, replaced_of_write hwrite⟩
  · next houtside =>
    rw [if_neg houtside] at hread
    refine ⟨hread, fun value => ?_⟩
    have hwrite : heap.write address value = .error _ := write_error_iff.2 hread
    exact ⟨hwrite, after_of_error (by rw [perform, hwrite]; rfl)⟩

/-- Two bytes of the first word are still there after another one was written across its end. -/
example : (run perform [.write 0 (-1), .write 2 0] (empty 6)).read 0 = .ok 65535 := rfl

end Heap

end MiniC
