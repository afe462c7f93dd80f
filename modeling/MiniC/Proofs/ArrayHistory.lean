import Mathlib.Algebra.Group.Nat.Defs
import MiniC.Proofs.MemoryChanges
import MiniC.Proofs.MemoryHistory
import MiniC.Proofs.StoredValues

/-!
# Histories of the array store

An array store is used by making arrays and by reading and writing elements
(`ArrayStore.Operation`). The arrays that were made have ids of their own as long as there are ids
left, and stay as long as they are (`ArrayStore.made_run`). So the store is a map from ids and
indices to values: an element is found just if its array was made and is long enough, and it is what
was stored latest under this id and index (`ArrayStore.elements_of_history`).
-/

set_option autoImplicit false

namespace MiniC

namespace ArrayStore

open History

/-! ## Reading and writing -/

section Functions

variable {store after : ArrayStore} {array : StoredArray} {id id' index index' value : Int32}
    {fault : MemoryFault}
  {k : Nat}

theorem length?_of_array (harray : store.array id = .ok array) :
    store.length? id = some array.length := by
  obtain ⟨k, hk, hfound⟩ := array_eq_ok_iff.1 harray
  rw [length?, Word.toNat?_eq_some_iff.2 hk, Option.bind_some, lengths, Array.getElem?_map, hfound]
  rfl

theorem scopeDepth_of_array (harray : store.array id = .ok array) :
    store.scopeDepth id = .ok array.scopeDepth := by
  rw [scopeDepth, harray]
  rfl

theorem get_congr (harray : after.array id = store.array id) (index : Int32) :
    after.get id index = store.get id index := by
  rw [get, get, harray]

theorem array_create (store : ArrayStore) (length scopeDepth : Nat) (id : Int32) :
    (store.create length scopeDepth).2.array id =
      if id.toInt = store.arrays.size then .ok ⟨length, scopeDepth, ∅⟩ else store.array id := by
  split
  · next hnew => exact array_eq_ok_iff.2 ⟨_, hnew, Array.getElem?_push_size⟩
  · next hold =>
    unfold ArrayStore.array
    cases hk : Word.toNat? id with
    | none => rfl
    | some k =>
      have hne : k ≠ store.arrays.size := by
        rintro rfl
        exact hold (Word.toNat?_eq_some_iff.1 hk)
      simp only [Option.bind_some, create, Array.getElem?_push, if_neg hne]

/-- After an element was stored it is found at its place, and the others are as they were. -/
theorem get_set (hset : store.set id index value = .ok after) (id' index' : Int32) :
    after.get id' index' = if id' = id ∧ index' = index then .ok value
      else store.get id' index' := by
  split
  · next hplace =>
    obtain ⟨rfl, rfl⟩ := hplace
    exact get_of_set hset
  · next hother =>
    obtain ⟨array, harray, hinside, hafter⟩ := array_of_set hset
    by_cases hid : id' = id
    · subst hid
      have hne : index' ≠ index := fun heq => hother ⟨rfl, heq⟩
      have hafter' := hafter id'
      rw [if_pos rfl] at hafter'
      rw [get_of_array hafter', get_of_array harray]
      -- the array is as long as before, and another element of it was replaced
      by_cases hinside' : 0 ≤ index'.toInt ∧ index'.toInt < array.length
      · have hreplaced : index.toInt.toNat ≠ index'.toInt.toNat := by
          intro heq
          refine hne (Int32.toInt_inj.1 ?_)
          omega
        rw [if_pos hinside', if_pos hinside', Std.TreeMap.getD_insert, if_neg]
        rwa [Nat.compare_eq_eq]
      · rw [if_neg hinside', if_neg hinside']
    · refine get_congr ?_ index'
      rw [hafter, if_neg hid]

theorem scopeDepth_set (hset : store.set id index value = .ok after) (id' : Int32) :
    after.scopeDepth id' = store.scopeDepth id' := by
  obtain ⟨array, harray, -, hafter⟩ := array_of_set hset
  unfold scopeDepth
  rw [hafter]
  split
  · next heq =>
    rw [heq, harray]
    rfl
  · rfl

theorem length?_set (hset : store.set id index value = .ok after) (id' : Int32) :
    after.length? id' = store.length? id' := by
  rw [length?, length?, lengths_set hset]

end Functions

/-! ## Operations -/

/-- What can be asked of an array store. -/
inductive Operation where
  | create (length scopeDepth : Nat)
  | get (id index : Int32)
  | set (id index value : Int32)

/-- The operation asks for a new array. -/
def Operation.isCreate : Operation → Bool
  | .create _ _ => true
  | .get _ _ | .set _ _ _ => false

/-- Performs an operation. The answer is the id of a new array or the element that is found. -/
def perform : Operation → ArrayStore → Except MemoryFault (Option Int32 × ArrayStore)
  | .create length scopeDepth, store =>
    .ok (some (store.create length scopeDepth).1, (store.create length scopeDepth).2)
  | .get id index, store => (store.get id index).map fun value => (some value, store)
  | .set id index value, store => (store.set id index value).map fun after => (none, after)

/-- An operation with its answer. -/
abbrev Entry := Operation × Except MemoryFault (Option Int32)

variable {op : Operation} {reply : Option Int32} {store after : ArrayStore}

/-- What an operation that succeeds answers and leads to. -/
inductive Step (store : ArrayStore) : Operation → Option Int32 → ArrayStore → Prop
  | created (length scopeDepth : Nat) : Step store (.create length scopeDepth)
      (some (store.create length scopeDepth).1) (store.create length scopeDepth).2
  | found {id index value : Int32} :
    store.get id index = .ok value → Step store (.get id index) (some value) store
  | stored {id index value : Int32} {after : ArrayStore} : store.set id index value = .ok after →
      Step store (.set id index value) none after

theorem step (store : ArrayStore) (hperform : perform op store = .ok (reply, after)) :
    Step store op reply after := by
  cases op with
  | create length scopeDepth =>
    cases hperform
    exact .created length scopeDepth
  | get id index =>
    obtain ⟨value, hget, heq⟩ := exists_of_map_eq_ok hperform
    cases heq
    exact .found hget
  | set id index value =>
    obtain ⟨after, hset, heq⟩ := exists_of_map_eq_ok hperform
    cases heq
    exact .stored hset

/-! ## Arrays that were made -/

/-- An array that was made: its id, its length, and the depth of calls at which it was made. -/
structure Made where
  id : Int32
  length : Nat
  scopeDepth : Nat
  deriving DecidableEq

/-- The array that an operation has made. -/
def made? : Operation → Option Int32 → Option Made
  | .create length scopeDepth, some id => some ⟨id, length, scopeDepth⟩
  | _, _ => none

/-- The arrays that were made, the first one first. -/
def made (entries : List Entry) : List Made := records made? entries

/-- All arrays of the store with their ids. -/
def catalogue (store : ArrayStore) : List Made :=
  store.shapes.mapIdx fun k shape => ⟨.ofNat k, shape.1, shape.2⟩

theorem Step.catalogue_eq (hstep : Step store op reply after) :
    after.catalogue = store.catalogue ++ (made? op reply).toList := by
  cases hstep with
  | created length scopeDepth =>
    simp [catalogue, shapes, create, made?, StoredArray.shape, List.mapIdx_concat]
  | found _ => simp [made?]
  | stored hset =>
    rw [catalogue, catalogue, Run.shapes_of_set hset]
    simp [made?]

/-- After any operations on the store without arrays, its arrays are those that were made. -/
theorem made_run (ops : List Operation) :
    made (log perform ops empty) = (run perform ops empty).catalogue := by
  refine run_induction (P := fun entries (store : ArrayStore) => made entries =
    store.catalogue) rfl ?_ ?_ ops
  · intro entries op store reply after hmade hperform
    rw [(step store hperform).catalogue_eq, ← hmade]
    exact records_concat_ok made? entries op reply
  · intro entries op store fault hmade _
    rw [← hmade]
    exact records_concat_error made? entries op fault

/-- An array is made by every operation that makes arrays. -/
theorem length_made (ops : List Operation) (store : ArrayStore) :
    (made (log perform ops store)).length = ops.countP Operation.isCreate := by
  induction ops generalizing store with
  | nil => rfl
  | cons op ops ih =>
    have hrest := ih (History.after perform op store)
    have hmade : (recorded? made? (op, answer perform op store)).isSome = op.isCreate := by
      cases op with
      | create length scopeDepth => rfl
      | get _ _ | set _ _ _ => cases answer perform _ store <;> rfl
    unfold made records at hrest ⊢
    rw [log, List.filterMap_cons, List.countP_cons, ← hrest, ← hmade]
    cases recorded? made? (op, answer perform op store) <;> rfl

theorem mem_catalogue_iff {array : Made} :
    array ∈ store.catalogue ↔ ∃ (k : Nat) (stored : StoredArray), store.arrays[k]? = some stored ∧
      array = ⟨.ofNat k, stored.length, stored.scopeDepth⟩ := by
  unfold catalogue shapes
  rw [List.mem_mapIdx]
  constructor
  · rintro ⟨k, hk, rfl⟩
    rw [List.length_map, Array.length_toList] at hk
    exact ⟨k, store.arrays[k], Array.getElem?_eq_getElem hk, by simp [StoredArray.shape]⟩
  · rintro ⟨k, stored, hfound, rfl⟩
    obtain ⟨hk, rfl⟩ := Array.getElem?_eq_some_iff.1 hfound
    exact ⟨k, by simpa using hk, by simp [StoredArray.shape]⟩

/-- Every array that is found under an id is one of those of the store. -/
theorem mem_catalogue_of_array {id : Int32} {stored : StoredArray}
    (h : store.array id = .ok stored) :
    ⟨id, stored.length, stored.scopeDepth⟩ ∈ store.catalogue := by
  obtain ⟨k, hk, hfound⟩ := array_eq_ok_iff.1 h
  have hid : Int32.ofNat k = id := by rw [← Int32.ofInt_eq_ofNat, ← hk, Int32.ofInt_toInt]
  exact mem_catalogue_iff.2 ⟨k, stored, hfound, by rw [hid]⟩

section Few

variable (hfew : store.catalogue.length < 2 ^ 31)
include hfew

theorem toInt_ofNat_of_lt_length {k : Nat} (hk : k < store.catalogue.length) :
    (Int32.ofNat k).toInt = k :=
  Int32.toInt_ofNat_of_lt (Nat.lt_trans hk hfew)

/-- As long as there are ids left, every array of the store is found under its id. -/
theorem array_of_mem_catalogue {array : Made} (h : array ∈ store.catalogue) :
    ∃ stored, store.array array.id = .ok stored ∧ stored.length = array.length ∧
      stored.scopeDepth = array.scopeDepth := by
  obtain ⟨k, stored, hfound, rfl⟩ := mem_catalogue_iff.1 h
  obtain ⟨hk, -⟩ := Array.getElem?_eq_some_iff.1 hfound
  have hint := toInt_ofNat_of_lt_length hfew (k := k) (by simpa [catalogue, shapes] using hk)
  exact ⟨stored, array_eq_ok_iff.2 ⟨k, hint, hfound⟩, rfl, rfl⟩

/-- As long as there are ids left, no two arrays have the same. -/
theorem nodup_ids : (store.catalogue.map Made.id).Nodup := by
  unfold List.Nodup
  rw [List.pairwise_map, List.pairwise_iff_getElem]
  intro i j hi hj hlt heq
  simp only [catalogue, List.getElem_mapIdx] at heq
  have hint := congrArg Int32.toInt heq
  rw [toInt_ofNat_of_lt_length hfew hi, toInt_ofNat_of_lt_length hfew hj] at hint
  omega

end Few

/-! ## Elements -/

/-- The element at a place; zero where there is none. -/
def element (store : ArrayStore) (id index : Int32) : Int32 :=
  match store.get id index with
  | .ok value => value
  | .error _ => 0

theorem element_of_get {id index value : Int32} (hget : store.get id index = .ok value) :
    store.element id index = value := by
  rw [element, hget]

/-- The value that an operation has stored at a place. -/
def storedElement? (id index : Int32) : Operation → Option Int32 → Option Int32
  | .set id' index' value, _ => if id = id' ∧ index = index' then some value else none
  | _, _ => none

/-- The value that was stored latest at a place; zero if there was none. -/
def latestElement (entries : List Entry) (id index : Int32) : Int32 :=
  latest (storedElement? id index) 0 entries

/-- A new array has zeros as its elements. -/
theorem element_create (store : ArrayStore) (length scopeDepth : Nat) (id index : Int32) :
    (store.create length scopeDepth).2.element id index = store.element id index := by
  have harray := array_create store length scopeDepth id
  unfold element
  split at harray
  · next hnew =>
    have hnone : store.array id = .error (.invalidArray id) := by
      unfold ArrayStore.array
      rw [Word.toNat?_eq_some_iff.2 hnew, Option.bind_some, Array.getElem?_size]
      rfl
    rw [get_of_array harray, get_of_array_error hnone]
    by_cases hinside : 0 ≤ index.toInt ∧ index.toInt < length
    · rw [if_pos hinside]
      exact Std.TreeMap.getD_emptyc
    · rw [if_neg hinside]
  · rw [get_congr harray]

theorem Step.element_eq (hstep : Step store op reply after) (id index : Int32) :
    after.element id index = (storedElement? id index op reply).getD (store.element id index) := by
  cases hstep with
  | created length scopeDepth => exact element_create store length scopeDepth id index
  | found _ => rfl
  | @stored id' index' value _ hset =>
    unfold element
    rw [get_set hset, storedElement?]
    by_cases hplace : id = id' ∧ index = index'
    · rw [if_pos hplace, if_pos hplace]
      rfl
    · rw [if_neg hplace, if_neg hplace]
      rfl

/-- After any operations on the store without arrays, every element is the one that was stored
latest. -/
theorem element_run (ops : List Operation) (id index : Int32) :
    (run perform ops empty).element id index = latestElement (log perform ops empty) id index := by
  have hempty : empty.element id index = 0 := by
    have hnone : empty.array id = .error (.invalidArray id) := by
      unfold ArrayStore.array
      cases Word.toNat? id <;> rfl
    rw [element, get_of_array_error hnone]
  have hview := view_run (fun store => element store id index) (storedElement? id index)
    (fun hperform => (step _ hperform).element_eq id index) ops empty
  rwa [hempty] at hview

/-! ## The store as a map -/

/-- One element is replaced by a value, and nothing else is different. -/
structure Replaced (store : ArrayStore) (id index value : Int32) (after : ArrayStore) : Prop where
  get : ∀ id' index', after.get id' index' = if id' = id ∧ index' = index then .ok value
    else store.get id' index'
  length? : ∀ id', after.length? id' = store.length? id'
  scopeDepth : ∀ id', after.scopeDepth id' = store.scopeDepth id'

/-- An element is neither found nor replaced, both for the same reason, and the store stays as it
is. -/
def Refuses (store : ArrayStore) (id index : Int32) (fault : MemoryFault) : Prop :=
  store.get id index = .error fault ∧
    ∀ value, store.set id index value = .error fault ∧
      History.after perform (.set id index value) store = store

theorem exists_replaced {id index found : Int32}
    (hget : store.get id index = .ok found) (value : Int32) :
    ∃ after, store.set id index value = .ok after ∧ store.Replaced id index value after := by
  cases hset : store.set id index value with
  | error fault =>
    rw [set_error_iff.1 hset] at hget
    cases hget
  | ok after => exact ⟨after, rfl, get_set hset, length?_set hset, scopeDepth_set hset⟩

theorem refuses_of_get {id index : Int32} {fault : MemoryFault}
    (hget : store.get id index = .error fault) :
    store.Refuses id index fault := by
  refine ⟨hget, fun value => ?_⟩
  have hset : store.set id index value = .error fault := set_error_iff.2 hget
  exact ⟨hset, after_of_error (by rw [perform, hset]; rfl)⟩

/-- After operations of which fewer than `2 ^ 31` make arrays, the store is a map from ids and
indices to values. No id is given to two arrays, and arrays keep their lengths and the depths of
calls at which they were made. An element is found just if its array was made and the index is at
least zero and below the length; it is what was stored latest under this id and index, or zero. A
value is stored under the same condition, at this place and nowhere else. Otherwise nothing is
changed, and the reason is that there is no such array, or the index and the length of the array. -/
theorem elements_of_history (ops : List Operation) (hfew : ops.countP Operation.isCreate < 2 ^ 31) :
    let store := run perform ops empty
    let entries := log perform ops empty
    ((made entries).map Made.id).Nodup ∧
    (∀ array ∈ made entries,
      store.length? array.id = some array.length ∧
        store.scopeDepth array.id = .ok array.scopeDepth ∧
      ∀ index : Int32, if 0 ≤ index.toInt ∧ index.toInt < array.length then
          store.get array.id index = .ok (latestElement entries array.id index) ∧
          ∀ value, ∃ after, store.set array.id index value = .ok after ∧
            store.Replaced array.id index value after
        else store.Refuses array.id index (.arrayIndexOutOfBounds index array.length)) ∧
    ∀ id, (∀ array ∈ made entries, array.id ≠ id) →
      ∀ index, store.Refuses id index (.invalidArray id) := by
  intro store entries
  have hmade : made entries = store.catalogue := made_run ops
  have hcount : store.catalogue.length < 2 ^ 31 := by rwa [← hmade, length_made]
  rw [hmade]
  refine ⟨nodup_ids hcount, fun array hmem => ?_, fun id hunknown index => ?_⟩
  · obtain ⟨stored, harray, hlength, hdepth⟩ := array_of_mem_catalogue hcount hmem
    rw [← hlength, ← hdepth]
    refine ⟨length?_of_array harray, scopeDepth_of_array harray, fun index => ?_⟩
    have hget := get_of_array harray index
    split
    · next hinside =>
      rw [if_pos hinside] at hget
      refine ⟨?_, exists_replaced hget⟩
      rw [hget, ← element_of_get hget, element_run]
    · next houtside =>
      rw [if_neg houtside] at hget
      exact refuses_of_get hget
  · cases harray : store.array id with
    -- an array that is found under the id was made with it
    | ok stored => exact absurd rfl (hunknown _ (mem_catalogue_of_array harray))
    | error fault =>
      obtain ⟨rfl, -⟩ := array_error harray
      exact refuses_of_get (get_of_array_error harray index)

/-- Elements of two arrays are stored in turns, one of them twice and one beyond the end; an array
without elements lies between the two. -/
theorem elements_of_history_in_turns :
    let ops : List Operation :=
      [.create 2 1, .set 0 1 7, .create 0 1, .create 3 2, .set 2 1 9, .set 0 2 5, .set 0 1 8]
    let store := run perform ops empty
    ops.countP Operation.isCreate < 2 ^ 31 ∧ store.get 0 1 = .ok 8 ∧ store.get 2 1 = .ok 9 ∧
      store.get 2 0 = .ok 0 ∧
      store.set 1 0 4 = .error (.arrayIndexOutOfBounds 0 0) ∧
        store.set 3 0 4 = .error (.invalidArray 3) := by
  intro ops store
  have hfew : ops.countP Operation.isCreate < 2 ^ 31 := by decide
  have hmade : made (log perform ops empty) = [⟨0, 2, 1⟩, ⟨1, 0, 1⟩, ⟨2, 3, 2⟩] := by decide +kernel
  obtain ⟨-, hfound, hunknown⟩ := elements_of_history ops hfew
  rw [hmade] at hfound hunknown
  refine ⟨hfew, ?_, ?_, ?_, ?_, ?_⟩
  · exact ((hfound ⟨0, 2, 1⟩ (by decide)).2.2 1).1
  · exact ((hfound ⟨2, 3, 2⟩ (by decide)).2.2 1).1
  · exact ((hfound ⟨2, 3, 2⟩ (by decide)).2.2 0).1
  · exact (((hfound ⟨1, 0, 1⟩ (by decide)).2.2 0).2 4).1
  · exact ((hunknown 3 (by decide) 0).2 4).1

end ArrayStore

end MiniC
