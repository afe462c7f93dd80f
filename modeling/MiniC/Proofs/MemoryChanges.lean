import MiniC.Proofs.CutRuns
import MiniC.Proofs.OperationContract

/-!
# What operations change in memory

Memory outside the call stack has three parts that can change: the elements of the arrays that there
are, the bytes of the heap, and how much of the heap is handed out (`MemoryPart`). The form of an
expression says which of them it may change, if any (`Image.changes?`): an assignment the one that
its target lies in, and a call of the function that hands out memory the last one. `State.ChangedIn
part` relates a state to a later one between which memory changed in that part only. Every operation
stays within the part of its expression, and one that halts has changed nothing at all
(`Run.changesIn_conclude`, `Run.changesIn_enterCall`).
-/

set_option autoImplicit false

namespace MiniC

/-! ## Parts of memory -/

/-- A part of memory that can change. -/
inductive MemoryPart where
  /-- The elements of arrays. -/
  | elements
  /-- The bytes of the heap. -/
  | bytes
  /-- How much of the heap is handed out. -/
  | allocation
  deriving DecidableEq

namespace Image

variable (image : Image)

/-- The part of memory that an element lies in: the heap if the base is a pointer, an array
otherwise. -/
def elementPart (base : ExprId) : MemoryPart :=
  if (image.typeOf base).isPointer then .bytes else .elements

/-- The part of memory that a target without parentheses around it lies in; a variable lies in
none. -/
def targetPart? (target : ExprId) : Option MemoryPart :=
  match (image.program.expr target).kind with
  | .unary .deref _ => some .bytes
  | .subscript base _ => some (image.elementPart base)
  | _ => none

/-- The part of memory that an expression may change once its operands have values. -/
def changes? (e : ExprId) : Option MemoryPart :=
  match (image.program.expr e).kind with
  | .binary .assign lhs _ => image.targetPart? (image.program.stripParens lhs)
  | .call callee _ => if image.builtin? callee = some .malloc then some .allocation else none
  | _ => none

variable {image} {e : ExprId}

/-- An assignment may change the part that its target lies in, whatever parentheses are around it.
-/
theorem changes?_of_assign {lhs rhs : ExprId}
    (hk : (image.program.expr e).kind = .binary .assign lhs rhs) :
    image.changes? e = image.targetPart? (image.program.stripParens lhs) := by
  rw [changes?, hk]

/-- Of all calls only those of `MALLOC` change memory themselves. -/
theorem changes?_of_call {callee : DeclId} {args : List ExprId}
    (hk : (image.program.expr e).kind = .call callee args) :
    image.changes? e = if image.builtin? callee = some .malloc then some .allocation else none := by
  rw [changes?, hk]

end Image

/-! ## Changes -/

/-- What never changes in an array: its length and the depth of calls at which it was made. -/
def StoredArray.shape (array : StoredArray) : Nat × Nat := (array.length, array.scopeDepth)

/-- The shapes of all arrays, in the order of their ids. -/
def ArrayStore.shapes (store : ArrayStore) : List (Nat × Nat) :=
  store.arrays.toList.map StoredArray.shape

namespace State

variable {κ : Type} [Console κ] {s t u : State κ} {part : Option MemoryPart}

/-- The second state comes later, and memory changed in one part only, or not at all. New arrays may
have been made. -/
structure ChangedIn (part : Option MemoryPart) (s t : State κ) : Prop where
  later : s.Later t
  shapes : s.arrays.shapes <+: t.arrays.shapes
  elements : part ≠ some .elements → s.arrays.arrays.toList <+: t.arrays.arrays.toList
  bytes : part ≠ some .bytes → t.heap.bytes = s.heap.bytes
  used_le : s.heap.used ≤ t.heap.used
  used : part ≠ some .allocation → t.heap.used = s.heap.used

/-- The second state comes later, and memory did not change. -/
abbrev Kept (s t : State κ) : Prop := ChangedIn none s t

/-- The second state comes later; no array is gone or has another shape, and no part of the heap was
taken back. -/
structure Grown (s t : State κ) : Prop where
  later : s.Later t
  shapes : s.arrays.shapes <+: t.arrays.shapes
  used_le : s.heap.used ≤ t.heap.used

/-- Whatever part changed, no memory was taken back. -/
theorem ChangedIn.grown (h : s.ChangedIn part t) : s.Grown t := ⟨h.later, h.shapes, h.used_le⟩

/-- Memory may grow in two steps. -/
theorem Grown.trans (hst : s.Grown t) (htu : t.Grown u) : s.Grown u where
  later := hst.later.trans htu.later
  shapes := hst.shapes.trans htu.shapes
  used_le := Nat.le_trans hst.used_le htu.used_le

/-- Neither the arrays nor the heap are different. -/
theorem kept_of_eq (hlater : s.Later t) (harrays : t.arrays = s.arrays) (hheap : t.heap = s.heap) :
    s.Kept t where
  later := hlater
  shapes := harrays ▸ List.prefix_refl _
  elements _ := harrays ▸ List.prefix_refl _
  bytes _ := congrArg Heap.bytes hheap
  used_le := hheap ▸ Nat.le_refl _
  used _ := congrArg Heap.used hheap

/-- Only the call stack is different. -/
theorem kept_withStack (s : State κ) (stack : CallStack) : s.Kept { s with stack } :=
  kept_of_eq (State.later_of_eq rfl rfl) rfl rfl

theorem kept_refl (s : State κ) : s.Kept s := s.kept_withStack s.stack

/-- Where memory was kept first, what changed later is all that changed. -/
theorem ChangedIn.then (hst : s.Kept t) (htu : t.ChangedIn part u) : s.ChangedIn part u where
  later := hst.later.trans htu.later
  shapes := hst.shapes.trans htu.shapes
  elements hpart := (hst.elements nofun).trans (htu.elements hpart)
  bytes hpart := (htu.bytes hpart).trans (hst.bytes nofun)
  used_le := Nat.le_trans hst.used_le htu.used_le
  used hpart := (htu.used hpart).trans (hst.used nofun)

/-- Where memory was kept, it did not change anywhere else. -/
theorem ChangedIn.of_kept (h : s.Kept t) (part : Option MemoryPart) : s.ChangedIn part t where
  later := h.later
  shapes := h.shapes
  elements _ := h.elements nofun
  bytes _ := h.bytes nofun
  used_le := h.used_le
  used _ := h.used nofun

end State

namespace Run

variable {κ α β : Type} [Console κ]

/-! ## Changes of computations -/

/-- From every state the computation changes memory in one part only, and not at all if it halts. -/
abbrev ChangesIn (part : Option MemoryPart) (x : Run κ α) : Prop :=
  Within (State.ChangedIn part) State.Kept x

/-- The computation changes nothing in memory. -/
abbrev KeepsMemory (x : Run κ α) : Prop := ChangesIn none x

variable {part : Option MemoryPart} {x : Run κ α} {f : α → Run κ β}

/-- Computations that change nothing in memory may follow one another. -/
theorem keptEffects : Effects (State.Kept (κ := κ)) State.Kept where
  refl := State.kept_refl
  trans := State.ChangedIn.then
  halted := State.kept_refl
  after := State.ChangedIn.then

/-- Computations that take nothing back may follow one another. -/
theorem grownEffects : Effects (State.Grown (κ := κ)) State.Grown where
  refl s := (State.kept_refl s).grown
  trans := State.Grown.trans
  halted s := (State.kept_refl s).grown
  after := State.Grown.trans

/-- Whatever part a computation changes, it takes nothing back. -/
theorem ChangesIn.grows (hx : ChangesIn part x) : Within State.Grown State.Grown x :=
  hx.mono (fun _ _ => State.ChangedIn.grown) fun _ _ => State.ChangedIn.grown

/-- A computation that changes nothing changes nothing outside of any part. -/
theorem KeepsMemory.changesIn (hx : KeepsMemory x) (part : Option MemoryPart) : ChangesIn part x :=
  hx.mono (fun _ _ h => h.of_kept part) fun _ _ h => h

/-- What only reads changes nothing in memory. -/
theorem keepsMemory_of_readOnly (hx : ReadOnly x) : KeepsMemory x :=
  Within.of_readOnly keptEffects hx

/-- What changes memory comes last. -/
theorem KeepsMemory.bind (hx : KeepsMemory x) (hf : ∀ a, ChangesIn part (f a)) :
    ChangesIn part (x >>= f) := by
  intro s
  rw [ensures_bind]
  apply (hx s).mono
  · intro a t hst
    exact (hf a t).mono (fun _ _ => hst.then) fun _ _ => hst.then
  · exact fun _ _ h => h

/-- Something may be read before memory is changed. -/
theorem ReadOnly.bind_changesIn (hx : ReadOnly x) (hf : ∀ a, ChangesIn part (f a)) :
    ChangesIn part (x >>= f) :=
  (keepsMemory_of_readOnly hx).bind hf

/-- The call stack is no part of this memory. -/
theorem keepsMemory_modifyStack (f : CallStack → CallStack) :
    KeepsMemory (modifyStack f : Run κ Unit) :=
  fun s => s.kept_withStack _

theorem keepsMemory_bindExpr (e : ExprId) (value : Int32) :
    KeepsMemory (bindExpr e value : Run κ Unit) :=
  keepsMemory_modifyStack _

theorem keepsMemory_focusOn (focus : Focus) : KeepsMemory (focusOn focus : Run κ Unit) :=
  keepsMemory_modifyStack _

/-! ## Operations -/

section Operations

variable (image : Image) (e : ExprId)

/-- A report changes nothing in memory. -/
theorem keepsMemory_report (construct : Unsupported) :
    KeepsMemory (report image e construct : Run κ Unit) := by
  unfold report
  dsimp only
  split
  · exact keepsMemory_of_readOnly (readOnly_fault _ _)
  · apply KeepsMemory.bind
    · intro s
      apply State.kept_of_eq
      · constructor
        · exact .notify _ (.refl _)
        · exact ⟨_, Array.toList_push.symm⟩
      · rfl
      · rfl
    · exact fun _ => keepsMemory_bindExpr e 0

theorem keepsMemory_reference (d : DeclId) : KeepsMemory (reference image e d : Run κ Unit) := by
  unfold reference
  dsimp only
  split
  · split
    · exact (readOnly_valueOfDecl image d).bind_changesIn fun _ => keepsMemory_bindExpr e _
    · exact keepsMemory_report image e _
  · split
    · exact keepsMemory_bindExpr e 0
    · exact keepsMemory_report image e _

theorem keepsMemory_cast (operand : ExprId) : KeepsMemory (cast image e operand : Run κ Unit) := by
  unfold cast
  split
  · exact keepsMemory_of_readOnly (.pure _)
  · exact (readOnly_valueOf image operand).bind_changesIn fun _ => keepsMemory_bindExpr e _

theorem keepsMemory_sizeOf (type : CType) : KeepsMemory (sizeOf image e type : Run κ Unit) := by
  unfold sizeOf
  split
  · exact keepsMemory_bindExpr e _
  · split
    · exact keepsMemory_bindExpr e _
    · exact keepsMemory_of_readOnly (readOnly_fault _ _)

/-- An element is only read. -/
theorem keepsMemory_subscript (base index : ExprId) :
    KeepsMemory (subscript image e base index : Run κ Unit) :=
  (readOnly_elementPlace image base index).bind_changesIn fun place =>
    (readOnly_load image place).bind_changesIn fun _ => keepsMemory_bindExpr e _

/-- No unary operator changes memory. -/
theorem keepsMemory_unary (op : UnaryOp) (operand : ExprId) :
    KeepsMemory (unary image e op operand : Run κ Unit) := by
  unfold unary
  split
  · apply (readOnly_valueOf image operand).bind_changesIn
    exact fun address => (readOnly_load image (.heap address)).bind_changesIn fun _ =>
      keepsMemory_bindExpr e _
  · exact (readOnly_valueOf image operand).bind_changesIn fun _ => keepsMemory_bindExpr e _
  · exact keepsMemory_report image e _

/-- No arithmetic operator changes memory. -/
theorem keepsMemory_arith (op : ArithOp) (lhs rhs : ExprId) :
    KeepsMemory (arith image e op lhs rhs : Run κ Unit) := by
  apply (readOnly_valueOf image lhs).bind_changesIn
  intro l
  apply (readOnly_valueOf image rhs).bind_changesIn
  intro r
  cases op with
  | additive op =>
    dsimp only
    split
    · exact keepsMemory_bindExpr e _
    · exact keepsMemory_of_readOnly (readOnly_fault _ _)
  | multiplicative op =>
    dsimp only
    split
    · exact keepsMemory_bindExpr e _
    · exact keepsMemory_of_readOnly (readOnly_fault _ _)

theorem keepsMemory_compare (op : Comparison) (lhs rhs : ExprId) :
    KeepsMemory (compare image e op lhs rhs : Run κ Unit) :=
  (readOnly_valueOf image lhs).bind_changesIn fun _ =>
    (readOnly_valueOf image rhs).bind_changesIn fun _ => keepsMemory_bindExpr e _

/-! ### Assignments -/

/-- A write to an element leaves the lengths and depths of all arrays. -/
theorem shapes_of_set {store store' : ArrayStore} {id index value : Int32}
    (h : store.set id index value = .ok store') : store'.shapes = store.shapes := by
  have hmap :=
    congrArg Array.toList (ArrayStore.map_arrays_set (f := StoredArray.shape) (fun _ _ => rfl) h)
  rwa [Array.toList_map, Array.toList_map] at hmap

/-- A value stored at an address changes bytes of the heap only. -/
theorem changesIn_store_heap (address value : Int32) :
    ChangesIn (some .bytes) (store image (.heap address) value : Run κ Unit) := by
  intro s
  rw [store, ensures_bind, ensures_get]
  dsimp only
  cases hwrite : s.heap.write address value with
  | error f => exact s.kept_refl
  | ok heap =>
    have hused : heap.used = s.heap.used := Heap.used_write hwrite
    constructor
    · exact State.later_of_eq rfl rfl
    · exact List.prefix_refl _
    · exact fun _ => List.prefix_refl _
    · exact fun hpart => absurd rfl hpart
    · exact Nat.le_of_eq hused.symm
    · exact fun _ => hused

/-- A value stored in an array changes elements only. -/
theorem changesIn_store_array (id index value : Int32) :
    ChangesIn (some .elements) (store image (.array id index) value : Run κ Unit) := by
  intro s
  rw [store, ensures_bind, ensures_get]
  dsimp only
  cases hset : s.arrays.set id index value with
  | error f => exact s.kept_refl
  | ok arrays =>
    constructor
    · exact State.later_of_eq rfl rfl
    · exact shapes_of_set hset ▸ List.prefix_refl _
    · exact fun hpart => absurd rfl hpart
    · exact fun _ => rfl
    · exact Nat.le_refl _
    · exact fun _ => rfl

/-- An element is stored in the part of memory that its base says. -/
theorem changesIn_storeElement (base index : ExprId) (value : Int32) :
    ChangesIn (some (image.elementPart base)) (do
      let place ← elementPlace image base index
      store image place value : Run κ Unit) := by
  unfold elementPlace Image.elementPart
  simp only [bind_assoc, pure_bind]
  apply (readOnly_valueOf image base).bind_changesIn
  intro start
  apply (readOnly_valueOf image index).bind_changesIn
  intro i
  split
  · exact changesIn_store_heap image _ value
  · exact changesIn_store_array image _ _ value

/-- An assignment changes the part that its target lies in. -/
theorem changesIn_assignTarget (target : ExprId) (value : Int32) :
    ChangesIn (image.targetPart? target) (assignTarget image e target value : Run κ Unit) := by
  unfold assignTarget Image.targetPart?
  cases (image.program.expr target).kind with
  | declRef d =>
    dsimp only
    split
    · split
      · exact keepsMemory_report image e _
      · exact keepsMemory_modifyStack _
    · exact keepsMemory_report image e _
  | unary op operand =>
    cases op with
    | deref =>
      exact (readOnly_valueOf image operand).bind_changesIn fun _ =>
        changesIn_store_heap image _ value
    | neg | plus | not | bitNot | preInc | preDec | postInc | postDec | addressOf =>
      exact keepsMemory_report image e _
  | subscript base index => exact changesIn_storeElement image base index value
  | intLiteral _ | paren _ | binary _ _ _ | call _ _ | cast _ | sizeOf _ =>
    exact keepsMemory_report image e _

/-- An assignment as a whole changes no other part than that. -/
theorem changesIn_assign (lhs rhs : ExprId) :
    ChangesIn (image.targetPart? (image.program.stripParens lhs))
      (assign image e lhs rhs : Run κ Unit) := by
  have hstore : ChangesIn (image.targetPart? (image.program.stripParens lhs)) (do
      let value ← valueOf image rhs
      bindExpr lhs value
      bindExpr e value
      assignTarget image e (image.program.stripParens lhs) value : Run κ Unit) := by
    apply (readOnly_valueOf image rhs).bind_changesIn
    intro value
    apply (keepsMemory_bindExpr lhs value).bind
    intro _
    exact (keepsMemory_bindExpr e value).bind fun _ => changesIn_assignTarget image e _ value
  unfold assign
  dsimp only
  split
  · exact (readOnly_checkConversion image _ rhs).bind_changesIn fun _ => hstore
  · exact hstore

/-- Every operator but an assignment leaves memory as it is. -/
theorem keepsMemory_binary {op : BinaryOp} (hop : op ≠ .assign) (lhs rhs : ExprId) :
    KeepsMemory (binary image e op lhs rhs : Run κ Unit) := by
  cases op with
  | assign => exact absurd rfl hop
  | arith op => exact keepsMemory_arith image e op lhs rhs
  | comparison op => exact keepsMemory_compare image e op lhs rhs
  | logical _ | bitwise _ | compoundAssign _ => exact keepsMemory_report image e _

/-! ### Provided functions -/

/-- Reading a number changes nothing in memory. -/
theorem keepsMemory_callGet : KeepsMemory (callGet image e : Run κ Unit) := by
  intro s
  rw [callGet, ensures_bind, ensures_get]
  dsimp only
  rw [ensures_bind, ensures_set]
  -- reading moves the input on, which is no memory
  have hread : s.Kept { s with console := (Console.readInt s.console).2 } :=
    State.kept_of_eq ⟨.read (.refl _), List.prefix_refl _⟩ rfl rfl
  split
  · exact hread.then (State.kept_withStack _ _)
  · exact hread

/-- Printing a number changes nothing in memory. -/
theorem keepsMemory_callPrint (arg : ExprId) : KeepsMemory (callPrint image arg : Run κ Unit) := by
  apply (readOnly_valueOf image arg).bind_changesIn
  exact fun value s => State.kept_of_eq ⟨.write value (.refl _), List.prefix_refl _⟩ rfl rfl

/-- An allocation hands out more of the heap, and writes no byte. -/
theorem changesIn_callMalloc (arg : ExprId) :
    ChangesIn (some .allocation) (callMalloc image e arg : Run κ Unit) := by
  apply (readOnly_valueOf image arg).bind_changesIn
  intro size s
  rw [ensures_bind, ensures_get]
  cases hallocate : s.heap.allocate size with
  | error f => exact s.kept_refl
  | ok block =>
    obtain ⟨start, heap⟩ := block
    obtain ⟨n, rfl⟩ := Heap.allocate_ok hallocate
    change s.ChangedIn (some .allocation) { s with heap := _, stack := _ }
    constructor
    · exact State.later_of_eq rfl rfl
    · exact List.prefix_refl _
    · exact fun _ => List.prefix_refl _
    · exact fun _ => rfl
    · exact Nat.le_add_right _ n
    · exact fun hpart => absurd rfl hpart

/-- Giving memory back changes nothing. -/
theorem keepsMemory_callFree (arg : ExprId) : KeepsMemory (callFree image arg : Run κ Unit) :=
  (readOnly_valueOf image arg).bind_changesIn fun _ s => s.kept_refl

/-- Of the built-in functions only `MALLOC` changes memory. -/
theorem changesIn_callBuiltin (b : Builtin) (args : List ExprId) :
    ChangesIn (if b = .malloc then some .allocation else none)
      (callBuiltin image e b args : Run κ Unit) := by
  apply (readOnly_checkArity image _ _ _).bind_changesIn
  intro _
  cases b with
  | get => exact keepsMemory_callGet image e
  | print =>
    cases args with
    | nil => exact keepsMemory_of_readOnly (.pure _)
    | cons arg _ => exact keepsMemory_callPrint image arg
  | malloc =>
    cases args with
    | nil => exact (keepsMemory_of_readOnly (.pure _)).changesIn _
    | cons arg _ => exact changesIn_callMalloc image e arg
  | free =>
    cases args with
    | nil => exact keepsMemory_of_readOnly (.pure _)
    | cons arg _ => exact keepsMemory_callFree image arg

/-! ### Frames -/

theorem keepsMemory_openFrame (function : DeclId) (body : StmtId)
    (bindings : List (DeclId × Int32)) :
    KeepsMemory (openFrame function body bindings : Run κ Unit) := by
  apply (keepsMemory_modifyStack _).bind
  intro _
  apply KeepsMemory.bind
  · exact Within.forM keptEffects bindings fun _ _ => keepsMemory_modifyStack _
  · exact fun _ => keepsMemory_focusOn _

/-- Parameters are bound in a frame, so a call changes nothing in memory. -/
theorem keepsMemory_enterBody (callee : DeclId) (params : List DeclId) (body : StmtId)
    (args : List ExprId) :
    KeepsMemory (enterBody image callee params body args : Run κ Unit) := by
  apply (readOnly_checkArity image _ _ _).bind_changesIn
  intro _
  apply (ReadOnly.forM (fun _ => readOnly_checkConversion image _ _) _).bind_changesIn
  intro _
  apply (ReadOnly.mapM (readOnly_valueOf image) args).bind_changesIn
  intro values
  apply readOnly_get.bind_changesIn
  intro s
  dsimp only
  split
  · exact (readOnly_faultHere image _).bind_changesIn fun _ => keepsMemory_openFrame _ _ _
  · exact keepsMemory_openFrame _ _ _

theorem keepsMemory_enterMain : KeepsMemory (enterMain image : Run κ StmtId) := by
  unfold enterMain
  split
  · exact Within.throw keptEffects _
  · dsimp only
    split
    · exact (keepsMemory_openFrame _ _ _).bind fun _ => keepsMemory_of_readOnly (.pure _)
    · exact keepsMemory_of_readOnly (readOnly_fault _ _)

/-- The result of a call is bound in a frame as well. -/
theorem keepsMemory_leaveCall (value : Int32) : KeepsMemory (leaveCall e value : Run κ Unit) :=
  (keepsMemory_modifyStack _).bind fun _ => keepsMemory_bindExpr e value

/-- A new array leaves the others as they are. -/
theorem shapes_create (store : ArrayStore) (length scopeDepth : Nat) :
    store.shapes <+: (store.create length scopeDepth).2.shapes := by
  exists [(length, scopeDepth)]
  simp [ArrayStore.shapes, ArrayStore.create, StoredArray.shape]

/-- Making an array changes none of those that there were. -/
theorem keepsMemory_initialise (d : DeclId) : KeepsMemory (initialise image d : Run κ Unit) := by
  unfold initialise
  split
  · exact keepsMemory_of_readOnly (.pure _)
  · split
    · -- a new array is behind the others and changes none of them
      intro s
      rw [ensures_bind, ensures_get]
      constructor
      · exact State.later_of_eq rfl rfl
      · exact shapes_create _ _ _
      · exact fun _ => ⟨_, Array.toList_push.symm⟩
      · exact fun _ => rfl
      · exact Nat.le_refl _
      · exact fun _ => rfl
    · apply (readOnly_checkConversion image _ _).bind_changesIn
      exact fun _ => (readOnly_valueOf image _).bind_changesIn fun _ => keepsMemory_modifyStack _
    · exact keepsMemory_modifyStack _

/-! ### Expressions -/

/-- A call changes memory only if the function called hands it out. -/
theorem changesIn_enterCall {callee : DeclId} {args : List ExprId}
    (hk : (image.program.expr e).kind = .call callee args) :
    ChangesIn (image.changes? e) (enterCall image e callee args : Run κ (Option StmtId)) := by
  rw [Image.changes?_of_call hk]
  unfold enterCall
  cases image.builtin? callee with
  | none =>
    rw [if_neg nofun]
    dsimp only
    split
    · apply (keepsMemory_enterBody image callee _ _ args).bind
      exact fun _ => keepsMemory_of_readOnly (.pure _)
    · exact keepsMemory_of_readOnly (readOnly_faultHere image _)
  | some b =>
    intro s
    rw [ensures_bind]
    simp only [Option.some.injEq]
    exact changesIn_callBuiltin image e b args s

/-- What is done for an expression that is no call changes memory only as the form of the expression
says. -/
theorem changesIn_conclude (ev : Evaluator κ)
    (hcall : ∀ callee args, (image.program.expr e).kind ≠ .call callee args) :
    ChangesIn (image.changes? e) (conclude image ev e) := by
  unfold conclude
  cases hk : (image.program.expr e).kind with
  | intLiteral value => exact (keepsMemory_bindExpr e value).changesIn _
  | declRef d => exact (keepsMemory_reference image e d).changesIn _
  | paren inner =>
    apply (readOnly_valueOf image inner).bind_changesIn
    exact fun value => (keepsMemory_bindExpr e value).changesIn _
  | unary op operand =>
    apply (keepsMemory_focusOn _).bind
    exact fun _ => (keepsMemory_unary image e op operand).changesIn _
  | binary op lhs rhs =>
    apply (keepsMemory_focusOn _).bind
    intro _
    by_cases hop : op = .assign
    · subst hop
      rw [Image.changes?_of_assign hk]
      exact changesIn_assign image e lhs rhs
    · exact (keepsMemory_binary image e hop lhs rhs).changesIn _
  | call callee args => exact absurd hk (hcall callee args)
  | subscript base index =>
    apply (keepsMemory_focusOn _).bind
    exact fun _ => (keepsMemory_subscript image e base index).changesIn _
  | cast operand => exact (keepsMemory_cast image e operand).changesIn _
  | sizeOf type => exact (keepsMemory_sizeOf image e type).changesIn _

end Operations

end Run

end MiniC
