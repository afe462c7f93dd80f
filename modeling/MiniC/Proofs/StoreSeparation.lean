import MiniC.Proofs.ParsedProgram
import MiniC.Proofs.RunOutcome

/-!
# The heap and the arrays

A value outside the frames lies in one of two regions, the heap and the array store. A computation
ignores a region (`Run.Ignores`) if it does the same whatever the region holds and leaves it as it
is. What is accessed through a pointer is looked for in the heap. An element of an array is looked
for in the array store; but a dereference of an array takes its id for an address of the heap, and
is the only access through an array that does not ignore the heap (`Run.accesses_apart`).
-/

set_option autoImplicit false

namespace MiniC

/-- There is a word at address zero of every heap that has room for one. -/
theorem Heap.wordStart?_zero (h : Heap) :
    h.wordStart? 0 = if Word.size ≤ h.capacity then some 0 else none := by
  have hzero : Word.toNat? 0 = some 0 := by decide
  by_cases hsize : Word.size ≤ h.capacity
  · simp [wordStart?, hzero, Option.filter, hsize]
  · simp [wordStart?, hzero, Option.filter, hsize]

/-! ## Regions -/

/-- A part of the state that holds values outside the frames. -/
inductive Region where
  | heap
  | arrays
  deriving DecidableEq

/-- What a region may hold. -/
def Region.Content : Region → Type
  | heap => Heap
  | arrays => ArrayStore

namespace State

variable {κ : Type}

/-- What a region holds. -/
def content (s : State κ) : (r : Region) → r.Content
  | .heap => s.heap
  | .arrays => s.arrays

/-- The state with another content of a region. -/
def withContent (s : State κ) : {r : Region} → r.Content → State κ
  | .heap, heap => { s with heap }
  | .arrays, arrays => { s with arrays }

@[simp] theorem withContent_content (s : State κ) (r : Region) :
    s.withContent (s.content r) = s := by
  cases r <;> rfl

@[simp] theorem withContent_withContent (s : State κ) {r : Region} (c c' : r.Content) :
    (s.withContent c).withContent c' = s.withContent c' := by
  cases r <;> rfl

@[simp] theorem stack_withContent (s : State κ) {r : Region} (c : r.Content) :
    (s.withContent c).stack = s.stack := by
  cases r <;> rfl

end State

namespace Run

variable {κ α β : Type}

/-- An outcome with another content of a region. -/
def outcomeWith {r : Region} (c : r.Content) :
    EStateM.Result Halt (State κ) α → EStateM.Result Halt (State κ) α
  | .ok a t => .ok a (t.withContent c)
  | .error h t => .error h (t.withContent c)

/-- The computation does the same whatever the region holds, and leaves that there. -/
def Ignores (r : Region) (x : Run κ α) : Prop :=
  ∀ (c : r.Content) (s : State κ), x (s.withContent c) = outcomeWith c (x s)

/-- Carries out a computation with another content of a region, which then gets back what it
held. -/
def inPlaceOf {r : Region} (c : r.Content) (x : Run κ α) : Run κ α := fun s =>
  outcomeWith (s.content r) (x (s.withContent c))

/-- Where a region is ignored its content can be taken away. -/
theorem Ignores.inPlaceOf_eq {r : Region} {x : Run κ α} (hx : Ignores r x) (c : r.Content) :
    inPlaceOf c x = x := by
  funext s
  have hkept : outcomeWith (s.content r) (x s) = x s := by
    rw [← hx, State.withContent_content]
  calc inPlaceOf c x s = outcomeWith (s.content r) (outcomeWith c (x s)) := by rw [inPlaceOf, hx]
    _ = outcomeWith (s.content r) (x s) := by cases x s <;> simp [outcomeWith]
    _ = x s := hkept

/-! ## Computations that ignore a region -/

section Ignores

variable {r : Region} {x : Run κ α} {f : α → Run κ β} (image : Image)

/-- Computations that ignore a region may follow one another. -/
theorem Ignores.bind (hx : Ignores r x) (hf : ∀ a, Ignores r (f a)) : Ignores r (x >>= f) := by
  intro c s
  rw [bind_apply, bind_apply, hx c s]
  cases x s with
  | ok a t => exact hf a c t
  | error h t => rfl

theorem Ignores.pure (a : α) : Ignores r (pure a : Run κ α) := fun _ _ => rfl

theorem ignores_fault (cause : RuntimeFault) (loc : Location) :
    Ignores r (fault cause loc : Run κ α) :=
  fun _ _ => rfl

theorem ignores_faultHere (cause : RuntimeFault) : Ignores r (faultHere image cause : Run κ α) := by
  intro c s
  cases r <;> rfl

/-- What a memory has answered is no longer in it. -/
theorem ignores_orFault (answer : Except MemoryFault α) :
    Ignores r (orFault image answer : Run κ α) := by
  cases answer with
  | ok a => exact .pure a
  | error f => exact ignores_faultHere image _

/-- The call stack is in neither region. -/
theorem ignores_modifyStack (f : CallStack → CallStack) :
    Ignores r (modifyStack f : Run κ Unit) := by
  intro c s
  cases r <;> rfl

theorem ignores_valueOf (e : ExprId) : Ignores r (valueOf image e : Run κ Int32) := by
  intro c s
  change orFault image ((s.withContent c).stack.top.expr e) (s.withContent c) = _
  rw [s.stack_withContent]
  exact ignores_orFault image _ c s

end Ignores

/-! ## Accesses -/

/-- The region that a place lies in. -/
def Place.region : Place → Region
  | .heap _ => .heap
  | .array _ _ => .arrays

/-- The region that elements of a value with some type are looked for in. -/
def elementRegion (type : CType) : Region := if type.isPointer then .heap else .arrays

section Accesses

variable {r : Region} (image : Image)

/-- A read ignores every region but that of its place. -/
theorem ignores_load {place : Place} (h : place.region ≠ r) :
    Ignores r (load image place : Run κ Int32) := by
  intro c s
  cases place with
  | heap address =>
    cases r with
    | heap => exact absurd rfl h
    | arrays => exact ignores_orFault image (s.heap.read address) c s
  | array id index =>
    cases r with
    | arrays => exact absurd rfl h
    | heap => exact ignores_orFault image (s.arrays.get id index) c s

/-- A write ignores every region but that of its place. -/
theorem ignores_store {place : Place} (h : place.region ≠ r) (value : Int32) :
    Ignores r (store image place value : Run κ Unit) := by
  intro c s
  cases place with
  | heap address =>
    cases r with
    | heap => exact absurd rfl h
    | arrays =>
      change (orFault image (s.heap.write address value) >>= fun heap =>
        set ({ s.withContent c with heap } : State κ) : Run κ Unit) _ = outcomeWith c
          ((orFault image (s.heap.write address value) >>= fun heap =>
            set { s with heap } : Run κ Unit) s)
      cases s.heap.write address value <;> rfl
  | array id index =>
    cases r with
    | arrays => exact absurd rfl h
    | heap =>
      change (orFault image (s.arrays.set id index value) >>= fun arrays =>
        set ({ s.withContent c with arrays } : State κ) : Run κ Unit) _ = outcomeWith c
          ((orFault image (s.arrays.set id index value) >>= fun arrays =>
            set { s with arrays } : Run κ Unit) s)
      cases s.arrays.set id index value <;> rfl

/-- What is done with the place of an element concerns the region that elements of the base lie
in. -/
theorem ignores_elementPlace_bind {base : ExprId} (h : elementRegion (image.typeOf base) ≠ r)
    (index : ExprId) {f : Place → Run κ Unit}
    (hf : ∀ place, place.region ≠ r → Ignores r (f place)) :
    Ignores r (elementPlace image base index >>= f) := by
  unfold elementPlace
  simp only [bind_assoc, pure_bind]
  refine (ignores_valueOf image base).bind fun start => (ignores_valueOf image index).bind fun i =>
    hf _ ?_
  unfold elementRegion at h
  split at h <;> simp_all [Place.region]

/-- An element is read from the region of its base. -/
theorem ignores_subscript {base : ExprId} (h : elementRegion (image.typeOf base) ≠ r)
    (e index : ExprId) :
    Ignores r (subscript image e base index : Run κ Unit) :=
  ignores_elementPlace_bind image h index fun _ hplace =>
    (ignores_load image hplace).bind fun _ => ignores_modifyStack _

/-- A value read from the heap may be used by what ignores the region. -/
theorem ignores_load_heap_bind (h : Region.heap ≠ r) (operand : ExprId) (f : Int32 → Run κ Unit)
    (hf : ∀ value, Ignores r (f value)) :
    Ignores r (do
      let address ← valueOf image operand
      f (← load image (.heap address))) := by
  refine (ignores_valueOf image operand).bind fun address => ?_
  exact (ignores_load image (show (Place.heap address).region ≠ r from h)).bind hf

end Accesses

end Run

/-! ## Expressions that access a region -/

/-- The expression whose value says where a dereference or an element lies. -/
def ExprKind.through? : ExprKind → Option ExprId
  | .unary .deref operand => some operand
  | .subscript base _ => some base
  | _ => none

/-- What stands after the star of a dereference. -/
def ExprKind.dereferenced? : ExprKind → Option ExprId
  | .unary .deref operand => some operand
  | _ => none

namespace Image

variable (image : Image)

/-- The expression through which an expression accesses what lies outside the frames, to read it or,
in an assignment, to change it. -/
def through? (e : ExprId) : Option ExprId :=
  match (image.program.expr e).kind with
  | .binary .assign lhs _ => (image.program.expr (image.program.stripParens lhs)).kind.through?
  | kind => kind.through?

/-- The expression reads `*c`, or assigns to it what may go there. -/
inductive Dereferences : ExprId → ExprId → Prop
  | read {e c : ExprId} : (image.program.expr e).kind = .unary .deref c → Dereferences e c
  | assign {e c lhs rhs : ExprId} :
      (image.program.expr e).kind = .binary .assign lhs rhs →
      (image.program.expr (image.program.stripParens lhs)).kind = .unary .deref c →
      ¬ ((image.typeOf lhs).isPointer = true ∧
        Run.isForbiddenConversion (image.typeOf lhs) (image.typeOf rhs) = true) →
      Dereferences e c

end Image

namespace Run

variable {κ : Type} [Console κ] (image : Image)

/-- Evaluates the parts of an expression. -/
def evalParts (ev : Evaluator κ) (e : ExprId) : Run κ Unit := do
  match (image.program.expr e).kind with
  | .unary _ operand => ev.expr operand
  | .binary op lhs rhs =>
    if op.isAssignment then
      ev.expr rhs
      ev.target lhs
    else
      ev.expr lhs
      ev.expr rhs
  | .subscript base index =>
    ev.expr base
    ev.expr index
  | _ => return ()

/-- What an expression does when its parts have values. -/
def perform (e : ExprId) : Run κ Unit :=
  match (image.program.expr e).kind with
  | .unary op operand => unary image e op operand
  | .binary op lhs rhs => binary image e op lhs rhs
  | .subscript base index => subscript image e base index
  | _ => return ()

/-- An access evaluates its parts and is then carried out at its own node. -/
theorem exprStep_eq_of_through {e c : ExprId} (h : image.through? e = some c) (ev : Evaluator κ) :
    exprStep image ev e = (do
      focusOn (.expr e)
      evalParts image ev e
      focusOn (.expr e)
      perform image e) := by
  unfold exprStep evalParts perform
  cases hk : (image.program.expr e).kind with
  | unary op operand => rfl
  | subscript base index => simp only [bind_assoc]
  | binary op lhs rhs =>
    dsimp only
    split <;> simp only [bind_assoc]
  | intLiteral _ | declRef _ | call _ _ | cast _ | paren _ | sizeOf _ =>
    simp [Image.through?, hk, ExprKind.through?] at h

/-! ## What an access ignores -/

variable {image} {r : Region} {e c lhs rhs : ExprId}

/-- An assignment to a pointer of a value that cannot be converted is a fault. -/
theorem assign_eq_fault (hp : (image.typeOf lhs).isPointer = true)
    (hf : isForbiddenConversion (image.typeOf lhs) (image.typeOf rhs) = true) :
    (assign image e lhs rhs : Run κ Unit) =
      fault (.arrayConversion (image.typeOf lhs) (image.typeOf rhs))
        (image.program.expr rhs).loc := by
  unfold assign checkConversion
  dsimp only
  rw [if_pos hp,
    if_pos (show isForbiddenConversion (image.typeOf lhs) (image.program.expr rhs).type = true
    from hf)]
  rfl

/-- An assignment that has a result was allowed. -/
theorem allowed_of_assign {s t : State κ} (h : assign image e lhs rhs s = .ok () t) :
    ¬ ((image.typeOf lhs).isPointer = true ∧
      isForbiddenConversion (image.typeOf lhs) (image.typeOf rhs) = true) := by
  rintro ⟨hpointer, hforbidden⟩
  rw [assign_eq_fault hpointer hforbidden] at h
  cases h

/-- Every other assignment writes the value to its target. -/
theorem assign_eq_of_allowed (h : ¬ ((image.typeOf lhs).isPointer = true ∧
      isForbiddenConversion (image.typeOf lhs) (image.typeOf rhs) = true)) :
    (assign image e lhs rhs : Run κ Unit) = (do
      let value ← valueOf image rhs
      bindExpr lhs value
      bindExpr e value
      assignTarget image e (image.program.stripParens lhs) value) := by
  unfold assign checkConversion
  dsimp only
  by_cases hp : (image.typeOf lhs).isPointer = true
  · have hf : ¬ isForbiddenConversion (image.typeOf lhs) (image.program.expr rhs).type = true :=
      fun hf => h ⟨hp, hf⟩
    rw [if_pos hp, if_neg hf]
    rfl
  · rw [if_neg hp]

/-- An access ignores a region in which neither elements lie nor, if it is a dereference, the
heap. -/
theorem ignores_perform (h : image.through? e = some c)
    (helement : elementRegion (image.typeOf c) ≠ r)
    (hderef : image.Dereferences e c → Region.heap ≠ r) :
    Ignores r (perform image e : Run κ Unit) := by
  unfold perform
  unfold Image.through? at h
  cases hk : (image.program.expr e).kind with
  | subscript base index =>
    obtain rfl : base = c := by simpa [hk, ExprKind.through?] using h
    exact ignores_subscript image helement e index
  | unary op operand =>
    cases op with
    | deref =>
      obtain rfl : operand = c := by simpa [hk, ExprKind.through?] using h
      exact ignores_load_heap_bind image (hderef (.read hk)) operand _ fun _ =>
        ignores_modifyStack _
    | neg | plus | not | bitNot | preInc | preDec | postInc | postDec | addressOf =>
      simp [hk, ExprKind.through?] at h
  | binary op lhs rhs =>
    cases op with
    | arith _ | comparison _ | logical _ | bitwise _ | compoundAssign _ =>
      simp [hk, ExprKind.through?] at h
    | assign =>
      -- a rejected assignment halts before it reads or writes anything
      by_cases hreject : (image.typeOf lhs).isPointer = true ∧
          isForbiddenConversion (image.typeOf lhs) (image.typeOf rhs) = true
      · dsimp only
        rw [binary, assign_eq_fault hreject.1 hreject.2]
        exact ignores_fault _ _
      rw [hk] at h
      dsimp only
      rw [binary, assign_eq_of_allowed hreject]
      refine (ignores_valueOf image rhs).bind fun value => ?_
      refine (ignores_modifyStack _).bind fun _ => (ignores_modifyStack _).bind fun _ => ?_
      unfold assignTarget
      dsimp only at h
      -- what is written lies where the target says
      cases htarget : (image.program.expr (image.program.stripParens lhs)).kind with
      | subscript base index =>
        obtain rfl : base = c := by simpa [htarget, ExprKind.through?] using h
        exact ignores_elementPlace_bind image helement index fun _ hplace =>
          ignores_store image hplace value
      | unary op operand =>
        cases op with
        | deref =>
          obtain rfl : operand = c := by simpa [htarget, ExprKind.through?] using h
          have hheap : Region.heap ≠ r := hderef (.assign hk htarget hreject)
          refine (ignores_valueOf image operand).bind fun address => ?_
          exact ignores_store image (show (Place.heap address).region ≠ r from hheap) value
        | neg | plus | not | bitNot | preInc | preDec | postInc | postDec | addressOf =>
          simp [htarget, ExprKind.through?] at h
      | intLiteral _ | declRef _ | binary _ _ _ | call _ _ | cast _ | paren _ | sizeOf _ =>
        simp [htarget, ExprKind.through?] at h
  | intLiteral _ | declRef _ | call _ _ | cast _ | paren _ | sizeOf _ =>
    simp [hk, ExprKind.through?] at h

/-! ## What a dereference does not ignore -/

omit [Console κ] in
/-- A value that is in the top frame is found there. -/
theorem ensures_valueOf {s : State κ} {value : Int32} (h : s.stack.top.expr? c = some value)
    {Q : Int32 → State κ → Prop} {E : Halt → State κ → Prop} (hQ : Q value s) :
    Ensures (valueOf image c) s Q E := by
  rw [valueOf, ensures_bind, ensures_get, Frame.expr_of_expr? h]
  exact hQ

omit [Console κ] in
/-- Whether the first word of the heap can be read depends on the capacity. -/
theorem ensures_load_zero (s : State κ) :
    Ensures (load image (.heap 0)) s (fun _ _ => Word.size ≤ s.heap.capacity)
      (fun _ _ => s.heap.capacity < Word.size) := by
  rw [load, ensures_bind, ensures_get]
  dsimp only
  by_cases hsize : Word.size ≤ s.heap.capacity
  · simp only [Heap.read, Heap.wordStart?_zero, if_pos hsize]
    exact hsize
  · simp only [Heap.read, Heap.wordStart?_zero, if_neg hsize]
    exact Nat.lt_of_not_le hsize

omit [Console κ] in
/-- So does whether it can be written. -/
theorem ensures_store_zero (s : State κ) (value : Int32) :
    Ensures (store image (.heap 0) value) s (fun _ _ => Word.size ≤ s.heap.capacity)
      (fun _ _ => s.heap.capacity < Word.size) := by
  rw [store, ensures_bind, ensures_get]
  dsimp only
  by_cases hsize : Word.size ≤ s.heap.capacity
  · simp only [Heap.write, Heap.wordStart?_zero, if_pos hsize]
    exact hsize
  · simp only [Heap.write, Heap.wordStart?_zero, if_neg hsize]
    exact Nat.lt_of_not_le hsize

/-- Whether a dereference of address zero fails depends on the size of the heap. -/
theorem ensures_perform_of_dereferences (h : image.Dereferences e c) {s : State κ}
    (hc : s.stack.top.expr? c = some 0)
    (hrhs : ∀ lhs rhs, (image.program.expr e).kind = .binary .assign lhs rhs →
      s.stack.top.expr? rhs = some 0) :
    Ensures (perform image e) s (fun _ _ => Word.size ≤ s.heap.capacity)
      (fun _ _ => s.heap.capacity < Word.size) := by
  unfold perform
  cases h with
  -- the address is read, and then the word there
  | read hk =>
    rw [hk]
    change Ensures (valueOf image c >>= fun address =>
      load image (.heap address) >>= bindExpr e) s _ _
    rw [ensures_bind]
    refine ensures_valueOf hc ?_
    rw [ensures_bind]
    exact (ensures_load_zero s).mono (fun _ _ hsize => hsize) fun _ _ hsize => hsize
  | @assign lhs rhs hk htarget hallowed =>
    rw [hk]
    change Ensures (assign image e lhs rhs) s _ _
    rw [assign_eq_of_allowed hallowed, ensures_bind]
    refine ensures_valueOf (hrhs lhs rhs hk) ?_
    -- two values are bound before the write, neither of which is the address
    rw [ensures_bind, bindExpr, ensures_modifyStack, ensures_bind, bindExpr, ensures_modifyStack]
    unfold assignTarget
    rw [htarget]
    dsimp only
    rw [ensures_bind]
    have hbound : ((s.stack.modifyTop (·.bindExpr lhs 0)).modifyTop (·.bindExpr e 0)).top.expr? c =
        some 0 := by
      simp only [CallStack.top_modifyTop, Frame.expr?_bindExpr, hc, ite_self]
    exact ensures_valueOf hbound (ensures_store_zero _ 0)

/-- Dereferencing depends on the heap, whatever the operand is. -/
theorem not_ignores_perform [Inhabited κ] (h : image.Dereferences e c) :
    ¬ Ignores .heap (perform image e : Run κ Unit) := by
  intro hignores
  let assigned := (image.program.operands e).getLastD c
  let s : State κ :=
    { State.initial image default with
      stack := ⟨[], ((Frame.empty none).bindExpr c 0).bindExpr assigned 0⟩, heap := .empty 0 }
  have hc : s.stack.top.expr? c = some 0 := by simp [s, CallStack.top, Frame.expr?_bindExpr]
  have hrhs : ∀ lhs rhs, (image.program.expr e).kind = .binary .assign lhs rhs →
      s.stack.top.expr? rhs = some 0 := by
    intro lhs rhs hk
    simp [s, assigned, Program.operands, ExprKind.operands, hk, CallStack.top, Frame.expr?_bindExpr]
  -- the heap of `s` has no word at all, and this one has a single word
  let word : Region.Content .heap := Heap.empty Word.size
  have hsmall := ensures_perform_of_dereferences h hc hrhs
  have hlarge := ensures_perform_of_dereferences (s := s.withContent word) h hc hrhs
  unfold Ensures at hsmall hlarge
  rw [hignores word s] at hlarge
  cases hperform : perform image e s with
  | ok a t =>
    rw [hperform] at hsmall
    exact Nat.not_succ_le_zero _ hsmall
  | error halt t =>
    rw [hperform] at hlarge
    exact Nat.lt_irrefl _ hlarge

/-! ## Runs with the regions kept apart -/

variable (image)

/-- Evaluates an expression; what it accesses through a pointer is done with another array store in
the place of the real one, and what it accesses through an array with another heap. -/
def apartStep (contents : ∀ r : Region, r.Content) (ev : Evaluator κ) (e : ExprId) : Run κ Unit :=
  match image.through? e with
  | none => exprStep image ev e
  | some c => do
    focusOn (.expr e)
    evalParts image ev e
    focusOn (.expr e)
    if (image.typeOf c).isPointer then inPlaceOf (contents .arrays) (perform image e)
    else if (image.typeOf c).isArray then inPlaceOf (contents .heap) (perform image e)
    else perform image e

/-- The evaluator whose expressions are evaluated with the regions kept apart. -/
def apart (contents : ∀ r : Region, r.Content) : Nat → Evaluator κ
  | 0 => evaluator image 0
  | fuel + 1 =>
    { expr := fun e => apartStep image contents (apart contents fuel) e
      target := fun target => targetStep image (apart contents fuel) target
      decl := fun d => declStep image (apart contents fuel) d
      stmt := fun id => stmtStep image (apart contents fuel) fuel id }

variable {image}

/-- Whatever is accessed through a pointer, the arrays do not matter. -/
theorem ignores_arrays_of_pointer (h : image.through? e = some c)
    (hc : (image.typeOf c).isPointer = true) :
    Ignores .arrays (perform image e : Run κ Unit) :=
  ignores_perform h (by simp [elementRegion, hc]) fun _ => nofun

/-- Whatever is accessed through an array, the heap does not matter, unless the array is
dereferenced. -/
theorem ignores_heap_of_array (h : image.through? e = some c) (hc : (image.typeOf c).isArray = true)
    (hderef : ¬ image.Dereferences e c) : Ignores .heap (perform image e : Run κ Unit) := by
  have hpointer : (image.typeOf c).isPointer = false := by
    rw [Bool.eq_false_iff]
    intro hp
    rw [CType.isArray_eq_false_of_isPointer hp] at hc
    cases hc
  exact ignores_perform h (by simp [elementRegion, hpointer]) fun hd => absurd hd hderef

/-- Separated contents make no difference to a step if no array is dereferenced. -/
theorem apartStep_eq (hnone : ∀ e c, (image.typeOf c).isArray = true → ¬ image.Dereferences e c)
    (contents : ∀ r : Region, r.Content) (ev : Evaluator κ) (e : ExprId) :
    apartStep image contents ev e = exprStep image ev e := by
  unfold apartStep
  cases h : image.through? e with
  | none => rfl
  | some c =>
    rw [exprStep_eq_of_through image h]
    dsimp only
    split
    · next hp => rw [(ignores_arrays_of_pointer h hp).inPlaceOf_eq]
    · split
      · next ha => rw [(ignores_heap_of_array h ha (hnone e c ha)).inPlaceOf_eq]
      · rfl

/-- Nor do they make one to a whole evaluation. -/
theorem apart_eq (hnone : ∀ e c, (image.typeOf c).isArray = true → ¬ image.Dereferences e c)
    (contents : ∀ r : Region, r.Content) (fuel : Nat) :
    apart image contents fuel = (evaluator image fuel : Evaluator κ) := by
  induction fuel with
  | zero => rfl
  | succ fuel ih =>
    unfold apart evaluator
    simp only [ih, apartStep_eq hnone]

/-- An access through a pointer ignores the array store, and one through an array ignores the heap
exactly if it is no dereference. So a program that dereferences no array runs as it does with the
regions kept apart. -/
theorem accesses_apart [Inhabited κ] (image : Image) :
    (∀ e c, image.through? e = some c → (image.typeOf c).isPointer = true →
      Ignores .arrays (perform image e : Run κ Unit)) ∧
    (∀ e c, image.through? e = some c → (image.typeOf c).isArray = true →
      (Ignores .heap (perform image e : Run κ Unit) ↔ ¬ image.Dereferences e c)) ∧
    ((∀ e c, (image.typeOf c).isArray = true → ¬ image.Dereferences e c) →
      ∀ contents fuel, runWith image (apart image contents fuel) =
        (run image fuel : Run κ Int32)) := by
  refine ⟨fun e c => ignores_arrays_of_pointer, fun e c h hc => ⟨fun hi hd => ?_, fun hd => ?_⟩,
    fun hnone contents fuel => ?_⟩
  · exact not_ignores_perform hd hi
  · exact ignores_heap_of_array h hc hd
  · rw [apart_eq hnone, run]

/-- Where only what is no array stands after a star, no array is dereferenced. -/
theorem not_dereferences_of_forall_mem {image : Image}
    (h : ∀ node ∈ image.program.exprs, ∀ c ∈ node.kind.dereferenced?,
      (image.typeOf c).isArray = false) (e c : ExprId) (hc : (image.typeOf c).isArray = true) :
    ¬ image.Dereferences e c := by
  intro hd
  obtain ⟨node, hnode⟩ : ∃ id, (image.program.expr id).kind = .unary .deref c := by
    cases hd with
    | read hk => exact ⟨e, hk⟩
    | assign _ htarget _ => exact ⟨_, htarget⟩
  have hmem : image.program.expr node ∈ image.program.exprs := by
    unfold Program.expr at hnode ⊢
    rw [Array.getD_eq_getD_getElem?] at hnode ⊢
    cases hget : image.program.exprs[node.index]? with
    | some found => exact Array.mem_of_getElem? hget
    | none =>
      -- what lies outside a program is a literal
      rw [hget] at hnode
      cases hnode
  have hnotArray := h _ hmem c (by rw [hnode]; rfl)
  rw [hc] at hnotArray
  cases hnotArray

/-- A program that writes an element of an array to where a pointer points runs as it does with
other arrays in place wherever it uses the pointer, and another heap wherever it uses the array. -/
theorem accesses_apart_of_subscripts :
    ∃ p, Program.parse
        "int main() { int *p = 0; int a[2]; a[1] = 9; *p = a[1]; return *p; }" = .ok p ∧
      let image := Image.load p {}
      (∀ e c, (image.typeOf c).isArray = true → ¬ image.Dereferences e c) ∧
        ∀ contents fuel,
          runWith image (apart image contents fuel) = (run image fuel : Run Scripted Int32) := by
  obtain ⟨p, hp, hderef⟩ : ∃ p, Program.parse
        "int main() { int *p = 0; int a[2]; a[1] = 9; *p = a[1]; return *p; }" = .ok p ∧
      ∀ node ∈ p.exprs, ∀ c ∈ node.kind.dereferenced?, (p.expr c).type.isArray = false :=
    Program.exists_of_parse (by decide +kernel)
  have hnone : ∀ e c, ((Image.load p {}).typeOf c).isArray = true →
      ¬ (Image.load p {}).Dereferences e c := not_dereferences_of_forall_mem hderef
  have : Inhabited Scripted := ⟨Scripted.ofInput []⟩
  exact ⟨p, hp, hnone, (accesses_apart (Image.load p {})).2.2 hnone⟩

omit [Console κ] in
/-- The word at address zero of the heap after a computation. -/
def wordAtZero {α : Type} : EStateM.Result Halt (State κ) α → Option Int32
  | .ok _ t | .error _ t => (t.heap.read 0).toOption

/-- The first array has the id zero, and an assignment to what it seems to point to changes the word
at address zero, which is not done if the regions are kept apart. -/
theorem array_dereference_changes_heap :
    ∃ p, Program.parse "int main() { int a[2]; *a = 9; return 0; }" = .ok p ∧
      let image := Image.load p {}
      let start := State.initial image (Scripted.ofInput [])
      wordAtZero (run image 100 start) = some 9 ∧
        ∃ contents, wordAtZero (runWith image (apart image contents 100) start) = some 0 := by
  refine ⟨_, Program.parse_eq_ok (by decide +kernel), by decide +kernel, ?_⟩
  exact ⟨fun | .heap => Heap.empty 16 | .arrays => ArrayStore.empty, by decide +kernel⟩

end Run

end MiniC
