import MiniC.Machine.State
import MiniC.Machine.Arithmetic
import MiniC.Proofs.Arena
import MiniC.Proofs.MemoryFaults
import MiniC.Proofs.ProgramStructure

/-!
# Values of arrays

The value of an array is its id in the array store. Few forms of expressions have the type of an
array (`Program.ArrayForm`), and only two of them can be evaluated where constructs without a
meaning are errors: a name and parentheses. Arrays stay in the store with their lengths
(`ArrayStore.Keeps`), so a frame whose variables and expressions of array types hold ids of arrays
(`Frame.Fits`) goes on doing so while others are made.
-/

set_option autoImplicit false

namespace MiniC

/-! ## Expressions of array types -/

/-- There are no arrays of arrays. -/
theorem CType.isArray_element (type : CType) : type.element.isArray = false := by
  rcases type with ⟨_, _, _ | _⟩ | _ <;> rfl

namespace Program

/-- The forms of expressions that have the type of an array. -/
inductive ArrayForm (p : Program) : ExprKind → Prop
  | declRef {d : DeclId} : (p.decl d).type.isArray = true → ArrayForm p (.declRef d)
  | paren {inner : ExprId} : (p.expr inner).type.isArray = true → ArrayForm p (.paren inner)
  | unary {op : UnaryOp} {operand : ExprId} :
    op ≠ .deref → op.function? = none → ArrayForm p (.unary op operand)
  | assign {lhs rhs : ExprId} : (p.expr lhs).type.isArray = true →
    ArrayForm p (.binary .assign lhs rhs)
  | compoundAssign {op : ArithOp} {lhs rhs : ExprId} :
    ArrayForm p (.binary (.compoundAssign op) lhs rhs)

/-- Which expressions have the types of arrays. -/
structure ArraysTyped (p : Program) : Prop where
  form : ∀ {e : ExprId}, (p.expr e).type.isArray = true → p.ArrayForm (p.expr e).kind
  target : ∀ {e lhs rhs : ExprId}, (p.expr e).kind = .binary .assign lhs rhs →
    (p.expr lhs).type.isArray = (p.expr e).type.isArray

variable {p : Program} {e : ExprId} {source : String}

/-- No rule of typing gives the type of an array to another form of expression. -/
theorem arrayForm_of_typeRule? {kind : ExprKind} {type : CType}
    (hreturn : ∀ f, ∀ type ∈ (p.decl f).returnType?, type.isArray = false)
    (hrule : p.typeRule? kind = some type) (harray : type.isArray = true) : p.ArrayForm kind := by
  cases kind with
  | intLiteral _ | sizeOf _ =>
    cases hrule
    cases harray
  | cast _ => cases hrule
  | declRef d =>
    cases hrule
    exact .declRef harray
  | paren inner =>
    cases hrule
    exact .paren harray
  | call callee args =>
    rw [hreturn callee type hrule] at harray
    cases harray
  | subscript base index =>
    cases hrule
    rw [CType.isArray_element] at harray
    cases harray
  | unary op operand =>
    cases hrule
    cases op with
    | deref =>
      rw [UnaryOp.typeRule, CType.isArray_element] at harray
      cases harray
    | neg | plus | not | bitNot => cases harray
    | addressOf | preInc | preDec | postInc | postDec => exact .unary nofun rfl
  | binary op lhs rhs =>
    cases hrule
    cases op with
    | assign => exact .assign harray
    | compoundAssign op => exact .compoundAssign
    | arith op =>
      cases op with
      | multiplicative op => cases harray
      | additive op =>
        -- a sum has the type of an operand only if that is a pointer
        simp only [BinaryOp.typeRule] at harray
        split at harray
        · next hl =>
          rw [CType.isArray_eq_false_of_isPointer hl.1] at harray
          cases harray
        · split at harray
          · next hr =>
            rw [CType.isArray_eq_false_of_isPointer hr.1] at harray
            cases harray
          · cases harray
    | comparison _ | logical _ | bitwise _ => cases harray

/-- In every program that a text writes, expressions of array types have these forms. -/
theorem arraysTyped_of_parse (h : parse source = .ok p) : p.ArraysTyped := by
  obtain ⟨stream, -, hreachable⟩ := reachable_of_parse h
  have houtside {e : ExprId} (he : ¬ e.index < p.exprs.size) : p.expr e = default := by
    simp [expr, Array.getD, he]
  constructor
  · intro e harray
    by_cases he : e.index < p.exprs.size
    · rcases hreachable.typed e he with hrule | ⟨-, hwritten⟩
      · exact arrayForm_of_typeRule? hreachable.returnTypes hrule harray
      · rw [hwritten.isArray_eq_false] at harray
        cases harray
    · rw [houtside he] at harray
      cases harray
  · intro e lhs rhs hk
    by_cases he : e.index < p.exprs.size
    · rcases hreachable.typed e he with hrule | ⟨⟨operand, hcast⟩, -⟩
      · rw [hk] at hrule
        rw [← Option.some.inj hrule, BinaryOp.typeRule]
      · cases hk.symm.trans hcast
    · rw [houtside he] at hk
      cases hk

/-- Parentheses around an array can be stripped. -/
theorem ArraysTyped.stripParens (h : p.ArraysTyped) (harray : (p.expr e).type.isArray = true) :
    (p.expr (p.stripParens e)).type.isArray = true := by
  have hwithin (bound : Nat) : (p.expr (p.stripParensWithin bound e)).type.isArray = true := by
    induction bound generalizing e with
    | zero => exact harray
    | succ bound ih =>
      unfold stripParensWithin
      split
      · next inner hk =>
        have hform := h.form harray
        rw [hk] at hform
        cases hform with
        | paren hinner => exact ih hinner
      · exact harray
  exact hwithin _

end Program

/-! ## Arrays in the store -/

namespace ArrayStore

/-- So many arrays can have ids of their own. -/
def idCount : Nat := 2147483648

/-- Every array of the one store is in the other one as well, with its length. -/
def Keeps (store store' : ArrayStore) : Prop :=
  ∀ (k length : Nat), store.lengths[k]? = some length → store'.lengths[k]? = some length

variable {store store' store'' : ArrayStore} {id : Int32} {length : Nat}

theorem Keeps.refl (store : ArrayStore) : store.Keeps store := fun _ _ h => h

/-- Arrays that are kept twice are kept. -/
theorem Keeps.trans (h : store.Keeps store') (h' : store'.Keeps store'') : store.Keeps store'' :=
  fun k length hk => h' k length (h k length hk)

/-- Where all lengths stay the same, all arrays are kept. -/
theorem keeps_of_lengths_eq (h : store'.lengths = store.lengths) : store.Keeps store' :=
  fun _ _ hk => by rwa [h]

/-- The length of an array never changes. -/
theorem Keeps.length? (h : store.Keeps store') (hid : store.length? id = some length) :
    store'.length? id = some length := by
  obtain ⟨k, hk, hlength⟩ := Option.bind_eq_some_iff.1 hid
  exact Option.bind_eq_some_iff.2 ⟨k, hk, h k length hlength⟩

/-- An id of an array stays one. -/
theorem Keeps.isSome (h : store.Keeps store') (hid : (store.length? id).isSome = true) :
    (store'.length? id).isSome = true := by
  obtain ⟨length, hlength⟩ := Option.isSome_iff_exists.1 hid
  rw [h.length? hlength]
  rfl

/-- The number of arrays never goes down. -/
theorem Keeps.size_le (h : store.Keeps store') : store.lengths.size ≤ store'.lengths.size := by
  by_contra hlt
  -- the last length of the one store is not in the other one
  have hlast : store'.lengths.size < store.lengths.size := Nat.lt_of_not_le hlt
  have hkept := h _ _ (Array.getElem?_eq_getElem hlast)
  rw [Array.getElem?_eq_none (Nat.le_refl _)] at hkept
  cases hkept

/-- A new array is the last one. -/
theorem lengths_create (store : ArrayStore) (length scopeDepth : Nat) :
    (store.create length scopeDepth).2.lengths = store.lengths.push length := by
  simp [lengths, create]

/-- Making an array keeps those that there are. -/
theorem keeps_create (store : ArrayStore) (length scopeDepth : Nat) :
    store.Keeps (store.create length scopeDepth).2 := by
  intro k n hk
  obtain ⟨hlt, -⟩ := Array.getElem?_eq_some_iff.1 hk
  rw [lengths_create, Array.getElem?_push_lt hlt, ← hk, Array.getElem?_eq_getElem hlt]

/-- A new array is found under its id, as long as there are ids left. -/
theorem length?_create (length scopeDepth : Nat) (h : store.lengths.size < idCount) :
    (store.create length scopeDepth).2.length?
      (store.create length scopeDepth).1 = some length := by
  have hsize : store.arrays.size = store.lengths.size := by simp [lengths]
  have hint : (Int32.ofNat store.lengths.size).toInt = store.lengths.size :=
    Int32.toInt_ofNat_of_lt h
  have hid : Word.toNat? (store.create length scopeDepth).1 = some store.lengths.size := by
    rw [create, hsize, Word.toNat?, hint, if_pos (Int.natCast_nonneg _), Int.toNat_natCast]
  rw [length?, hid, Option.bind_some, lengths_create, Array.getElem?_push_size]

end ArrayStore

/-! ## Values that fit -/

/-- What has an array type holds the id of an array, and unless it is a parameter, that of an array
with the length in its type. -/
def Decl.ArrayFits (decl : Decl) (store : ArrayStore) (value : Int32) : Prop :=
  ∀ length ∈ decl.type.length?, (store.length? value).isSome = true ∧
    (decl.storage? ≠ some .param → store.length? value = some length)

instance (decl : Decl) (store : ArrayStore) (value : Int32) :
    Decidable (decl.ArrayFits store value) :=
  inferInstanceAs (Decidable (∀ length ∈ decl.type.length?, _ ∧ (_ ≠ _ → _ = _)))

namespace Decl

variable {decl : Decl} {store store' : ArrayStore} {value : Int32}

/-- What fits the arrays still fits when there are more of them. -/
theorem ArrayFits.keeps (h : decl.ArrayFits store value) (hkeeps : store.Keeps store') :
    decl.ArrayFits store' value := by
  intro length hlength
  obtain ⟨hsome, hexact⟩ := h length hlength
  exact ⟨hkeeps.isSome hsome, fun hstorage => hkeeps.length? (hexact hstorage)⟩

/-- What is no array may have any value. -/
theorem arrayFits_of_isArray_eq_false (h : decl.type.isArray = false) :
    decl.ArrayFits store value := by
  intro length hlength
  rw [CType.isArray_iff.2 ⟨length, hlength⟩] at h
  cases h

/-- A variable of an array type has the id of an array. -/
theorem ArrayFits.isSome (h : decl.ArrayFits store value) (harray : decl.type.isArray = true) :
    (store.length? value).isSome = true := by
  obtain ⟨length, hlength⟩ := CType.isArray_iff.1 harray
  exact (h length hlength).1

end Decl

/-! ## Frames -/

namespace Frame

/-- The variables of a frame that have array types hold ids of arrays. -/
def VariablesFit (p : Program) (store : ArrayStore) (frame : Frame) : Prop :=
  ∀ d value, frame.decl? d = some value → (p.decl d).ArrayFits store value

/-- So do the expressions of array types that have values. -/
def ValuesFit (p : Program) (store : ArrayStore) (frame : Frame) : Prop :=
  ∀ e value, frame.expr? e = some value → (p.expr e).type.isArray = true →
    (store.length? value).isSome = true

/-- Variables and expressions of array types hold ids of arrays. -/
structure Fits (p : Program) (store : ArrayStore) (frame : Frame) : Prop where
  decls : frame.VariablesFit p store
  exprs : frame.ValuesFit p store

variable {p : Program} {store store' : ArrayStore} {frame : Frame} {d : DeclId}
    {e : ExprId} {value : Int32}

/-- The variables of a frame still fit when there are more arrays. -/
theorem VariablesFit.keeps (h : frame.VariablesFit p store) (hkeeps : store.Keeps store') :
    frame.VariablesFit p store' :=
  fun d value hd => (h d value hd).keeps hkeeps

/-- A frame still fits when there are more arrays. -/
theorem Fits.keeps (h : frame.Fits p store) (hkeeps : store.Keeps store') : frame.Fits p store' :=
  ⟨h.decls.keeps hkeeps, fun e value he harray => hkeeps.isSome (h.exprs e value he harray)⟩

/-- A new frame has nothing that has to fit. -/
theorem fits_empty (function : Option DeclId) : (empty function).Fits p store :=
  ⟨fun d value hd => by simp at hd, fun e value he => by simp at he⟩

theorem Fits.focusOn (h : frame.Fits p store) (focus : Focus) :
    (frame.focusOn focus).Fits p store :=
  ⟨h.decls, h.exprs⟩

/-- A variable may be given a value that fits its type. -/
theorem Fits.bindDecl (h : frame.Fits p store) (hd : (p.decl d).ArrayFits store value) :
    (frame.bindDecl d value).Fits p store := by
  refine ⟨fun d' value' hd' => ?_, h.exprs⟩
  rw [decl?_bindDecl] at hd'
  split at hd'
  · next heq =>
    cases hd'
    exact heq ▸ hd
  · exact h.decls d' value' hd'

/-- An expression of an array type may be given the id of an array. -/
theorem Fits.bindExpr (h : frame.Fits p store)
    (he : (p.expr e).type.isArray = true → (store.length? value).isSome = true) :
    (frame.bindExpr e value).Fits p store := by
  refine ⟨h.decls, fun e' value' he' => ?_⟩
  rw [expr?_bindExpr] at he'
  split at he'
  · next heq =>
    cases he'
    exact heq ▸ he
  · exact h.exprs e' value' he'

/-- What is asked of the variables of a frame is asked of each of its bindings. -/
theorem variablesFit_iff_forall_mem :
    frame.VariablesFit p store ↔ ∀ binding ∈ frame.decls.toList,
      (p.decl ⟨binding.1⟩).ArrayFits store binding.2 := by
  constructor
  · intro h binding hb
    exact h ⟨binding.1⟩ binding.2 (Std.TreeMap.mem_toList_iff_getElem?_eq_some.1 hb)
  · intro h d value hd
    exact h (d.index, value) (Std.TreeMap.mem_toList_iff_getElem?_eq_some.2 hd)

/-- What is asked of the expressions of a frame is asked of each of its bindings. -/
theorem valuesFit_iff_forall_mem :
    frame.ValuesFit p store ↔ ∀ binding ∈ frame.exprs.toList,
      (p.expr ⟨binding.1⟩).type.isArray = true → (store.length? binding.2).isSome = true := by
  constructor
  · intro h binding hb
    exact h ⟨binding.1⟩ binding.2 (Std.TreeMap.mem_toList_iff_getElem?_eq_some.1 hb)
  · intro h e value he
    exact h (e.index, value) (Std.TreeMap.mem_toList_iff_getElem?_eq_some.2 he)

instance : Decidable (frame.Fits p store) :=
  decidable_of_iff
    ((∀ binding ∈ frame.decls.toList, (p.decl ⟨binding.1⟩).ArrayFits store binding.2) ∧
      ∀ binding ∈ frame.exprs.toList,
        (p.expr ⟨binding.1⟩).type.isArray = true → (store.length? binding.2).isSome = true)
    ⟨fun h => ⟨variablesFit_iff_forall_mem.2 h.1, valuesFit_iff_forall_mem.2 h.2⟩,
      fun h => ⟨variablesFit_iff_forall_mem.1 h.decls, valuesFit_iff_forall_mem.1 h.exprs⟩⟩

end Frame

/-! ## Stacks and states -/

namespace CallStack

/-- All frames: those of the active calls, the latest first, and that of the file. -/
def frames (stack : CallStack) : List Frame := stack.calls ++ [stack.global]

variable {stack : CallStack} {P : Frame → Prop}

/-- All frames are those of the calls and that of the file. -/
theorem forall_frames :
    (∀ frame ∈ stack.frames, P frame) ↔ (∀ frame ∈ stack.calls, P frame) ∧ P stack.global := by
  simp only [frames, List.forall_mem_append, List.forall_mem_singleton]

/-- The top frame is one of all. -/
theorem top_of_forall_frames (h : ∀ frame ∈ stack.frames, P frame) : P stack.top := by
  obtain ⟨hcalls, hglobal⟩ := forall_frames.1 h
  rcases stack with ⟨_ | ⟨frame, _⟩, _⟩
  · exact hglobal
  · exact hcalls frame (by simp)

/-- If the top frame is changed, only the change has to be looked at. -/
theorem forall_frames_modifyTop (h : ∀ frame ∈ stack.frames, P frame) {f : Frame → Frame}
    (hf : P (f stack.top)) :
    ∀ frame ∈ (stack.modifyTop f).frames, P frame := by
  obtain ⟨hcalls, hglobal⟩ := forall_frames.1 h
  rw [forall_frames]
  rcases stack with ⟨_ | ⟨_, callers⟩, _⟩
  · exact ⟨nofun, hf⟩
  · exact ⟨List.forall_mem_cons.2 ⟨hf, (List.forall_mem_cons.1 hcalls).2⟩, hglobal⟩

/-- The same of the frame of the file. -/
theorem forall_frames_modifyGlobal (h : ∀ frame ∈ stack.frames, P frame) {f : Frame → Frame}
    (hf : P (f stack.global)) : ∀ frame ∈ (stack.modifyGlobal f).frames, P frame :=
  forall_frames.2 ⟨(forall_frames.1 h).1, hf⟩

/-- A frame that is removed leaves the other ones. -/
theorem forall_frames_pop (h : ∀ frame ∈ stack.frames, P frame) :
    ∀ frame ∈ stack.pop.2.frames, P frame := by
  obtain ⟨hcalls, hglobal⟩ := forall_frames.1 h
  rw [forall_frames]
  rcases stack with ⟨_ | ⟨_, callers⟩, _⟩
  · exact ⟨nofun, hglobal⟩
  · exact ⟨(List.forall_mem_cons.1 hcalls).2, hglobal⟩

end CallStack

namespace State

variable {κ : Type}

/-- While arrays have ids of their own, variables of array types hold ids of arrays, in every
frame. -/
def VariablesFit (p : Program) (s : State κ) : Prop :=
  s.arrays.lengths.size < ArrayStore.idCount →
    ∀ frame ∈ s.stack.frames, frame.VariablesFit p s.arrays

/-- So do the expressions of array types that have values. -/
def ArraysFit (p : Program) (s : State κ) : Prop :=
  s.arrays.lengths.size < ArrayStore.idCount → ∀ frame ∈ s.stack.frames, frame.Fits p s.arrays

variable {p : Program} {s t : State κ}

instance : Decidable (s.ArraysFit p) :=
  inferInstanceAs (Decidable (_ < _ → ∀ frame ∈ s.stack.frames, frame.Fits p s.arrays))

theorem ArraysFit.variablesFit (h : s.ArraysFit p) : s.VariablesFit p :=
  fun hsize frame hframe => (h hsize frame hframe).decls

/-- At first no frame has values. -/
theorem arraysFit_initial (image : Image) (console : κ) : (initial image console).ArraysFit p := by
  intro _ frame hframe
  obtain rfl : frame = .empty none := by
    simpa [initial, CallStack.frames, CallStack.empty] using hframe
  exact Frame.fits_empty none

end State

end MiniC
