import MiniC.Proofs.DirectEvaluation
import MiniC.Proofs.FrameEffect
import MiniC.Proofs.ParsedProgram

/-!
# Simulation by the direct evaluator

Forgetting the tables of values relates the states of the interpreter and of the direct evaluator
(`State.forget`). Computations simulate each other (`Run.Simulates`) if from related states both end
with results, or both halt for the same reason, in related states. An expression that never has a
value is never bound in a frame (`Run.Quiet`), and every operation whose operands are bound to what
the direct evaluator hands over is simulated and binds its own result (`Run.Bound`).
-/

set_option autoImplicit false

namespace MiniC

/-! ## Forgetting tables and places -/

/-- A frame without its table of values. -/
def Frame.forget (frame : Frame) : Direct.Activation := ⟨frame.function, frame.decls⟩

/-- A state without tables of values. -/
def State.forget {κ : Type} (s : State κ) : Direct.State κ where
  calls := s.stack.calls.map Frame.forget
  global := s.stack.global.forget
  heap := s.heap
  arrays := s.arrays
  console := s.console
  diagnostics := s.diagnostics

/-- A reason to halt without its place. -/
def Halt.forget : Halt → Direct.Halt
  | error (.fault cause _) => .fault cause
  | error .noEntryFunction => .noEntryFunction
  | outOfFuel => .outOfFuel

namespace Run

variable {κ α β γ δ : Type}

/-! ## Computations that end alike -/

/-- From `s`, and from `s` without its tables, the computations end alike: both with results that
satisfy `Q`, or for the same reason. -/
def Simulates (x : Run κ α) (y : Direct.Exec κ β) (s : State κ) (Q : α → β → State κ → Prop) :
    Prop :=
  match x s, y s.forget with
  | .ok a t, .ok b u => t.forget = u ∧ Q a b t
  | .error h t, .error h' u => h.forget = h' ∧ t.forget = u
  | _, _ => False

variable {s : State κ} {x : Run κ α} {y : Direct.Exec κ β} {Q : α → β → State κ → Prop}

/-- A simulation may be said to give less. -/
theorem Simulates.mono {Q' : α → β → State κ → Prop} (h : Simulates x y s Q)
    (hQ : ∀ a b t, Q a b t → Q' a b t) : Simulates x y s Q' := by
  unfold Simulates at h ⊢
  split at h
  · exact ⟨h.1, hQ _ _ _ h.2⟩
  · exact h
  · exact h

/-- What is known of the first computation alone may be added. -/
theorem Simulates.ensuring {R : α → State κ → Prop} {E : Halt → State κ → Prop}
    (h : Simulates x y s Q) (hx : Ensures x s R E) :
    Simulates x y s fun a b t => Q a b t ∧ R a t := by
  unfold Simulates at h ⊢
  split at h
  · next hs _ => exact ⟨h.1, h.2, hx.of_ok hs⟩
  · exact h
  · exact h

/-- Simulations follow one another, each from where the one before has come to. -/
theorem simulates_bind {f : α → Run κ γ} {g : β → Direct.Exec κ δ} {R : γ → δ → State κ → Prop}
    (h : Simulates x y s Q) (hf : ∀ a b t, Q a b t → Simulates (f a) (g b) t R) :
    Simulates (x >>= f) (y >>= g) s R := by
  unfold Simulates at h ⊢
  change match EStateM.bind x f s, EStateM.bind y g s.forget with
    | .ok a t, .ok b u => t.forget = u ∧ R a b t
    | .error h t, .error h' u => h.forget = h' ∧ t.forget = u
    | _, _ => False
  unfold EStateM.bind
  generalize x s = r, y s.forget = r' at h ⊢
  rcases r with ⟨a, t⟩ | ⟨h₁, t⟩ <;> rcases r' with ⟨b, u⟩ | ⟨h₂, u⟩
  · obtain ⟨rfl, hQ⟩ := h
    exact hf a b t hQ
  · exact h.elim
  · exact h.elim
  · exact h

/-- The direct evaluator may go on to an answer of another form. -/
theorem Simulates.map {g : β → δ} {R : α → δ → State κ → Prop} (h : Simulates x y s Q)
    (hR : ∀ a b t, Q a b t → R a (g b) t) : Simulates x (y >>= fun b => pure (g b)) s R := by
  rw [← bind_pure x]
  exact simulates_bind h fun a b t hab => ⟨rfl, hR a b t hab⟩

theorem simulates_pure {a : α} {b : β} (h : Q a b s) : Simulates (pure a) (pure b) s Q := ⟨rfl, h⟩

/-- A computation that halts is simulated by one that halts for what is left of the reason. -/
theorem simulates_throw {h : Halt} {h' : Direct.Halt} (hh : h.forget = h') :
    Simulates (throw h) (throw h') s Q := ⟨hh, rfl⟩

/-- A fault is simulated without its place. -/
theorem simulates_fault {cause : RuntimeFault} {loc : Location} :
    Simulates (fault cause loc) (Direct.fault cause) s Q := ⟨rfl, rfl⟩

theorem simulates_faultHere {image : Image} {cause : RuntimeFault} :
    Simulates (faultHere image cause) (Direct.fault cause) s Q := ⟨rfl, rfl⟩

/-- What is read of a state is what is left of it when its tables are forgotten. -/
theorem simulates_get_bind {f : State κ → Run κ α} {g : Direct.State κ → Direct.Exec κ β}
    (h : Simulates (f s) (g s.forget) s Q) : Simulates (get >>= f) (get >>= g) s Q := h

/-- A change of the state may be simulated by what it does to the rest of the state. -/
theorem simulates_modify {f : State κ → State κ} {g : Direct.State κ → Direct.State κ}
    {Q : PUnit → PUnit → State κ → Prop} (hf : (f s).forget = g s.forget) (hQ : Q ⟨⟩ ⟨⟩ (f s)) :
    Simulates (modify f) (modify g) s Q := ⟨hf, hQ⟩

theorem simulates_set {t : State κ} {u : Direct.State κ} {Q : PUnit → PUnit → State κ → Prop}
    (hu : t.forget = u) (hQ : Q ⟨⟩ ⟨⟩ t) : Simulates (set t) (set u) s Q := ⟨hu, hQ⟩

/-- A change of tables and focuses has no counterpart. -/
theorem simulates_modifyStack_bind {f : CallStack → CallStack} {g : Unit → Run κ α}
    (hf : ({ s with stack := f s.stack } : State κ).forget = s.forget)
    (h : Simulates (g ()) y { s with stack := f s.stack } Q) :
    Simulates (modifyStack f >>= g) y s Q := by
  unfold Simulates at h
  rw [hf] at h
  exact h

theorem simulates_modifyStack {f : CallStack → CallStack} {b : β} {Q : Unit → β → State κ → Prop}
    (hf : ({ s with stack := f s.stack } : State κ).forget = s.forget)
    (hQ : Q () b { s with stack := f s.stack }) : Simulates (modifyStack f) (pure b) s Q := ⟨hf, hQ⟩

end Run

/-! ## Frames without their tables -/

namespace State

variable {κ : Type} (s : State κ)

/-- The top frame without its table is the top frame of the state without tables. -/
theorem top_forget : s.forget.top = s.stack.top.forget := by
  rcases s with ⟨⟨_ | _, _⟩, _⟩ <;> rfl

/-- A change of the top frame that keeps its variables is forgotten. -/
theorem forget_modifyTop_of_eq {f : Frame → Frame} (hf : ∀ frame, (f frame).forget = frame.forget) :
    ({ s with stack := s.stack.modifyTop f } : State κ).forget = s.forget := by
  rcases s with ⟨⟨_ | _, _⟩, _⟩ <;> simp [forget, CallStack.modifyTop, hf]

theorem forget_declare (d : DeclId) (value : Int32) :
    ({ s with stack := s.stack.modifyTop (·.bindDecl d value) } : State κ).forget =
      s.forget.modifyTop (·.bindDecl d value) := by
  rcases s with ⟨⟨_ | _, _⟩, _⟩ <;> rfl

end State

/-! ## Expressions without values -/

/-- The expression is the target of an assignment, which gives it a value. -/
def Program.IsTarget (p : Program) (e : ExprId) : Prop :=
  ∃ f op rhs, op.isAssignment = true ∧ (p.expr f).kind = .binary op e rhs

/-- Evaluating the expression gives no value. -/
def Image.Valueless (image : Image) (e : ExprId) : Prop :=
  match (image.program.expr e).kind with
  | .call callee _ => image.builtin? callee = some .print ∨ image.builtin? callee = some .free
  | .cast _ => (image.typeOf e).isVoid = true
  | _ => False

/-- The expression may have a value in a frame. -/
def Image.Bindable (image : Image) (e : ExprId) : Prop :=
  image.Valueless e → image.program.IsTarget e

/-- Only expressions that may have one have a value. -/
def Frame.Quiet (image : Image) (frame : Frame) : Prop :=
  ∀ e, (frame.expr? e).isSome → image.Bindable e

/-- The same in all frames. -/
structure CallStack.Quiet (image : Image) (stack : CallStack) : Prop where
  global : stack.global.Quiet image
  calls : ∀ frame ∈ stack.calls, frame.Quiet image

section Quiet

variable {image : Image} {stack : CallStack}

/-- A new frame has no values at all. -/
theorem Frame.quiet_empty (function : Option DeclId) : (Frame.empty function).Quiet image := by
  intro e he
  simp at he

/-- A frame stays quiet as long as only expressions that may be bound are bound. -/
theorem Frame.Quiet.bindExpr {frame : Frame} (h : frame.Quiet image) {e : ExprId}
    (he : image.Bindable e) (value : Int32) : (frame.bindExpr e value).Quiet image := by
  intro e' he'
  rw [expr?_bindExpr] at he'
  split at he'
  · next heq => exact heq ▸ he
  · exact h e' he'

theorem CallStack.Quiet.top (h : stack.Quiet image) : stack.top.Quiet image := by
  rcases stack with ⟨_ | ⟨frame, callers⟩, global⟩
  · exact h.global
  · exact h.calls frame (by simp)

/-- A stack stays quiet as long as its top frame does. -/
theorem CallStack.Quiet.modifyTop (h : stack.Quiet image) {f : Frame → Frame}
    (hf : (f stack.top).Quiet image) : (stack.modifyTop f).Quiet image := by
  rcases stack with ⟨_ | ⟨frame, callers⟩, global⟩
  · exact ⟨hf, nofun⟩
  · exact ⟨h.global, List.forall_mem_cons.2 ⟨hf, fun g hg => h.calls g (by simp [hg])⟩⟩

theorem CallStack.Quiet.focusOn (h : stack.Quiet image) (focus : Focus) :
    (stack.modifyTop (·.focusOn focus)).Quiet image := h.modifyTop h.top

theorem CallStack.expr?_focusOn (stack : CallStack) (focus : Focus) (e : ExprId) :
    (stack.modifyTop (·.focusOn focus)).top.expr? e = stack.top.expr? e := by
  rw [top_modifyTop, Frame.expr?_focusOn]

theorem CallStack.Quiet.bindExpr (h : stack.Quiet image) {e : ExprId} (he : image.Bindable e)
    (value : Int32) : (stack.modifyTop (·.bindExpr e value)).Quiet image :=
  h.modifyTop (h.top.bindExpr he value)

theorem CallStack.Quiet.push (h : stack.Quiet image) (function : DeclId) :
    (stack.push function).Quiet image :=
  ⟨h.global, List.forall_mem_cons.2 ⟨Frame.quiet_empty _, h.calls⟩⟩

/-- The frames of the callers are quiet as well. -/
theorem CallStack.Quiet.pop (h : stack.Quiet image) : stack.pop.2.Quiet image := by
  rcases stack with ⟨_ | ⟨frame, callers⟩, global⟩
  · exact h
  · exact ⟨h.global, fun g hg => h.calls g (List.mem_cons_of_mem _ hg)⟩

/-- A node without a value that no assignment targets has none in a frame either. -/
theorem CallStack.Quiet.expr?_eq_none (h : stack.Quiet image) {e : ExprId}
    (he : ¬ image.Bindable e) :
    stack.top.expr? e = none := by
  cases hv : stack.top.expr? e with
  | none => rfl
  | some v => exact absurd (h.top e (by simp [hv])) he

end Quiet

/-! ## Operations -/

namespace Run

variable {κ α β : Type} {image : Image} {s : State κ} {e operand lhs rhs : ExprId}
  {v l r : Option Int32}

/-- The node has the value that the direct evaluator answers with. -/
def Bound (image : Image) (e : ExprId) (_ : Unit) (v : Int32) (t : State κ) : Prop :=
  t.stack.Quiet image ∧ t.stack.top.expr? e = some v

/-- Both computations answer alike and the first has changed nothing. -/
def Same (s : State κ) (a b : α) (t : State κ) : Prop := a = b ∧ t = s

/-- Turning to a node is simulated by doing nothing. -/
theorem simulates_focusOn {focus : Focus} {g : Unit → Run κ α} {y : Direct.Exec κ β}
    {Q : α → β → State κ → Prop}
    (h : Simulates (g ()) y { s with stack := s.stack.modifyTop (·.focusOn focus) } Q) :
    Simulates (focusOn focus >>= g) y s Q :=
  simulates_modifyStack_bind (s.forget_modifyTop_of_eq fun _ => rfl) h

/-- Binding a value to an expression is simulated by returning the value. -/
theorem simulates_bindExpr (hs : s.stack.Quiet image) (he : image.Bindable e) (value : Int32) :
    Simulates (bindExpr e value) (pure value) s (Bound image e) := by
  refine simulates_modifyStack (s.forget_modifyTop_of_eq fun _ => rfl) ⟨hs.bindExpr he value, ?_⟩
  simp [Frame.expr?_bindExpr]

/-- An answer of both evaluators that is then bound by the first. -/
theorem Simulates.bindExpr {x : Run κ Int32} {y : Direct.Exec κ Int32}
    (h : Simulates x y s (Same s)) (hs : s.stack.Quiet image) (he : image.Bindable e) :
    Simulates (x >>= Run.bindExpr e) y s (Bound image e) := by
  rw [← bind_pure y]
  refine simulates_bind h fun a b t hab => ?_
  obtain ⟨rfl, rfl⟩ := hab
  exact simulates_bindExpr hs he a

theorem simulates_orFault (answer : Except MemoryFault α) :
    Simulates (orFault image answer) (Direct.orFault answer) s (Same s) := by
  cases answer with
  | ok a => exact simulates_pure ⟨rfl, rfl⟩
  | error f => exact simulates_faultHere

/-- A value that was handed over takes the place of the one in the table. -/
theorem simulates_valueOf (h : s.stack.top.expr? operand = v) :
    Simulates (valueOf image operand) (Direct.valueOf operand v) s (Same s) := by
  cases v with
  | none =>
    refine simulates_get_bind (g := fun _ => Direct.valueOf operand none) ?_
    rw [Frame.expr_of_expr?_none h]
    exact simulates_faultHere
  | some value =>
    refine simulates_get_bind (g := fun _ => Direct.valueOf operand (some value)) ?_
    rw [Frame.expr_of_expr? h]
    exact simulates_pure ⟨rfl, rfl⟩

theorem simulates_valueOfDecl (d : DeclId) :
    Simulates (valueOfDecl image d) (Direct.valueOfDecl image d) s (Same s) := by
  refine simulates_get_bind ?_
  have htop : s.forget.top.decl? d = s.stack.top.decl? d := by
    rw [State.top_forget]
    rfl
  have hglobal : s.forget.global.decl? d = s.stack.global.decl? d := rfl
  rw [htop, hglobal]
  dsimp only
  cases (s.stack.top.decl? d).or (s.stack.global.decl? d) with
  | none => exact simulates_faultHere
  | some value => exact simulates_pure ⟨rfl, rfl⟩

theorem simulates_checkConversion (expected : CType) (source : ExprId) :
    Simulates (checkConversion image expected source)
      (Direct.checkConversion image expected source) s (Same s) := by
  unfold checkConversion Direct.checkConversion
  dsimp only
  split
  · exact simulates_fault
  · exact simulates_pure ⟨rfl, rfl⟩

theorem simulates_checkArity (function : String) (expected got : Nat) :
    Simulates (checkArity image function expected got) (Direct.checkArity function expected got) s
      fun _ _ t => expected = got ∧ t = s := by
  unfold checkArity Direct.checkArity
  split
  · exact simulates_faultHere
  · next h => exact simulates_pure ⟨Decidable.not_not.1 h, rfl⟩

theorem simulates_load (place : Place) :
    Simulates (load image place) (Direct.load place) s (Same s) := by
  refine simulates_get_bind ?_
  cases place <;> exact simulates_orFault _

theorem simulates_elementPlace {base index : ExprId} {b i : Option Int32}
    (hb : s.stack.top.expr? base = b) (hi : s.stack.top.expr? index = i) :
    Simulates (elementPlace image base index)
      (Direct.elementPlace image base index b i) s (Same s) := by
  refine simulates_bind (simulates_valueOf hb) fun start _ t h => ?_
  obtain ⟨rfl, rfl⟩ := h
  refine simulates_bind (simulates_valueOf hi) fun offset _ t h => ?_
  obtain ⟨rfl, rfl⟩ := h
  exact simulates_pure ⟨rfl, rfl⟩

/-- What is stored outside the frames leaves the tables alone. -/
theorem simulates_store (place : Place) (value : Int32) :
    Simulates (store image place value) (Direct.store place value) s fun _ _ t =>
      t.stack = s.stack := by
  refine simulates_get_bind ?_
  cases place with
  | heap address =>
    refine simulates_bind (simulates_orFault _) fun heap _ t h => ?_
    obtain ⟨rfl, rfl⟩ := h
    exact simulates_set rfl rfl
  | array id index =>
    refine simulates_bind (simulates_orFault _) fun arrays _ t h => ?_
    obtain ⟨rfl, rfl⟩ := h
    exact simulates_set rfl rfl

/-- Declaring a variable touches the same frame in both. -/
theorem simulates_declare (d : DeclId) (value : Int32) :
    Simulates (declare d value) (Direct.declare d value) s fun _ _ t =>
      t.stack = s.stack.modifyTop (·.bindDecl d value) :=
  simulates_modify (f := fun s => { s with stack := s.stack.modifyTop (·.bindDecl d value) })
    (s.forget_declare d value) rfl

/-- Assigning to a variable leaves the tables alone. -/
theorem simulates_assignDecl (d : DeclId) (value : Int32) (hs : s.stack.Quiet image) :
    Simulates (assignDecl d value) (Direct.assignDecl d value) s fun _ _ t =>
      t.stack.Quiet image ∧ ∀ e, t.stack.top.expr? e = s.stack.top.expr? e := by
  have hheld : s.forget.top.decl? d = s.stack.top.decl? d := by
    rw [State.top_forget]
    rfl
  unfold assignDecl Direct.assignDecl modifyStack
  refine simulates_modify ?_ ?_
  · dsimp only
    rw [hheld]
    split
    · exact s.forget_declare d value
    · rfl
  · dsimp only
    split
    · exact ⟨hs.modifyTop (hs.top), fun e => by simp⟩
    · refine ⟨⟨hs.global, hs.calls⟩, fun e => ?_⟩
      rcases s with ⟨⟨_ | _, _⟩, _⟩ <;> rfl

variable [Console κ]

/-- A construct without a meaning is reported by both, with the value zero. -/
theorem simulates_report (hs : s.stack.Quiet image) (he : image.Bindable e)
    (construct : Unsupported) :
    Simulates (report image e construct) (Direct.report image e construct) s (Bound image e) := by
  unfold report Direct.report
  dsimp only
  split
  · exact simulates_fault
  · refine simulates_bind (simulates_modify (Q := fun _ _ t => t.stack = s.stack) rfl rfl)
      fun _ _ t h => ?_
    exact simulates_bindExpr (h ▸ hs) he 0

theorem simulates_reference (hs : s.stack.Quiet image) (he : image.Bindable e) (d : DeclId) :
    Simulates (reference image e d) (Direct.reference image e d) s (Bound image e) := by
  unfold reference Direct.reference
  dsimp only
  cases (image.program.decl d).kind with
  | «variable» type _ _ =>
    dsimp only
    split
    · exact (simulates_valueOfDecl d).bindExpr hs he
    · exact simulates_report hs he _
  | function _ _ _ =>
    dsimp only
    split
    · exact simulates_bindExpr hs he 0
    · exact simulates_report hs he _

omit [Console κ] in
theorem simulates_sizeOf (hs : s.stack.Quiet image) (he : image.Bindable e) (type : CType) :
    Simulates (sizeOf image e type) (Direct.sizeOf type) s (Bound image e) := by
  unfold sizeOf Direct.sizeOf
  split
  · exact simulates_bindExpr hs he _
  · split
    · exact simulates_bindExpr hs he _
    · exact simulates_fault

omit [Console κ] in
/-- An element is read through the values of base and index that were handed over. -/
theorem simulates_subscript (hs : s.stack.Quiet image) (he : image.Bindable e) {base index : ExprId}
    {b i : Option Int32} (hb : s.stack.top.expr? base = b) (hi : s.stack.top.expr? index = i) :
    Simulates (subscript image e base index)
      (Direct.elementPlace image base index b i >>= Direct.load) s (Bound image e) := by
  refine simulates_bind (simulates_elementPlace hb hi) fun place _ t h => ?_
  obtain ⟨rfl, rfl⟩ := h
  exact (simulates_load place).bindExpr hs he

/-- A unary operator gets the value of its operand handed over. -/
theorem simulates_unary (hs : s.stack.Quiet image) (he : image.Bindable e) (op : UnaryOp)
    (hv : s.stack.top.expr? operand = v) :
    Simulates (unary image e op operand) (Direct.unary image e op operand v) s (Bound image e) := by
  cases op with
  | deref =>
    refine simulates_bind (simulates_valueOf hv) fun address _ t h => ?_
    obtain ⟨rfl, rfl⟩ := h
    exact (simulates_load (.heap address)).bindExpr hs he
  | neg | plus | not | bitNot =>
    refine simulates_bind (simulates_valueOf hv) fun value _ t h => ?_
    obtain ⟨rfl, rfl⟩ := h
    exact simulates_bindExpr hs he _
  | preInc | preDec | postInc | postDec | addressOf => exact simulates_report hs he _

omit [Console κ] in
/-- An arithmetic operator gets the values of its operands handed over. -/
theorem simulates_arith (hs : s.stack.Quiet image) (he : image.Bindable e) (op : ArithOp)
    (hl : s.stack.top.expr? lhs = l) (hr : s.stack.top.expr? rhs = r) :
    Simulates (arith image e op lhs rhs) (Direct.arith image op lhs rhs l r) s (Bound image e) := by
  refine simulates_bind (simulates_valueOf hl) fun a _ t h => ?_
  obtain ⟨rfl, rfl⟩ := h
  refine simulates_bind (simulates_valueOf hr) fun b _ t h => ?_
  obtain ⟨rfl, rfl⟩ := h
  cases op with
  | additive op =>
    dsimp only
    cases op.value? (image.typeOf lhs).isPointer (image.typeOf rhs).isPointer a b with
    | some value => exact simulates_bindExpr hs he value
    | none => exact simulates_fault
  | multiplicative op =>
    dsimp only
    cases op.value? a b with
    | some value => exact simulates_bindExpr hs he value
    | none => exact simulates_fault

/-- Every operator but an assignment gets the values of its operands handed over. -/
theorem simulates_binary (hs : s.stack.Quiet image) (he : image.Bindable e) {op : BinaryOp}
    (hop : op.isAssignment = false) (hl : s.stack.top.expr? lhs = l)
    (hr : s.stack.top.expr? rhs = r) :
    Simulates (binary image e op lhs rhs) (Direct.binary image e op lhs rhs l r) s
      (Bound image e) := by
  cases op with
  | arith op => exact simulates_arith hs he op hl hr
  | comparison op =>
    refine simulates_bind (simulates_valueOf hl) fun a _ t h => ?_
    obtain ⟨rfl, rfl⟩ := h
    refine simulates_bind (simulates_valueOf hr) fun b _ t h => ?_
    obtain ⟨rfl, rfl⟩ := h
    exact simulates_bindExpr hs he _
  | logical _ | bitwise _ => exact simulates_report hs he _
  | assign | compoundAssign _ => cases hop

/-! ## Assignments -/

/-- A stripped target lies where the direct evaluator says, whose parts are bound to what it
found. -/
def Located (image : Image) (target : ExprId) (s : State κ) : Direct.Target → Prop
  | .name d => (image.program.expr target).kind = .declRef d
  | .pointee operand v =>
    (image.program.expr target).kind = .unary .deref operand ∧ s.stack.top.expr? operand = v
  | .element base index b i =>
    (image.program.expr target).kind = .subscript base index ∧
      s.stack.top.expr? base = b ∧ s.stack.top.expr? index = i
  | .unsupported =>
    (∀ d, (image.program.expr target).kind ≠ .declRef d) ∧
      (∀ operand, (image.program.expr target).kind ≠ .unary .deref operand) ∧
      ∀ base index, (image.program.expr target).kind ≠ .subscript base index

/-- An assignment writes to the place that its target was located at before. -/
theorem simulates_assignTarget (hs : s.stack.Quiet image) (he : image.Bindable e) {target : ExprId}
    {value : Int32} (hv : s.stack.top.expr? e = some value) {place : Direct.Target}
    (hplace : Located image target s place) :
    Simulates (assignTarget image e target value) (Direct.assignTarget image e value place) s
      (Bound image e) := by
  unfold assignTarget
  cases place with
  | name d =>
    -- a target that is located as a name is a name, which is read off the node again
    rw [show (image.program.expr target).kind = .declRef d from hplace]
    unfold Direct.assignTarget
    dsimp only
    cases (image.program.decl d).kind with
    | function _ _ _ => exact simulates_report hs he _
    | «variable» type _ _ =>
      dsimp only
      split
      · exact simulates_report hs he _
      · exact (simulates_assignDecl d value hs).map fun _ _ t ht => ⟨ht.1, (ht.2 e).trans hv⟩
  | pointee operand v =>
    obtain ⟨hk, hoperand⟩ := hplace
    rw [hk]
    refine simulates_bind (simulates_valueOf hoperand) fun address _ t h => ?_
    obtain ⟨rfl, rfl⟩ := h
    exact (simulates_store _ value).map fun _ _ u hu => ⟨hu ▸ hs, hu ▸ hv⟩
  | element base index b i =>
    obtain ⟨hk, hb, hi⟩ := hplace
    rw [hk]
    refine simulates_bind (simulates_elementPlace hb hi) fun place _ t h => ?_
    obtain ⟨rfl, rfl⟩ := h
    exact (simulates_store _ value).map fun _ _ u hu => ⟨hu ▸ hs, hu ▸ hv⟩
  | unsupported =>
    obtain ⟨hdecl, hderef, hsubscript⟩ := hplace
    -- all other forms of targets would have been located
    split
    · next hk => exact absurd hk (hdecl _)
    · next hk => exact absurd hk (hderef _)
    · next hk => exact absurd hk (hsubscript _ _)
    · exact simulates_report hs he _

omit [Console κ] in
/-- A target stays located while the values of its parts are kept. -/
theorem Located.of_expr?_eq {target : ExprId} {t : State κ} {place : Direct.Target}
    (h : Located image target s place)
    (ht : ∀ c ∈ image.program.operands target, t.stack.top.expr? c = s.stack.top.expr? c) :
    Located image target t place := by
  cases place with
  | name d => exact h
  | pointee operand v =>
    refine ⟨h.1, (ht operand ?_).trans h.2⟩
    simp [Program.operands, h.1, ExprKind.operands]
  | element base index b i =>
    refine ⟨h.1, (ht base ?_).trans h.2.1, (ht index ?_).trans h.2.2⟩ <;>
      simp [Program.operands, h.1, ExprKind.operands]
  | unsupported => exact h

/-- The target's node gets the value before the parts of the target are read, which are other
nodes. -/
theorem simulates_assign (hs : s.stack.Quiet image) (he : image.Bindable e)
    (hlhs : image.Bindable lhs)
    {op : BinaryOp} (hop : op.isAssignment = true) (hr : s.stack.top.expr? rhs = r)
    {place : Direct.Target} (hplace : Located image (image.program.stripParens lhs) s place)
    (hother : ∀ c ∈ image.program.operands (image.program.stripParens lhs), c ≠ lhs ∧ c ≠ e) :
    Simulates (binary image e op lhs rhs) (Direct.assign image e op lhs rhs r place) s
      (Bound image e) := by
  cases op with
  | arith _ | comparison _ | logical _ | bitwise _ => cases hop
  | compoundAssign op => exact simulates_report hs he _
  | assign =>
    -- the nodes that say where the target lies are neither the target's nor the assignment's own
    have hstore : ∀ value, Simulates
        (bindExpr lhs value >>= fun _ => bindExpr e value >>= fun _ =>
          assignTarget image e (image.program.stripParens lhs) value : Run κ Unit)
        (Direct.assignTarget image e value place) s (Bound image e) := by
      intro value
      refine simulates_modifyStack_bind (s.forget_modifyTop_of_eq fun _ => rfl) ?_
      refine simulates_modifyStack_bind (State.forget_modifyTop_of_eq _ fun _ => rfl) ?_
      refine simulates_assignTarget ?_ he ?_ (hplace.of_expr?_eq fun c hc => ?_)
      · exact (hs.bindExpr hlhs value).bindExpr he value
      · simp [Frame.expr?_bindExpr]
      · simp [Frame.expr?_bindExpr, hother c hc]
    have hvalue : Simulates (valueOf image rhs >>= fun value =>
        bindExpr lhs value >>= fun _ => bindExpr e value >>= fun _ =>
          assignTarget image e (image.program.stripParens lhs) value : Run κ Unit)
        (Direct.valueOf rhs r >>= fun value => Direct.assignTarget image e value place) s
        (Bound image e) := by
      refine simulates_bind (simulates_valueOf hr) fun value _ t h => ?_
      obtain ⟨rfl, rfl⟩ := h
      exact hstore value
    unfold binary assign Direct.assign
    dsimp only
    split
    · refine simulates_bind (simulates_checkConversion _ _) fun _ _ t h => ?_
      obtain ⟨rfl, rfl⟩ := h
      exact hvalue
    · exact hvalue

/-! ## Calls and variables -/

/-- The node has the value, or has none, as the direct evaluator answers. -/
def Gives (image : Image) (e : ExprId) (_ : Unit) (v : Option Int32) (t : State κ) : Prop :=
  t.stack.Quiet image ∧ t.stack.top.expr? e = v

omit [Console κ] in
/-- An expression that gives a value gives some value. -/
theorem Simulates.some {x : Run κ Unit} {y : Direct.Exec κ Int32}
    (h : Simulates x y s (Bound image e)) :
    Simulates x (y >>= fun v => pure (some v)) s (Gives image e) :=
  h.map fun _ _ _ hv => hv

omit [Console κ] in
theorem simulates_bindExpr_some (hs : s.stack.Quiet image) (he : image.Bindable e) (value : Int32) :
    Simulates (bindExpr e value) (pure (some value)) s (Gives image e) := by
  have h := (simulates_bindExpr hs he value).some
  rwa [pure_bind] at h

omit [Console κ] in
/-- The answer of a node that has no value. -/
theorem Simulates.none {x : Run κ Unit} {y : Direct.Exec κ PUnit}
    (h : Simulates x y s fun _ _ t => t.stack = s.stack) (hs : s.stack.Quiet image)
    (he : ¬ image.Bindable e) : Simulates x (y >>= fun _ => pure none) s (Gives image e) :=
  h.map fun _ _ _ ht => ⟨ht ▸ hs, ht ▸ hs.expr?_eq_none he⟩

/-- Reading a number is simulated at the same console. -/
theorem simulates_callGet (hs : s.stack.Quiet image) (he : image.Bindable e) :
    Simulates (callGet image e) Direct.callGet s (Gives image e) := by
  refine simulates_get_bind ?_
  rw [show s.forget.console = s.console from rfl]
  dsimp only
  generalize Console.readInt s.console = answer
  obtain ⟨input, console⟩ := answer
  refine simulates_bind (simulates_set (Q := fun _ _ t => t.stack = s.stack) rfl rfl)
    fun _ _ t ht => ?_
  cases input with
  | none => exact simulates_faultHere
  | some value => exact simulates_bindExpr_some (ht ▸ hs) he value

/-- A built-in function gets the values of its arguments handed over. -/
theorem simulates_callBuiltin {callee : DeclId} {b : Builtin} {args : List ExprId}
    {values : List (Option Int32)} (hs : s.stack.Quiet image)
    (hk : (image.program.expr e).kind = .call callee args) (hb : image.builtin? callee = some b)
    (hvalues : args.map s.stack.top.expr? = values) (he : ¬ image.program.IsTarget e) :
    Simulates (callBuiltin image e b args) (Direct.callBuiltin b args values) s
      (Gives image e) := by
  refine simulates_bind (simulates_checkArity _ _ _) fun _ _ t h => ?_
  obtain ⟨harity, rfl⟩ := h
  -- `GET` and `MALLOC` give the call a value, `PRINT` and `FREE` do not
  have hvalued : b = .get ∨ b = .malloc → image.Bindable e := by
    intro hget hnone
    simp only [Image.Valueless, hk, hb] at hnone
    rcases hget with rfl | rfl <;> simp at hnone
  have hsilent : b = .print ∨ b = .free → ¬ image.Bindable e := by
    intro hprint hbindable
    refine he (hbindable ?_)
    simpa only [Image.Valueless, hk, hb, Option.some.injEq] using hprint
  subst hvalues
  rcases args with _ | ⟨arg, args⟩
  · cases b with
    | get => exact simulates_callGet hs (hvalued (.inl rfl))
    | print | malloc | free => cases harity
  · cases b with
    | get => exact simulates_callGet hs (hvalued (.inl rfl))
    | print =>
      refine simulates_bind (simulates_valueOf rfl) fun value _ t h => ?_
      obtain ⟨rfl, rfl⟩ := h
      refine Simulates.none (simulates_modify ?_ ?_) hs (hsilent (.inl rfl))
      · rfl
      · rfl
    | malloc =>
      refine simulates_bind (simulates_valueOf rfl) fun size _ t h => ?_
      obtain ⟨rfl, rfl⟩ := h
      refine simulates_get_bind (simulates_bind (simulates_orFault _) fun block _ t h => ?_)
      obtain ⟨rfl, rfl⟩ := h
      refine simulates_bind (simulates_set (Q := fun _ _ u => u.stack = t.stack) rfl rfl)
        fun _ _ u hu => ?_
      exact simulates_bindExpr_some (hu ▸ hs) (hvalued (.inr rfl)) block.1
    | free =>
      refine simulates_bind (simulates_valueOf rfl) fun address _ t h => ?_
      obtain ⟨rfl, rfl⟩ := h
      refine Simulates.none (simulates_modify ?_ ?_) hs (hsilent (.inr rfl))
      · rfl
      · rfl

/-! ## Sequences and loops -/

section Loops

variable {I : State κ → Prop}

/-- Both answer alike, and `I` holds. -/
def Alike (I : State κ → Prop) (a b : α) (t : State κ) : Prop := a = b ∧ I t

omit [Console κ] in
/-- A list of computations is simulated one by one, if each keeps the invariant. -/
theorem simulates_forM {f : α → Run κ Unit} {g : α → Direct.Exec κ Unit} (as : List α)
    (h : ∀ a ∈ as, ∀ t, I t → Simulates (f a) (g a) t fun _ _ u => I u) {s : State κ} (hs : I s) :
    Simulates (as.forM f) (as.forM g) s fun _ _ u => I u := by
  induction as generalizing s with
  | nil => exact simulates_pure hs
  | cons a as ih =>
    exact simulates_bind (h a (by simp) s hs) fun _ _ t ht => ih (fun b hb => h b (by simp [hb])) ht

omit [Console κ] in
/-- So is a list of statements, up to the first that returns. -/
theorem simulates_untilReturn {f : α → Run κ Flow} {g : α → Direct.Exec κ Flow} (as : List α)
    (h : ∀ a t, I t → Simulates (f a) (g a) t (Alike I)) {s : State κ} (hs : I s) :
    Simulates (untilReturn f as) (Direct.untilReturn g as) s (Alike I) := by
  induction as generalizing s with
  | nil => exact simulates_pure ⟨rfl, hs⟩
  | cons a as ih =>
    refine simulates_bind (h a s hs) fun flow _ t ht => ?_
    obtain ⟨rfl, ht⟩ := ht
    cases flow with
    | normal => exact ih ht
    | returned value => exact simulates_pure ⟨rfl, ht⟩

omit [Console κ] in
/-- A loop is simulated round by round, if condition and action keep the invariant. -/
theorem simulates_whileHolds {condition : Run κ Bool} {condition' : Direct.Exec κ Bool}
    {action : Run κ Flow} {action' : Direct.Exec κ Flow}
    (hc : ∀ t, I t → Simulates condition condition' t (Alike I))
    (ha : ∀ t, I t → Simulates action action' t (Alike I)) (rounds : Nat) {s : State κ} (hs : I s) :
    Simulates (whileHolds condition action rounds) (Direct.whileHolds condition' action' rounds) s
      (Alike I) := by
  induction rounds generalizing s with
  | zero => exact simulates_throw rfl
  | succ rounds ih =>
    refine simulates_bind (hc s hs) fun holds _ t ht => ?_
    obtain ⟨rfl, ht⟩ := ht
    cases holds with
    | false => exact simulates_pure ⟨rfl, ht⟩
    | true =>
      refine simulates_bind (ha t ht) fun flow _ u hu => ?_
      obtain ⟨rfl, hu⟩ := hu
      cases flow with
      | normal => exact ih hu
      | returned value => exact simulates_pure ⟨rfl, hu⟩

end Loops

/-! ## Functions of the program -/

omit [Console κ] in
/-- A new frame is quiet, with the same variables in both. -/
theorem simulates_openFrame (function : DeclId) (body : StmtId) (bindings : List (DeclId × Int32))
    (hs : s.stack.Quiet image) :
    Simulates (openFrame function body bindings) (Direct.openCall function bindings) s fun _ _ t =>
      t.stack.Quiet image := by
  have hpush : Simulates (modifyStack (·.push function) : Run κ Unit)
      (modify fun s : Direct.State κ => { s with calls := ⟨some function, ∅⟩ :: s.calls }) s
      fun _ _ t => t.stack.Quiet image := simulates_modify rfl (hs.push function)
  refine simulates_bind hpush fun _ _ t ht => ?_
  rw [← bind_pure (bindings.forM _ : Direct.Exec κ PUnit)]
  refine simulates_bind (simulates_forM (I := fun u => u.stack.Quiet image) bindings
    (fun binding _ u hu => ?_) ht) fun _ _ u hu => ?_
  · exact (simulates_declare binding.1 binding.2).mono fun _ _ v hv => hv ▸ hu.modifyTop hu.top
  · exact simulates_modifyStack (u.forget_modifyTop_of_eq fun _ => rfl) (hu.modifyTop hu.top)

omit [Console κ] in
/-- The values of all arguments may be handed over at once. -/
theorem simulates_mapM_valueOf (args : List ExprId) :
    Simulates (args.mapM (valueOf image))
      ((args.zip (args.map s.stack.top.expr?)).mapM fun (arg, v) =>
      Direct.valueOf arg v) s (Same s) := by
  induction args with
  | nil => exact simulates_pure ⟨rfl, rfl⟩
  | cons arg args ih =>
    rw [List.map_cons, List.zip_cons_cons, List.mapM_cons, List.mapM_cons]
    refine simulates_bind (simulates_valueOf rfl) fun value _ t h => ?_
    obtain ⟨rfl, rfl⟩ := h
    refine simulates_bind ih fun values _ t h => ?_
    obtain ⟨rfl, rfl⟩ := h
    exact simulates_pure ⟨rfl, rfl⟩

omit [Console κ] in
/-- A call binds the values of its arguments to the parameters in both. -/
theorem simulates_enterBody (callee : DeclId) (params : List DeclId) (body : StmtId)
    {args : List ExprId} {values : List (Option Int32)} (hs : s.stack.Quiet image)
    (hvalues : args.map s.stack.top.expr? = values) :
    Simulates (enterBody image callee params body args)
      (Direct.enterBody image callee params args values) s fun _ _ t => t.stack.Quiet image := by
  subst hvalues
  refine simulates_bind (simulates_checkArity _ _ _) fun _ _ t h => ?_
  obtain ⟨-, rfl⟩ := h
  refine simulates_bind (simulates_forM (I := fun u => u = t) _ (fun pair _ u hu => ?_) rfl)
    fun _ _ u hu => ?_
  · subst hu
    exact (simulates_checkConversion _ _).mono fun _ _ v hv => hv.2
  subst hu
  refine simulates_bind (simulates_mapM_valueOf args) fun values _ t h => ?_
  obtain ⟨rfl, rfl⟩ := h
  refine simulates_get_bind ?_
  have hdepth : t.forget.calls.length + 1 = t.stack.depth := by
    rw [State.forget, List.length_map, CallStack.depth]
  rw [hdepth]
  dsimp only
  split
  · exact simulates_bind (Q := fun _ _ _ => False) simulates_faultHere fun _ _ _ h => h.elim
  · exact simulates_openFrame callee body _ hs

omit [Console κ] in
theorem simulates_closeCall (hs : s.stack.Quiet image) :
    Simulates (modifyStack fun stack => stack.pop.2) Direct.closeCall s fun _ _ t =>
      t.stack.Quiet image := by
  refine simulates_modify ?_ hs.pop
  rcases s with ⟨⟨_ | _, _⟩, _⟩ <;> rfl

omit [Console κ] in
/-- A call gives the value that its body returned. -/
theorem simulates_leaveCall (hs : s.stack.Quiet image) (he : image.Bindable e) (value : Int32) :
    Simulates (leaveCall e value) (Direct.closeCall >>= fun _ => pure (some value)) s
      (Gives image e) :=
  simulates_bind (simulates_closeCall hs) fun _ _ _ ht => simulates_bindExpr_some ht he value

omit [Console κ] in
/-- A variable gets the value of its initialiser handed over. -/
theorem simulates_initialise (hs : s.stack.Quiet image) (d : DeclId)
    (hv : ∀ init, (image.program.decl d).init? = some init → s.stack.top.expr? init = v) :
    Simulates (initialise image d) (Direct.initialise image d v) s fun _ _ t =>
      t.stack.Quiet image := by
  have hdeclare : ∀ {t : State κ} (value : Int32), t.stack.Quiet image →
      Simulates (declare d value) (Direct.declare d value) t fun _ _ u => u.stack.Quiet image :=
    fun value ht => (simulates_declare d value).mono fun _ _ u hu => hu ▸ ht.modifyTop ht.top
  unfold initialise Direct.initialise
  cases hk : (image.program.decl d).kind with
  | function _ _ _ => exact simulates_pure hs
  | «variable» type init storage =>
    dsimp only
    cases type.length? with
    | some length =>
      refine simulates_get_bind ?_
      -- forgetting tables keeps the number of calls, which is the depth of the array
      rw [show s.forget.calls.length = s.stack.calls.length from List.length_map ..]
      refine simulates_bind (simulates_set (Q := fun _ _ t => t.stack = s.stack) rfl rfl)
        fun _ _ t ht => ?_
      exact hdeclare _ (ht ▸ hs)
    | none =>
      cases init with
      | none => exact hdeclare 0 hs
      | some init =>
        refine simulates_bind (simulates_checkConversion _ _) fun _ _ t h => ?_
        obtain ⟨rfl, rfl⟩ := h
        refine simulates_bind (simulates_valueOf (hv init (by simp [Decl.init?, hk])))
          fun value _ t h => ?_
        obtain ⟨rfl, rfl⟩ := h
        exact hdeclare value hs

end Run

end MiniC
