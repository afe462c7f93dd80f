import Mathlib.Data.List.Forall2
import MiniC.Proofs.EvaluationContract
import MiniC.Proofs.Execution
import MiniC.Proofs.ValueChanges

/-!
# Values that nobody reads

A literal is evaluated before its value is read, so what a frame kept for it earlier does not
matter. Two states are twins if they differ in nothing but what their frames keep for one literal
(`State.Twin`). Where that value is known to be the same in the top frames as well (`State.TwinAt`),
it may be read.

A computation is blind to the literal (`Run.Blind`) if from twins it ends alike, in twins. Every
operation is blind where the values that it asks for are known, an evaluation makes the value of
what it evaluates known, and so everything that a program does is blind to every literal
(`Run.blindAll_evaluator`).
-/

set_option autoImplicit false

namespace MiniC

/-! ## Twins -/

/-- Frames that differ in nothing but what they keep for an expression. -/
structure Frame.Twin (c : ExprId) (f g : Frame) : Prop extends f.SameButValues [c] g where
  focus : g.focus = f.focus

/-- Stacks whose frames differ in nothing but what they keep for an expression. -/
structure CallStack.Twin (c : ExprId) (σ τ : CallStack) : Prop where
  calls : List.Forall₂ (Frame.Twin c) σ.calls τ.calls
  global : σ.global.Twin c τ.global

/-- States that differ in nothing but what their frames keep for an expression. -/
structure State.Twin {κ : Type} (c : ExprId) (s t : State κ) : Prop where
  stack : s.stack.Twin c t.stack
  heap : t.heap = s.heap
  arrays : t.arrays = s.arrays
  console : t.console = s.console
  diagnostics : t.diagnostics = s.diagnostics

/-- Twins that keep the same for the expression in their top frames, if this is known. -/
structure State.TwinAt {κ : Type} (c : ExprId) (known : Prop)
    (s t : State κ) : Prop extends s.Twin c t where
  agree : known → t.stack.top.expr? c = s.stack.top.expr? c

namespace Frame.Twin

variable {c : ExprId} {f g : Frame}

theorem refl (f : Frame) : f.Twin c f := ⟨.refl f, rfl⟩

/-- Twins keep the same value for an expression unless it is the literal, whose value has to be
known. -/
theorem expr? (h : f.Twin c g) {known : Prop} (hknown : known → g.expr? c = f.expr? c) {e : ExprId}
    (he : e = c → known) : g.expr? e = f.expr? e := by
  by_cases hec : e = c
  · subst hec
    exact hknown (he rfl)
  · exact h.exprs e (by simpa using hec)

/-- Twins hold the same variables with the same values. -/
theorem decl? (h : f.Twin c g) (d : DeclId) : g.decl? d = f.decl? d := by
  simp only [Frame.decl?, h.decls]

/-- Binding an expression in both frames keeps them twins. -/
theorem bindExpr (h : f.Twin c g) (e : ExprId) (value : Int32) :
    (f.bindExpr e value).Twin c (g.bindExpr e value) where
  function := h.function
  decls := h.decls
  exprs d hd := by simp only [Frame.expr?_bindExpr, h.exprs d hd]
  focus := h.focus

theorem bindDecl (h : f.Twin c g) (d : DeclId) (value : Int32) :
    (f.bindDecl d value).Twin c (g.bindDecl d value) where
  function := h.function
  decls := by simp only [Frame.bindDecl, h.decls]
  exprs := h.exprs
  focus := h.focus

theorem focusOn (h : f.Twin c g) (focus : Focus) : (f.focusOn focus).Twin c (g.focusOn focus) where
  function := h.function
  decls := h.decls
  exprs := h.exprs
  focus := rfl

end Frame.Twin

namespace CallStack.Twin

variable {c : ExprId} {σ τ : CallStack} {f : Frame → Frame}

theorem refl (σ : CallStack) : σ.Twin c σ := ⟨List.forall₂_same.2 fun f _ => .refl f, .refl _⟩

theorem top (h : σ.Twin c τ) : σ.top.Twin c τ.top := by
  rcases σ with ⟨_ | _, global⟩ <;> rcases τ with ⟨_ | _, global'⟩
  · exact h.global
  · cases h.calls
  · cases h.calls
  · cases h.calls with
    | cons hframe _ => exact hframe

theorem depth (h : σ.Twin c τ) : τ.depth = σ.depth := by
  simp only [CallStack.depth, h.calls.length_eq]

/-- What keeps twin frames twins may be done to the top frames of twin stacks. -/
theorem modifyTop (h : σ.Twin c τ) (hf : ∀ {f₀ g₀ : Frame}, f₀.Twin c g₀ → (f f₀).Twin c (f g₀)) :
    (σ.modifyTop f).Twin c (τ.modifyTop f) := by
  rcases σ with ⟨_ | ⟨frame, callers⟩, global⟩ <;> rcases τ with ⟨_ | ⟨frame', callers'⟩, global'⟩
  · exact ⟨.nil, hf h.global⟩
  · cases h.calls
  · cases h.calls
  · cases h.calls with
    | cons hframe hcallers => exact ⟨.cons (hf hframe) hcallers, h.global⟩

/-- The same holds of the frames of the file. -/
theorem modifyGlobal (h : σ.Twin c τ)
    (hf : ∀ {f₀ g₀ : Frame}, f₀.Twin c g₀ → (f f₀).Twin c (f g₀)) :
    (σ.modifyGlobal f).Twin c (τ.modifyGlobal f) := ⟨h.calls, hf h.global⟩

theorem pop (h : σ.Twin c τ) : σ.pop.2.Twin c τ.pop.2 := by
  rcases σ with ⟨_ | ⟨frame, callers⟩, global⟩ <;> rcases τ with ⟨_ | ⟨frame', callers'⟩, global'⟩
  · exact h
  · cases h.calls
  · cases h.calls
  · cases h.calls with
    | cons _ hcallers => exact ⟨hcallers, h.global⟩

end CallStack.Twin

namespace State

variable {κ : Type} {c : ExprId} {known known' : Prop} {s t : State κ}

theorem Twin.refl (s : State κ) : s.Twin c s := ⟨.refl _, rfl, rfl, rfl, rfl⟩

/-- Twins stand at the same place. -/
theorem Twin.locationIn (h : s.Twin c t) (image : Image) :
    image.locationIn t.stack = image.locationIn s.stack := by
  simp only [Image.locationIn, h.stack.top.focus]

/-- Nothing has to be known of the literal for states to be twins. -/
theorem Twin.at (h : s.Twin c t) : s.TwinAt c False t := ⟨h, False.elim⟩

/-- Less may be said to be known. -/
theorem TwinAt.mono (h : s.TwinAt c known t) (hknown : known' → known) : s.TwinAt c known' t :=
  ⟨h.toTwin, fun hk => h.agree (hknown hk)⟩

/-- In twins an expression is read with the same result, if the literal is read only where its value
is known. -/
theorem TwinAt.expr (h : s.TwinAt c known t) {e : ExprId} (he : e = c → known) :
    t.stack.top.expr e = s.stack.top.expr e := by
  simp only [Frame.expr, h.stack.top.expr? h.agree he]

/-- Twin stacks may be put into twin states; what is known of the literal has to be shown again. -/
theorem TwinAt.withStack (h : s.TwinAt c known t) {σ τ : CallStack} (hσ : σ.Twin c τ)
    (hagree : known → τ.top.expr? c = σ.top.expr? c) :
    State.TwinAt c known { s with stack := σ } { t with stack := τ } :=
  ⟨⟨hσ, h.heap, h.arrays, h.console, h.diagnostics⟩, hagree⟩

end State

/-! ## Blind computations -/

namespace Run

variable {κ α β : Type} {c : ExprId} {known known' known'' : Prop}

/-- Outcomes that are the same but for what is kept for an expression. -/
inductive Twins (c : ExprId) (known : Prop) :
    EStateM.Result Halt (State κ) α → EStateM.Result Halt (State κ) α → Prop
  | ok {a : α} {s t : State κ} : s.TwinAt c known t → Twins c known (.ok a s) (.ok a t)
  | error {halt : Halt} {s t : State κ} : s.Twin c t → Twins c known (.error halt s) (.error halt t)

/-- From twins the computation ends alike, in twins. -/
def Blind (c : ExprId) (known known' : Prop) (x : Run κ α) : Prop :=
  ∀ s t, s.TwinAt c known t → Twins c known' (x s) (x t)

theorem Twins.mono {r r' : EStateM.Result Halt (State κ) α} (h : Twins c known r r')
    (hknown : known' → known) :
    Twins c known' r r' := by
  cases h with
  | ok h => exact .ok (h.mono hknown)
  | error h => exact .error h

/-- From twins, computations that end alike halt for the same reason or not at all. -/
theorem Twins.halt?_eq {r r' : EStateM.Result Halt (State κ) α} (h : Twins c known r r') :
    halt? r' = halt? r := by
  cases h <;> rfl

namespace Blind

theorem pure (a : α) : Blind c known known (pure a : Run κ α) := fun _ _ h => .ok h

/-- A computation that halts may be said to know whatever one likes. -/
theorem throw (halt : Halt) : Blind c known known' (throw halt : Run κ α) :=
  fun _ _ h => .error h.toTwin

/-- It may take more to be known before and promise less to be known after. -/
theorem mono {x : Run κ α} (hx : Blind c known known' x) {before after : Prop}
    (hbefore : known → before) (hafter : after → known') : Blind c before after x :=
  fun s t h => (hx s t (h.mono hbefore)).mono hafter

/-- What the first computation makes known may be used by the second. -/
theorem bind {x : Run κ α} {f : α → Run κ β} (hx : Blind c known known' x)
    (hf : ∀ a, Blind c known' known'' (f a)) : Blind c known known'' (x >>= f) := by
  intro s t h
  rw [bind_apply, bind_apply]
  have hboth := hx s t h
  generalize x s = r, x t = r' at hboth
  cases hboth with
  | ok h => exact hf _ _ _ h
  | error h => exact .error h

/-- What follows depends on the state only where twins are the same. -/
theorem get_bind {f : State κ → Run κ α} (hf : ∀ s, Blind c known known' (f s))
    (hsame : ∀ {s t}, s.TwinAt c known t → f t = f s) : Blind c known known' (get >>= f) := by
  intro s t h
  change Twins c known' (f s s) (f t t)
  rw [hsame h]
  exact hf s s t h

/-- It composes where the value stays as known as it is. -/
theorem composes (c : ExprId) (known : Prop) :
    Composes (Alone fun _ (x : Run κ _) => Blind c known known x) :=
  ⟨pure, bind⟩

/-! ## Frames and memory -/

variable {image : Image} {e : ExprId}

/-- A fault is raised at the same place in twins. -/
theorem faultHere (cause : RuntimeFault) : Blind c known known' (faultHere image cause : Run κ α) :=
  get_bind (fun _ => .throw _) fun h => by rw [h.locationIn]

theorem orFault (answer : Except MemoryFault α) :
    Blind c known known (orFault image answer : Run κ α) := by
  cases answer with
  | ok a => exact .pure a
  | error f => exact .faultHere _

/-- The value of an expression may be asked for unless it is the unknown literal. -/
theorem valueOf (he : e = c → known) : Blind c known known (valueOf image e : Run κ Int32) :=
  get_bind (fun _ => .orFault _) fun h => by rw [h.expr he]

theorem valueOfDecl (d : DeclId) : Blind c known known (valueOfDecl image d : Run κ Int32) := by
  refine get_bind (fun s => ?_) fun h => ?_
  · dsimp only
    split
    · exact .pure _
    · exact .faultHere _
  · dsimp only
    rw [h.stack.top.decl?, h.stack.global.decl?]

/-- Binding the literal makes its value known. -/
theorem bindExpr (value : Int32) :
    Blind c known (known ∨ e = c) (bindExpr e value : Run κ Unit) := by
  intro s t h
  refine .ok ⟨⟨h.stack.modifyTop fun hf => hf.bindExpr e value, h.heap, h.arrays, h.console,
    h.diagnostics⟩, ?_⟩
  rintro hknown
  simp only [CallStack.top_modifyTop, Frame.expr?_bindExpr]
  split
  · rfl
  · next hne => exact h.agree (hknown.resolve_right (Ne.symm hne))

/-- What an operation gives a value to keeps what is known. -/
theorem bindResult (value : Int32) : Blind c known known (Run.bindExpr e value : Run κ Unit) :=
  (bindExpr value).mono id .inl

theorem focusOn (focus : Focus) : Blind c known known (focusOn focus : Run κ Unit) := by
  intro s t h
  refine .ok (h.withStack (h.stack.modifyTop fun hf => hf.focusOn focus) fun hknown => ?_)
  simpa using h.agree hknown

/-- A variable is declared without a look at any expression. -/
theorem declare (d : DeclId) (value : Int32) :
    Blind c known known (declare d value : Run κ Unit) := by
  intro s t h
  refine .ok (h.withStack (h.stack.modifyTop fun hf => hf.bindDecl d value) fun hknown => ?_)
  simpa using h.agree hknown

/-- A variable is assigned to without a look at any expression. -/
theorem assignDecl (d : DeclId) (value : Int32) :
    Blind c known known (assignDecl d value : Run κ Unit) := by
  intro s t h
  have htop : (t.stack.top.decl? d).isSome = (s.stack.top.decl? d).isSome := by
    rw [h.stack.top.decl?]
  have hkept (σ : CallStack) : (σ.modifyGlobal (·.bindDecl d value)).top.expr? c =
      σ.top.expr? c := by
    rcases σ with ⟨_ | _, _⟩ <;> rfl
  refine .ok (h.withStack ?_ fun hknown => ?_)
  · dsimp only
    rw [htop]
    -- the variable is in the top frames or in those of the file
    split
    · exact h.stack.modifyTop fun hf => hf.bindDecl d value
    · exact h.stack.modifyGlobal fun hf => hf.bindDecl d value
  · dsimp only
    rw [htop]
    split
    · simpa using h.agree hknown
    · rw [hkept, hkept]
      exact h.agree hknown

theorem checkConversion (expected : CType) (source : ExprId) :
    Blind c known known (checkConversion image expected source : Run κ Unit) := by
  unfold Run.checkConversion
  dsimp only
  split
  · exact .throw _
  · exact .pure ()

theorem checkArity (function : String) (expected got : Nat) :
    Blind c known known (checkArity image function expected got : Run κ Unit) := by
  unfold Run.checkArity
  split
  · exact .faultHere _
  · exact .pure ()

theorem load (place : Place) : Blind c known known (load image place : Run κ Int32) := by
  refine get_bind (fun s => ?_) fun h => ?_
  · cases place <;> exact .orFault _
  · cases place with
    | heap address =>
      dsimp only
      rw [h.heap]
    | array id index =>
      dsimp only
      rw [h.arrays]

/-- What is stored outside the frames leaves twins twins. -/
theorem store (place : Place) (value : Int32) :
    Blind c known known (store image place value : Run κ Unit) := by
  intro s t h
  cases place with
  | heap address =>
    change Twins c known ((Run.orFault image (s.heap.write address value) >>= fun heap =>
      set { s with heap }) s)
      ((Run.orFault image (t.heap.write address value) >>= fun heap => set { t with heap }) t)
    rw [h.heap]
    cases s.heap.write address value with
    | ok heap => exact .ok ⟨⟨h.stack, rfl, h.arrays, h.console, h.diagnostics⟩, h.agree⟩
    | error f =>
      exact (Blind.faultHere _ : Blind c known known (Run.faultHere image _ : Run κ Unit)) s t h
  | array id index =>
    change Twins c known ((Run.orFault image (s.arrays.set id index value) >>= fun arrays =>
      set { s with arrays }) s)
      ((Run.orFault image (t.arrays.set id index value) >>= fun arrays => set { t with arrays }) t)
    rw [h.arrays]
    cases s.arrays.set id index value with
    | ok arrays => exact .ok ⟨⟨h.stack, h.heap, rfl, h.console, h.diagnostics⟩, h.agree⟩
    | error f =>
      exact (Blind.faultHere _ : Blind c known known (Run.faultHere image _ : Run κ Unit)) s t h

variable {base index lhs rhs operand : ExprId}

/-- The place of an element depends on the values of base and index. -/
theorem elementPlace (hbase : base = c → known) (hindex : index = c → known) :
    Blind c known known (elementPlace image base index : Run κ Place) :=
  (valueOf hbase).bind fun _ => (valueOf hindex).bind fun _ => .pure _

/-! ## Operators -/

theorem cast (he : operand = c → known) :
    Blind c known known (cast image e operand : Run κ Unit) := by
  unfold Run.cast
  split
  · exact .pure _
  · exact (valueOf he).bind fun _ => .bindResult _

theorem sizeOf (type : CType) : Blind c known known (sizeOf image e type : Run κ Unit) := by
  unfold Run.sizeOf
  split
  · exact .bindResult _
  · split
    · exact .bindResult _
    · exact .throw _

theorem subscript (hbase : base = c → known) (hindex : index = c → known) :
    Blind c known known (subscript image e base index : Run κ Unit) :=
  (elementPlace hbase hindex).bind fun place => (load place).bind fun _ => .bindResult _

theorem arith (op : ArithOp) (hl : lhs = c → known) (hr : rhs = c → known) :
    Blind c known known (arith image e op lhs rhs : Run κ Unit) := by
  refine (valueOf hl).bind fun l => (valueOf hr).bind fun r => ?_
  cases op with
  | additive op =>
    dsimp only
    split
    · exact .bindResult _
    · exact .throw _
  | multiplicative op =>
    dsimp only
    split
    · exact .bindResult _
    · exact .throw _

/-- The variable is given the value of its initialiser. -/
theorem initialise {d : DeclId} (hinit : ∀ init ∈ (image.program.decl d).init?, init = c → known) :
    Blind c known known (initialise image d : Run κ Unit) := by
  unfold Run.initialise
  cases hk : (image.program.decl d).kind with
  | function _ _ _ => exact .pure ()
  | «variable» type init storage =>
    dsimp only
    split
    · next _ length _ =>
      intro s t h
      have hcalls : t.stack.calls.length = s.stack.calls.length := h.stack.calls.length_eq.symm
      change Twins c known
        (Run.declare d (s.arrays.create length s.stack.calls.length).1
          { s with arrays := (s.arrays.create length s.stack.calls.length).2 })
        (Run.declare d (t.arrays.create length t.stack.calls.length).1
          { t with arrays := (t.arrays.create length t.stack.calls.length).2 })
      rw [h.arrays, hcalls]
      exact declare d _ _ _ ⟨⟨h.stack, h.heap, rfl, h.console, h.diagnostics⟩, h.agree⟩
    · next _ _ init _ =>
      refine (checkConversion type init).bind fun _ => (valueOf ?_).bind fun value =>
        declare d value
      exact hinit init (by simp [Decl.init?, hk])
    · exact declare d 0

variable [Console κ]

theorem report (construct : Unsupported) :
    Blind c known known (report image e construct : Run κ Unit) := by
  unfold Run.report
  dsimp only
  split
  · exact .throw _
  · refine .bind (fun s t h => ?_) fun _ => .bindResult 0
    refine .ok ⟨⟨h.stack, h.heap, h.arrays, ?_, ?_⟩, h.agree⟩
    · dsimp only
      rw [h.console]
    · dsimp only
      rw [h.diagnostics]

theorem reference (d : DeclId) : Blind c known known (reference image e d : Run κ Unit) := by
  unfold Run.reference
  dsimp only
  split
  · split
    · exact (valueOfDecl d).bind fun _ => .bindResult _
    · exact .report _
  · split
    · exact .bindResult 0
    · exact .report _

theorem unary (op : UnaryOp) (he : operand = c → known) :
    Blind c known known (unary image e op operand : Run κ Unit) := by
  unfold Run.unary
  split
  · exact (valueOf he).bind fun _ => (load _).bind fun _ => .bindResult _
  · exact (valueOf he).bind fun _ => .bindResult _
  · exact .report _

/-- An assignment reads what says where its target lies. -/
theorem assignTarget {target : ExprId} (value : Int32)
    (h : c ∈ (image.program.expr target).kind.locators → known) :
    Blind c known known (assignTarget image e target value : Run κ Unit) := by
  unfold Run.assignTarget
  split
  · split
    · split
      · exact .report _
      · exact .assignDecl _ value
    · exact .report _
  · next operand hk =>
    refine (valueOf ?_).bind fun _ => store _ value
    rintro rfl
    exact h (by simp [hk, ExprKind.locators])
  · next base index hk =>
    refine (elementPlace ?_ ?_).bind fun _ => store _ value
    · rintro rfl
      exact h (by simp [hk, ExprKind.locators])
    · rintro rfl
      exact h (by simp [hk, ExprKind.locators])
  · exact .report _

theorem assign (hr : rhs = c → known)
    (hl : c ∈ (image.program.expr (image.program.stripParens lhs)).kind.locators → known) :
    Blind c known known (assign image e lhs rhs : Run κ Unit) := by
  have hstore : Blind c known known (do
      let value ← Run.valueOf image rhs
      Run.bindExpr lhs value
      Run.bindExpr e value
      Run.assignTarget image e (image.program.stripParens lhs) value : Run κ Unit) :=
    (valueOf hr).bind fun value => (bindResult value).bind fun _ =>
      (bindResult value).bind fun _ => .assignTarget value hl
  unfold Run.assign
  dsimp only
  split
  · exact (checkConversion _ rhs).bind fun _ => hstore
  · exact hstore

/-- An operator may only be given the literal for an operand it asks for where its value is known.
-/
theorem binary {op : BinaryOp} (hk : (image.program.expr e).kind = .binary op lhs rhs)
    (h : c ∈ image.program.asked e → known) :
    Blind c known known (binary image e op lhs rhs : Run κ Unit) := by
  simp only [Program.asked, hk] at h
  cases op with
  | assign =>
    simp only [BinaryOp.isAssignment, if_pos, List.mem_cons] at h
    exact .assign (fun hr => h (.inl hr.symm)) fun hl => h (.inr hl)
  | arith op =>
    simp only [BinaryOp.isAssignment, Bool.false_eq_true, if_false, List.mem_cons,
      List.not_mem_nil, or_false] at h
    exact .arith op (fun hl => h (.inl hl.symm)) fun hr => h (.inr hr.symm)
  | comparison op =>
    simp only [BinaryOp.isAssignment, Bool.false_eq_true, if_false, List.mem_cons,
      List.not_mem_nil, or_false] at h
    exact (valueOf fun hl => h (.inl hl.symm)).bind fun _ =>
      (valueOf fun hr => h (.inr hr.symm)).bind fun _ => .bindResult _
  | logical _ | bitwise _ | compoundAssign _ => exact .report _

/-! ## Calls -/

theorem callGet : Blind c known known (callGet image e : Run κ Unit) := by
  intro s t h
  have hread : State.TwinAt c known { s with console := (Console.readInt s.console).2 }
      { t with console := (Console.readInt s.console).2 } :=
    ⟨⟨h.stack, h.heap, h.arrays, rfl, h.diagnostics⟩, h.agree⟩
  rw [Run.callGet, bind_apply, bind_apply, get_apply, get_apply]
  dsimp only
  rw [h.console]
  cases (Console.readInt s.console).1 with
  | some value => exact Blind.bindResult value _ _ hread
  | none => exact Blind.faultHere .inputUnavailable _ _ hread

theorem callPrint {arg : ExprId} (harg : arg = c → known) :
    Blind c known known (callPrint image arg : Run κ Unit) := by
  refine (valueOf harg).bind fun value s t h =>
    .ok ⟨⟨h.stack, h.heap, h.arrays, ?_, h.diagnostics⟩, h.agree⟩
  dsimp only
  rw [h.console]

omit [Console κ] in
theorem callMalloc {arg : ExprId} (harg : arg = c → known) :
    Blind c known known (callMalloc image e arg : Run κ Unit) := by
  refine (valueOf harg).bind fun size s t h => ?_
  change Twins c known
    ((Run.orFault image (s.heap.allocate size) >>= fun block => do
      set { s with heap := block.2 }
      Run.bindExpr e block.1) s)
    ((Run.orFault image (t.heap.allocate size) >>= fun block => do
      set { t with heap := block.2 }
      Run.bindExpr e block.1) t)
  rw [h.heap]
  cases s.heap.allocate size with
  | ok block =>
    have hbind : Blind c known known (Run.bindExpr e block.1 : Run κ Unit) := .bindResult block.1
    exact hbind { s with heap := block.2 } { t with heap := block.2 }
      ⟨⟨h.stack, rfl, h.arrays, h.console, h.diagnostics⟩, h.agree⟩
  | error f =>
    exact (Blind.faultHere _ : Blind c known known (Run.faultHere image _ : Run κ Unit)) s t h

omit [Console κ] in
theorem callFree {arg : ExprId} (harg : arg = c → known) :
    Blind c known known (callFree image arg : Run κ Unit) := by
  refine (valueOf harg).bind fun address s t h =>
    .ok ⟨⟨h.stack, ?_, h.arrays, h.console, h.diagnostics⟩, h.agree⟩
  dsimp only
  rw [h.heap]

theorem callBuiltin (b : Builtin) {args : List ExprId} (hargs : c ∈ args → known) :
    Blind c known known (callBuiltin image e b args : Run κ Unit) := by
  have hfirst {arg : ExprId} {rest : List ExprId} (h : args = arg :: rest) (harg : arg = c) :
      known :=
    hargs (by simp [h, harg])
  refine (checkArity _ _ _).bind fun _ => ?_
  split
  · exact .callGet
  · exact .callPrint (hfirst rfl)
  · exact .callMalloc (hfirst rfl)
  · exact .callFree (hfirst rfl)
  · exact .pure _

omit [Console κ] in
/-- What is kept in a new frame is the same, for it keeps nothing. -/
theorem openFrame (function : DeclId) (body : StmtId) (bindings : List (DeclId × Int32)) :
    Blind c known True (openFrame function body bindings : Run κ Unit) := by
  intro s t h
  -- a new frame keeps no values yet
  rw [openFrame_apply, openFrame_apply]
  exact .ok
    ⟨⟨⟨.cons (.refl _) h.stack.calls, h.stack.global⟩, h.heap, h.arrays, h.console,
      h.diagnostics⟩, fun _ => rfl⟩

omit [Console κ] in
/-- In a new frame the literal has no value at all, which is as good as a known one. -/
theorem enterBody (callee : DeclId) (params : List DeclId) (body : StmtId) {args : List ExprId}
    (hargs : c ∈ args → known) : Blind c known True
    (enterBody image callee params body args : Run κ Unit) := by
  have hread (arg : ExprId) (harg : arg ∈ args) :
      Blind c known known (Run.valueOf image arg : Run κ Int32) :=
    valueOf fun h => hargs (h ▸ harg)
  have compose := composes (κ := κ) c known
  refine (checkArity _ _ _).bind fun _ => ?_
  refine (compose.alone (compose.forM _ fun pair _ => checkConversion _ _)).bind fun _ => ?_
  refine (compose.alone (compose.mapM args hread)).bind fun values => ?_
  · refine get_bind (fun s => ?_) fun h => ?_
    · dsimp only
      split
      · exact .faultHere _
      · exact .openFrame callee body _
    · dsimp only
      rw [h.stack.depth]

theorem enterCall (callee : DeclId) {args : List ExprId} (hargs : c ∈ args → known) :
    Blind c known known (enterCall image e callee args : Run κ (Option StmtId)) := by
  unfold Run.enterCall
  split
  · exact (callBuiltin _ hargs).bind fun _ => .pure _
  · dsimp only
    split
    · exact ((enterBody callee _ _ hargs).mono id fun _ => trivial).bind fun _ => .pure _
    · exact .faultHere _

end Blind

/-! ## Evaluation -/

/-- What locates the target of an assignment, under parentheses, comprises an expression. -/
def Locates (p : Program) (c q : ExprId) : Prop :=
  ∃ bound, c ∈ (p.expr (p.stripParensWithin bound q)).kind.locators

/-- The parts that locate a target in parentheses locate what is inside. -/
theorem locates_paren {p : Program} {c q inner : ExprId} (hk : (p.expr q).kind = .paren inner)
    (h : Locates p c q) :
    Locates p c inner := by
  obtain ⟨bound, h⟩ := h
  cases bound with
  | zero =>
    -- parentheses themselves locate nothing
    simp [Program.stripParensWithin, hk, ExprKind.locators] at h
  | succ bound => exact ⟨bound, by simpa [Program.stripParensWithin, hk] using h⟩

/-- The parts that locate a target without parentheses are its own. -/
theorem mem_locators_of_locates {p : Program} {c q : ExprId}
    (hk : ∀ inner, (p.expr q).kind ≠ .paren inner)
    (h : Locates p c q) : c ∈ (p.expr q).kind.locators := by
  obtain ⟨bound, h⟩ := h
  cases bound with
  | zero => exact h
  | succ bound =>
    rw [Program.stripParensWithin] at h
    split at h
    · next inner hinner => exact absurd hinner (hk inner)
    · exact h

/-- An evaluator that is blind to an expression, and makes its value known where it evaluates it. -/
structure BlindAll (image : Image) (c : ExprId) (ev : Evaluator κ) : Prop where
  expr : ∀ known e, Blind c known (known ∨ e = c) (ev.expr e)
  target : ∀ known q, Blind c known (known ∨ Locates image.program c q) (ev.target q)
  decl : ∀ known d, Blind c known known (ev.decl d)
  stmt : ∀ known id, Blind c known known (ev.stmt id)

section Evaluation

variable [Console κ] {image : Image} {ev : Evaluator κ} {e : ExprId} (hev : BlindAll image c ev)
include hev

omit [Console κ] in
/-- After a list of expressions the literal is known if it was one of them. -/
theorem BlindAll.forM (known : Prop) (args : List ExprId) :
    Blind c known (known ∨ c ∈ args) (args.forM ev.expr) := by
  -- what the first argument makes known is known to the others
  induction args generalizing known with
  | nil => exact (Blind.pure _).mono id (by simp)
  | cons a as ih =>
    refine (hev.expr known a).bind fun _ => (ih (known ∨ a = c)).mono id ?_
    rw [List.mem_cons]
    tauto

omit [Console κ] in
/-- The operands are evaluated, and so their values are known. -/
theorem BlindAll.evalOperands (known : Prop) (e : ExprId) :
    Blind c known (known ∨ c ∈ image.program.asked e) (evalOperands image ev e) := by
  unfold Run.evalOperands Program.asked
  cases hk : (image.program.expr e).kind with
  | intLiteral _ | declRef _ | sizeOf _ =>
    exact (Blind.pure ()).mono id (by simp [ExprKind.operands])
  | paren operand | unary _ operand | cast operand =>
    exact (hev.expr known operand).mono id (by simp [ExprKind.operands, eq_comm])
  | call callee args => exact hev.forM known args
  | subscript base index =>
    refine (hev.expr known base).bind fun _ => (hev.expr _ index).mono id ?_
    simp only [ExprKind.operands, List.mem_cons, List.not_mem_nil, eq_comm (a := c)]
    tauto
  | binary op lhs rhs =>
    dsimp only
    split
    · refine (hev.expr known rhs).bind fun _ => (hev.target _ lhs).mono id ?_
      rw [List.mem_cons, eq_comm (a := c)]
      rintro (h | h | h)
      · exact .inl (.inl h)
      · exact .inl (.inr h)
      · exact .inr ⟨_, h⟩
    · refine (hev.expr known lhs).bind fun _ => (hev.expr _ rhs).mono id ?_
      simp only [List.mem_cons, List.not_mem_nil, eq_comm (a := c)]
      tauto

/-- A call is blind to what the frames keep: the caller's frame keeps the same after it as
before. -/
theorem BlindAll.finishCall (hlocal : FrameLocal image ev) {known : Prop} (callee : DeclId)
    {args : List ExprId}
    (hargs : c ∈ args → known) : Blind c known known (finishCall image ev e callee args) := by
  refine (Blind.focusOn _).bind fun _ s t h => ?_
  have hs := ensures_enterCall image (Program.Contains.self (p := image.program) e) callee args s
  have ht := ensures_enterCall image (Program.Contains.self (p := image.program) e) callee args t
  have henter : Blind c known known (enterCall image e callee args : Run κ (Option StmtId)) :=
    .enterCall callee hargs
  have hentered := henter s t h
  unfold Ensures at hs ht
  rw [bind_apply, bind_apply]
  generalize enterCall image e callee args s = r,
    enterCall image e callee args t = r' at hentered hs ht
  cases hentered with
  | error h => exact .error h
  | @ok entered s' t' h' =>
    cases entered with
    | none => exact .ok h'
    | some body =>
      have hbody := hev.stmt known body s' t' h'
      have hs' := hlocal.stmt body s'
      have ht' := hlocal.stmt body t'
      unfold Ensures at hs' ht'
      change Twins c known ((onOwnStack (ev.stmt body) >>= fun flow => leaveCall e flow.value) s')
        ((onOwnStack (ev.stmt body) >>= fun flow => leaveCall e flow.value) t')
      rw [onOwnStack_eq, bind_apply, bind_apply]
      generalize ev.stmt body s' = r, ev.stmt body t' = r' at hbody hs' ht'
      cases hbody with
      | error h => exact .error h
      | @ok flow u v huv =>
        -- both callers' frames keep what they kept before the call
        have hu : CallStack.ExprEffect (fun _ => False) s.stack u.stack.pop.2 :=
          CallStack.exprEffect_pop ((hs.mono fun _ h => h.elim).trans hs')
        have hv : CallStack.ExprEffect (fun _ => False) t.stack v.stack.pop.2 :=
          CallStack.exprEffect_pop ((ht.mono fun _ h => h.elim).trans ht')
        have hpopped : State.TwinAt c known { u with stack := u.stack.pop.2 }
            { v with stack := v.stack.pop.2 } :=
          huv.withStack huv.stack.pop fun hknown => by
            rw [hv.exprs c not_false, hu.exprs c not_false]
            exact h.agree hknown
        have hbind : Blind c known known (Run.bindExpr e flow.value : Run κ Unit) :=
          .bindResult flow.value
        exact hbind _ _ hpopped

/-- What an expression does when its parts have values asks for no more than it asks of them. -/
theorem BlindAll.conclude (hlocal : FrameLocal image ev) {known : Prop}
    (h : c ∈ image.program.asked e → known) : Blind c known known (conclude image ev e) := by
  have hfocused {x : Run κ Unit} (hx : Blind c known known x) :
      Blind c known known (do Run.focusOn (.expr e); x) :=
    (Blind.focusOn _).bind fun _ => hx
  have hasked {operand : ExprId} (ho : operand ∈ image.program.asked e) (hc : operand = c) :
    known := h (hc ▸ ho)
  unfold Run.conclude
  cases hk : (image.program.expr e).kind with
  | intLiteral value => exact .bindResult value
  | declRef d => exact .reference d
  | paren inner =>
    exact (Blind.valueOf (hasked (by simp [Program.asked, hk, ExprKind.operands]))).bind fun _ =>
      .bindResult _
  | unary op operand =>
    exact hfocused (.unary op (hasked (by simp [Program.asked, hk, ExprKind.operands])))
  | binary op lhs rhs => exact hfocused (.binary hk h)
  | call callee args =>
    exact hev.finishCall hlocal callee fun ha => h (by simpa [Program.asked, hk, ExprKind.operands])
  | subscript base index =>
    exact hfocused (.subscript (hasked (by simp [Program.asked, hk, ExprKind.operands]))
      (hasked (by simp [Program.asked, hk, ExprKind.operands])))
  | cast operand => exact .cast (hasked (by simp [Program.asked, hk, ExprKind.operands]))
  | sizeOf type => exact .sizeOf type

/-- Every evaluation is blind, and that of the literal makes its value known. -/
theorem BlindAll.exprStep (hlocal : FrameLocal image ev) {n : Int32}
    (hc : (image.program.expr c).kind = .intLiteral n) (known : Prop) (e : ExprId) :
    Blind c known (known ∨ e = c) (exprStep image ev e) := by
  by_cases he : e = c
  · -- the literal gets its own value, whatever was kept for it
    subst he
    refine (Blind.focusOn _).bind fun _ => ?_
    rw [hc]
    exact .bindExpr n
  · rw [exprStep_eq]
    refine (Blind.focusOn _).bind fun _ => (hev.evalOperands known e).bind fun _ => ?_
    exact (hev.conclude hlocal .inr).mono id fun h => .inl (h.resolve_right he)

omit [Console κ] in
/-- Evaluating the parts of a target makes the literal known if it is one of them. -/
theorem BlindAll.targetStep (known : Prop) (q : ExprId) :
    Blind c known (known ∨ Locates image.program c q) (targetStep image ev q) := by
  unfold Run.targetStep
  split
  · next inner hk =>
    exact (hev.target known inner).mono id (Or.imp_right (locates_paren hk))
  · next operand hk =>
    refine (hev.expr known operand).mono id (Or.imp_right fun h => ?_)
    have hmem := mem_locators_of_locates (by simp [hk]) h
    simpa [hk, ExprKind.locators, eq_comm] using hmem
  · next base index hk =>
    refine (hev.expr known base).bind fun _ => (hev.expr _ index).mono id ?_
    rintro (h | h)
    · exact .inl (.inl h)
    · have hmem := mem_locators_of_locates (by simp [hk]) h
      simp only [hk, ExprKind.locators, List.mem_cons, List.not_mem_nil, eq_comm (a := c)] at hmem
      tauto
  · next hparen hderef hsubscript =>
    refine (Blind.pure ()).mono id fun h => h.resolve_right fun hq => ?_
    have hmem := mem_locators_of_locates hparen hq
    -- nothing else is located by anything
    unfold ExprKind.locators at hmem
    split at hmem
    · next operand hk => exact hderef operand hk
    · next base index hk => exact hsubscript base index hk
    · cases hmem

omit [Console κ] in
/-- A declaration evaluates its initialiser before it reads its value. -/
theorem BlindAll.declStep (known : Prop) (d : DeclId) :
    Blind c known known (declStep image ev d) := by
  unfold Run.declStep
  cases hk : (image.program.decl d).kind with
  | function _ _ _ =>
    refine (Blind.pure ()).bind fun _ => .initialise ?_
    simp [Decl.init?, hk]
  | «variable» type init storage =>
    cases init with
    | none =>
      refine (Blind.pure ()).bind fun _ => .initialise ?_
      simp [Decl.init?, hk]
    | some init =>
      refine (hev.expr known init).bind fun _ => (Blind.initialise ?_).mono id .inl
      simp only [Decl.init?, hk, Option.mem_some_iff]
      rintro _ rfl
      exact .inr

omit [Console κ] in
theorem BlindAll.conditionHolds (known : Prop) (e : ExprId) :
    Blind c known (known ∨ e = c) (conditionHolds image ev e) :=
  (hev.expr known e).bind fun _ => (Blind.valueOf .inr).bind fun _ => .pure _

omit [Console κ] in
/-- A round of a loop forgets what was known only inside it. -/
theorem BlindAll.forRound (known : Prop) (body : StmtId) (increment : Option ExprId) :
    Blind c known known (forRound ev body increment) := by
  have compose := Blind.composes (κ := κ) c known
  refine compose.alone (compose.forRound (hev.stmt known body) fun e _ => ?_)
  exact (hev.expr known e).mono id .inl

omit hev [Console κ] in
theorem Blind.readReturned {known : Prop} {e : ExprId} (he : e = c → known) :
    Blind c known known (readReturned image e : Run κ Int32) := by
  have hvalue : Blind c known known (Run.valueOf image e : Run κ Int32) := .valueOf he
  refine Blind.get_bind (fun s => ?_) fun h => ?_
  · dsimp only
    split
    · split
      · exact (Blind.checkConversion _ e).bind fun _ => hvalue
      · exact hvalue
    · exact hvalue
  · dsimp only
    rw [h.stack.top.function]

omit [Console κ] in
/-- What a statement reads of its expressions it has evaluated before, so it is blind wherever its
parts are. -/
theorem BlindAll.stmtStep (rounds : Nat) (known : Prop) (node : StmtId) :
    Blind c known known (stmtStep image ev rounds node) := by
  have compose := Blind.composes (κ := κ) c known
  have parts (kind : StmtKind) :
      StmtParts (Alone fun _ x => Blind c known known x) image image ev ev kind :=
    { expr := fun e _ => (hev.expr known e).mono id .inl
      condition := fun e _ => (hev.conditionHolds known e).mono id .inl
      returned := fun e _ => (hev.expr known e).bind fun _ => (Blind.readReturned .inr).mono id .inl
      decl := fun d _ => hev.decl known d
      stmt := fun i _ => hev.stmt known i }
  exact compose.alone (compose.stmtStep rfl (.focusOn _) (parts _) fun _ =>
    compose.loops (.throw _) rounds)

end Evaluation

variable [Console κ] {image : Image}

/-- Whatever a program does, it is blind to what was kept for a literal. -/
theorem blindAll_evaluator {n : Int32}
    (hc : (image.program.expr c).kind = .intLiteral n) (fuel : Nat) :
    BlindAll image c (evaluator (κ := κ) image fuel) := by
  induction fuel with
  | zero =>
    exact ⟨fun _ _ => .throw _, fun _ _ => .throw _, fun _ _ => .throw _, fun _ _ => .throw _⟩
  | succ fuel ih =>
    exact ⟨ih.exprStep (frameLocal_evaluator image fuel) hc, ih.targetStep,
      ih.declStep, ih.stmtStep fuel⟩

omit [Console κ] in
/-- From twins a computation that is blind ends alike. -/
theorem Reaches.twins {x : Nat → Run κ α} {s t : State κ} {r : EStateM.Result Halt (State κ) α}
    (h : Reaches x s r) (hx : ∀ n, Blind c False False (x n)) (hst : s.Twin c t) :
    ∃ r', Reaches x t r' ∧ Twins c False r r' := by
  obtain ⟨⟨n, rfl⟩, hdone⟩ := h
  have htwins := hx n s t hst.at
  exact ⟨x n t, ⟨⟨n, rfl⟩, htwins.halt?_eq ▸ hdone⟩, htwins⟩

end Run

end MiniC
