import MiniC.Proofs.EvaluationContract
import MiniC.Proofs.FrameEffect
import MiniC.Proofs.ReportedConstructs

/-!
# Blamed expressions

When an expression is carried out, whatever is reported is reported for this expression: a fault has
the place of the expression or of one inside it (`Program.LiesIn`), and a construct without a
meaning is one that the expression is (`Image.Meaningless`). So the expression is to blame for how
the run halts (`Halt.BlamedOn`).

What is known of a run before that is collected in an `Image.Scene`: which expressions belong to the
frame that is on top, and which diagnostics may be there. While the top frame works inside an
expression (`State.Working`), every operation for this expression keeps that so, or halts and the
expression is to blame (`Run.Blames`). This holds of everything that an expression does once its
operands have values, save for the body of a function that it calls (`Run.blames_handle`).
-/

set_option autoImplicit false

namespace MiniC

/-! ## Places and constructs -/

namespace Program

variable {p : Program}

/-- The place is that of an expression or of one inside it. -/
def LiesIn (p : Program) (e : ExprId) (loc : Location) : Prop :=
  ∃ d, p.Contains e d ∧ (p.expr d).loc = loc

/-- An expression lies in itself. -/
theorem liesIn_self (p : Program) (e : ExprId) : p.LiesIn e (p.expr e).loc := ⟨e, .self e, rfl⟩

/-- The place of an operand lies in the expression. -/
theorem liesIn_operand {e c : ExprId} (hc : c ∈ p.operands e) : p.LiesIn e (p.expr c).loc :=
  ⟨c, .operand hc (.self c), rfl⟩

end Program

/-- An expression is reported as a construct without a meaning: one that it is whatever the values
of its operands, or a variable of a type that has no values. -/
inductive Image.Meaningless (image : Image) (e : ExprId) : Unsupported → Prop
  | construct {c : Unsupported} : image.unsupported? e = some c → Meaningless image e c
  | reference {d : DeclId} {type : CType} {init : Option ExprId} {storage : Storage} :
      (image.program.expr e).kind = .declRef d →
        (image.program.decl d).kind = .variable type init storage →
      (type.isInteger || type.isPointer || type.isArray) = false →
      Meaningless image e (.reference (image.program.decl d).name type)

/-- The construct without a meaning that a fault names, if it does. -/
def RuntimeFault.construct? : RuntimeFault → Option Unsupported
  | .unsupported c => some c
  | _ => none

/-- The expression is to blame for a halt: it is reported inside the expression, and as nothing that
the expression is not. -/
def Halt.BlamedOn (image : Image) (e : ExprId) : Halt → Prop
  | .error (.fault cause loc) =>
    image.program.LiesIn e loc ∧ ∀ c ∈ cause.construct?, image.Meaningless e c
  | .error .noEntryFunction => False
  | .outOfFuel => True

/-- The expression that an operation is carried out for is to blame for a fault that is no
construct. -/
theorem Halt.blamedOn_fault {image : Image} {e : ExprId} {cause : RuntimeFault} {loc : Location}
    (hloc : image.program.LiesIn e loc) (hcause : cause.construct? = none) :
    Halt.BlamedOn image e (.error (.fault cause loc)) := ⟨hloc, by simp [hcause]⟩

/-! ## Scenes -/

/-- Whose frame is on top of a stack: that of the file, or that of a call. -/
def CallStack.site (stack : CallStack) : Option (Option DeclId) :=
  stack.calls.head?.map Frame.function

/-- What is known of a run: the expressions that may be carried out in a frame, which are closed
under operands and comprise the bodies of functions, and the diagnostics that may be there, which
comprise those that are reported. -/
structure Image.Scene (image : Image) where
  encloses : Option (Option DeclId) → ExprId → Prop
  kept : Diagnostic → Prop
  operand : ∀ {site e c}, encloses site e → c ∈ image.program.operands e → encloses site c
  body : ∀ {d returnType params body e},
    (image.program.decl d).kind = .function returnType params (some body) →
    image.program.StmtContains body e → encloses (some (some d)) e
  report : ∀ {e construct}, image.Meaningless e construct →
    kept ⟨construct, (image.program.expr e).loc⟩

namespace State

variable {κ : Type}

/-- The diagnostics are among those that may be there. -/
def Keeps (kept : Diagnostic → Prop) (s : State κ) : Prop := ∀ d ∈ s.diagnostics, kept d

/-- In a certain frame a node inside the expression is worked on. -/
structure Working {image : Image} (S : image.Scene) (site : Option (Option DeclId))
    (e : ExprId) (s : State κ) :
    Prop where
  kept : s.Keeps S.kept
  site : s.stack.site = site
  focus : ∃ d, image.program.Contains e d ∧ s.stack.top.focus = some (.expr d)

variable {image : Image} {S : image.Scene} {site : Option (Option DeclId)}
    {e : ExprId} {s t : State κ}

/-- The place where the run stands lies in the expression. -/
theorem Working.liesIn (h : s.Working S site e) :
    image.program.LiesIn e (image.locationIn s.stack) := by
  obtain ⟨d, hd, hfocus⟩ := h.focus
  refine ⟨d, hd, ?_⟩
  rw [Image.locationIn, hfocus]

/-- Whether a node is worked on depends on the top frame and on the diagnostics. -/
theorem Working.of_stack (h : s.Working S site e) (hsite : t.stack.site = s.stack.site)
    (hfocus : t.stack.top.focus = s.stack.top.focus)
    (hdiagnostics : t.diagnostics = s.diagnostics) :
    t.Working S site e where
  kept := by
    unfold Keeps
    rw [hdiagnostics]
    exact h.kept
  site := hsite.trans h.site
  focus := hfocus ▸ h.focus

end State

/-- A change of the top frame that keeps whose frame it is. -/
theorem CallStack.site_modifyTop (stack : CallStack) {f : Frame → Frame}
    (hf : ∀ frame, (f frame).function = frame.function) :
    (stack.modifyTop f).site = stack.site := by
  rcases stack with ⟨_ | ⟨frame, callers⟩, global⟩
  · rfl
  · exact congrArg some (hf frame)

theorem Frame.function_bindDecls (frame : Frame) (bindings : List (DeclId × Int32)) :
    (frame.bindDecls bindings).function = frame.function := by
  induction bindings generalizing frame with
  | nil => rfl
  | cons binding bindings ih => exact ih (frame.bindDecl binding.1 binding.2)

/-- On top of a stack a frame was opened for a call. -/
theorem CallStack.site_opened (stack : CallStack) (callee : DeclId) (body : StmtId)
    (bindings : List (DeclId × Int32)) :
    { stack with calls := .opened callee body bindings :: stack.calls }.site = some (some callee) :=
  congrArg some (Frame.function_bindDecls _ bindings)

/-- The frame turns to the expression itself. -/
theorem State.working_turnedTo {κ : Type} {image : Image} {S : image.Scene}
    {site : Option (Option DeclId)}
    {s : State κ} (hkept : s.Keeps S.kept) (hsite : s.stack.site = site) (e : ExprId) :
    (Run.turnedTo s (.expr e)).Working S site e where
  kept := hkept
  site := (s.stack.site_modifyTop (f := (·.focusOn (.expr e))) fun _ => rfl).trans hsite
  focus := ⟨e, .self e, by simp [Run.turnedTo, Frame.focusOn]⟩

namespace Run

variable {κ α β : Type} {image : Image} {S : image.Scene}
    {site : Option (Option DeclId)} {e : ExprId}

/-- A computation was halted in a certain frame, and the expression is to blame. -/
structure HaltedFor (S : image.Scene) (site : Option (Option DeclId)) (e : ExprId)
    (halt : Halt) (t : State κ) :
    Prop where
  kept : t.Keeps S.kept
  site : t.stack.site = site
  blamed : halt.BlamedOn image e

/-- While a node inside the expression is worked on, the computation keeps that so, or the
expression is to blame. -/
def Blames (S : image.Scene) (site : Option (Option DeclId)) (e : ExprId) (x : Run κ α) : Prop :=
  ∀ s, s.Working S site e → Ensures x s (fun _ t => t.Working S site e) (HaltedFor S site e)

namespace Blames

theorem pure (a : α) : Blames S site e (pure a : Run κ α) := fun _ hs => hs

/-- Computations for the same expression may follow one another. -/
theorem bind {x : Run κ α} {f : α → Run κ β} (hx : Blames S site e x)
    (hf : ∀ a, Blames S site e (f a)) :
    Blames S site e (x >>= f) := by
  intro s hs
  rw [ensures_bind]
  exact (hx s hs).mono (fun a t ht => hf a t ht) fun _ _ h => h

theorem get_bind {f : State κ → Run κ β} (hf : ∀ a, Blames S site e (f a)) :
    Blames S site e (get >>= f) :=
  fun s hs => hf s s hs

/-- To blame an expression is kept by all ways of putting computations together. -/
theorem composes : Composes (Alone fun _ (x : Run κ _) => Blames S site e x) := ⟨pure, bind⟩

/-- A fault that is no construct is reported inside the expression. -/
theorem fault {cause : RuntimeFault} {loc : Location} (hloc : image.program.LiesIn e loc)
    (hcause : cause.construct? = none) : Blames S site e (fault cause loc : Run κ α) :=
  fun _ hs => ⟨hs.kept, hs.site, Halt.blamedOn_fault hloc hcause⟩

/-- A fault that is reported for what is worked on. -/
theorem ensures_faultHere {s : State κ} (hs : s.Working S site e) {cause : RuntimeFault}
    (hcause : cause.construct? = none) {Q : α → State κ → Prop} :
    Ensures (Run.faultHere image cause) s Q (HaltedFor S site e) :=
  ⟨hs.kept, hs.site, Halt.blamedOn_fault hs.liesIn hcause⟩

/-- A fault is raised at the node that is worked on. -/
theorem faultHere {cause : RuntimeFault} (hcause : cause.construct? = none) :
    Blames S site e (faultHere image cause : Run κ α) := fun _ hs => ensures_faultHere hs hcause

/-- Changing values in the top frame does not change what is worked on. -/
theorem modifyTop {f : Frame → Frame} (hfunction : ∀ frame, (f frame).function = frame.function)
    (hfocus : ∀ frame, (f frame).focus = frame.focus) :
    Blames S site e (modifyStack (·.modifyTop f) : Run κ Unit) := by
  intro s hs
  refine hs.of_stack (s.stack.site_modifyTop hfunction) ?_ rfl
  simp [hfocus]

theorem bindExpr (c : ExprId) (value : Int32) : Blames S site e (bindExpr c value : Run κ Unit) :=
  modifyTop (fun _ => rfl) fun _ => rfl

/-- Faults of memory name no construct. -/
theorem orFault (answer : Except MemoryFault α) :
    Blames S site e (orFault image answer : Run κ α) := by
  cases answer with
  | ok a => exact .pure a
  | error f => exact .faultHere rfl

/-- An expression without a value is reported at the node that is worked on. -/
theorem valueOf (c : ExprId) : Blames S site e (valueOf image c : Run κ Int32) :=
  .get_bind fun _ => .orFault _

theorem valueOfDecl (d : DeclId) : Blames S site e (valueOfDecl image d : Run κ Int32) := by
  refine .get_bind fun s => ?_
  dsimp only
  split
  · exact .pure _
  · exact .faultHere rfl

/-- An operand that cannot be converted is reported at its own place. -/
theorem checkConversion {source : ExprId} (hsource : source ∈ image.program.operands e)
    (expected : CType) :
    Blames S site e (checkConversion image expected source : Run κ Unit) := by
  unfold Run.checkConversion
  dsimp only
  split
  · exact .fault (Program.liesIn_operand hsource) rfl
  · exact .pure ()

theorem checkArity (function : String) (expected got : Nat) :
    Blames S site e (checkArity image function expected got : Run κ Unit) := by
  unfold Run.checkArity
  split
  · exact .faultHere rfl
  · exact .pure ()

/-- An element that is not there is reported at the node that is worked on. -/
theorem elementPlace (base index : ExprId) :
    Blames S site e (elementPlace image base index : Run κ Place) :=
  (valueOf base).bind fun _ => (valueOf index).bind fun _ => .pure _

/-- A read that fails is reported at the node that is worked on. -/
theorem load (place : Place) : Blames S site e (load image place : Run κ Int32) := by
  refine .get_bind fun s => ?_
  cases place <;> exact .orFault _

/-- What follows an answer of memory starts in the same state. -/
theorem ensures_orFault_bind {s : State κ} (hs : s.Working S site e) (answer : Except MemoryFault α)
    {f : α → Run κ β}
    (hf : ∀ a, Ensures (f a) s (fun _ t => t.Working S site e) (HaltedFor S site e)) :
    Ensures (Run.orFault image answer >>= f) s (fun _ t => t.Working S site e)
      (HaltedFor S site e) := by
  cases answer with
  | ok a => exact hf a
  | error fault => exact ensures_faultHere hs rfl

/-- A write that fails is reported at the node that is worked on. -/
theorem store (place : Place) (value : Int32) :
    Blames S site e (store image place value : Run κ Unit) := by
  intro s hs
  rw [Run.store, ensures_bind, ensures_get]
  cases place with
  | heap address => exact ensures_orFault_bind hs _ fun _ => hs.of_stack rfl rfl rfl
  | array id index => exact ensures_orFault_bind hs _ fun _ => hs.of_stack rfl rfl rfl

/-! ## Operators -/

variable [Console κ]

/-- A construct is reported for the expression that it is: as a fault if the run is strict, as a
diagnostic otherwise. -/
theorem report {construct : Unsupported} (hconstruct : image.Meaningless e construct) :
    Blames S site e (report image e construct : Run κ Unit) := by
  unfold Run.report
  dsimp only
  split
  · refine fun s hs => ⟨hs.kept, hs.site, image.program.liesIn_self e, ?_⟩
    rintro c ⟨⟩
    exact hconstruct
  · refine .bind (fun s hs => ⟨fun d hd => ?_, hs.site, hs.focus⟩) fun _ => .bindExpr e 0
    rcases Array.mem_push.1 hd with hd | rfl
    · exact hs.kept d hd
    · exact S.report hconstruct

/-- A name without a value is reported as the construct that it is. -/
theorem reference {d : DeclId} (hk : (image.program.expr e).kind = .declRef d) :
    Blames S site e (reference image e d : Run κ Unit) := by
  unfold Run.reference
  dsimp only
  split
  · next type init storage hd =>
    split
    · exact (valueOfDecl d).bind fun _ => .bindExpr e _
    · next htype => exact .report (.reference hk hd (Bool.eq_false_iff.2 htype))
  · next returnType params body hd =>
    split
    · exact .bindExpr e 0
    · next hbuiltin =>
      refine .report (.construct ?_)
      simp [Image.unsupported?, hk, Decl.isFunction, hd, Option.not_isSome_iff_eq_none.1 hbuiltin]

omit [Console κ] in
theorem cast (operand : ExprId) : Blames S site e (cast image e operand : Run κ Unit) := by
  unfold Run.cast
  split
  · exact .pure _
  · exact (valueOf operand).bind fun _ => .bindExpr e _

omit [Console κ] in
theorem sizeOf (type : CType) : Blames S site e (sizeOf image e type : Run κ Unit) := by
  unfold Run.sizeOf
  split
  · exact .bindExpr e _
  · split
    · exact .bindExpr e _
    · exact .fault (image.program.liesIn_self e) rfl

omit [Console κ] in
theorem subscript (base index : ExprId) :
    Blames S site e (subscript image e base index : Run κ Unit) :=
  (elementPlace base index).bind fun place => (load place).bind fun _ => .bindExpr e _

/-- An operator without a meaning is reported as the construct that it is. -/
theorem unary {op : UnaryOp} {operand : ExprId}
    (hk : (image.program.expr e).kind = .unary op operand) :
    Blames S site e (unary image e op operand : Run κ Unit) := by
  cases op with
  | deref =>
    exact (valueOf operand).bind fun address => (load (.heap address)).bind fun _ => .bindExpr e _
  | neg | plus | not | bitNot => exact (valueOf operand).bind fun _ => .bindExpr e _
  | preInc | preDec | postInc | postDec | addressOf =>
    exact .report (.construct (by simp [Image.unsupported?, hk, UnaryOp.function?]))

variable {lhs rhs : ExprId}

omit [Console κ] in
/-- An operand of the wrong type is reported at its own place. -/
theorem arith (op : ArithOp) (hl : lhs ∈ image.program.operands e)
    (hr : rhs ∈ image.program.operands e) :
    Blames S site e (arith image e op lhs rhs : Run κ Unit) := by
  refine (valueOf lhs).bind fun l => (valueOf rhs).bind fun r => ?_
  cases op with
  | additive op =>
    dsimp only
    split
    · exact .bindExpr e _
    · exact .fault (Program.liesIn_operand hl) rfl
  | multiplicative op =>
    dsimp only
    split
    · exact .bindExpr e _
    · exact .fault (Program.liesIn_operand hr) rfl

omit [Console κ] in
/-- The value of a variable changes in a frame that goes on working on the same node. -/
theorem assignDecl (d : DeclId) (value : Int32) :
    Blames S site e (assignDecl d value : Run κ Unit) := by
  intro s hs
  rw [Run.assignDecl, ensures_modifyStack]
  -- the variable is in the top frame or in that of the file
  split
  · refine hs.of_stack (s.stack.site_modifyTop fun _ => rfl) ?_ rfl
    rw [CallStack.top_modifyTop]
    rfl
  · refine hs.of_stack rfl ?_ rfl
    rcases s.stack with ⟨_ | _, _⟩ <;> rfl

/-- What nothing can be assigned to is reported for the assignment. -/
theorem assignTarget (hk : (image.program.expr e).kind = .binary .assign lhs rhs) (value : Int32) :
    Blames S site e (assignTarget image e (image.program.stripParens lhs) value : Run κ Unit) := by
  have hreport (h : image.program.isAssignable (image.program.stripParens lhs) = false) :
      Blames S site e (Run.report image e .assignmentTarget : Run κ Unit) :=
    .report (.construct (by simp [Image.unsupported?, hk, h]))
  cases h : image.program.isAssignable (image.program.stripParens lhs) with
  | false =>
    rw [assignTarget_eq_report h]
    exact hreport h
  | true =>
    unfold Run.assignTarget
    unfold Program.isAssignable at h
    split
    · next d ht =>
      rw [ht] at h
      dsimp only at h
      split
      · next type init storage hd =>
        rw [hd] at h
        dsimp only at h
        rw [if_neg (by simpa using h)]
        exact .assignDecl d value
      · next hd =>
        rw [hd] at h
        cases h
    · exact (valueOf _).bind fun _ => .store _ value
    · exact (elementPlace _ _).bind fun _ => .store _ value
    · next hd hu hs =>
      -- every target that can be assigned to is one of the others
      split at h
      · next d ht => exact absurd ht (hd d)
      · next operand ht => exact absurd ht (hu operand)
      · next base index ht => exact absurd ht (hs base index)
      · cases h

/-- A target that is none is reported as the construct that it is. -/
theorem assign (hk : (image.program.expr e).kind = .binary .assign lhs rhs) :
    Blames S site e (assign image e lhs rhs : Run κ Unit) := by
  have hstore : Blames S site e (do
      let value ← Run.valueOf image rhs
      Run.bindExpr lhs value
      Run.bindExpr e value
      Run.assignTarget image e (image.program.stripParens lhs) value : Run κ Unit) :=
    (valueOf rhs).bind fun value => (bindExpr lhs value).bind fun _ =>
      (bindExpr e value).bind fun _ => .assignTarget hk value
  unfold Run.assign
  dsimp only
  split
  · refine (checkConversion ?_ _).bind fun _ => hstore
    simp [Program.operands, hk, ExprKind.operands]
  · exact hstore

/-- The same of all operators with two operands. -/
theorem binary {op : BinaryOp} (hk : (image.program.expr e).kind = .binary op lhs rhs) :
    Blames S site e (binary image e op lhs rhs : Run κ Unit) := by
  have hl : lhs ∈ image.program.operands e := Program.mem_operands hk List.mem_cons_self
  have hr : rhs ∈ image.program.operands e :=
    Program.mem_operands hk (List.mem_cons_of_mem _ List.mem_cons_self)
  cases op with
  | assign => exact .assign hk
  | arith op => exact .arith op hl hr
  | comparison op => exact (valueOf lhs).bind fun _ => (valueOf rhs).bind fun _ => .bindExpr e _
  | logical _ | bitwise _ | compoundAssign _ =>
    exact .report (.construct (by simp [Image.unsupported?, hk]))

/-! ## Calls -/

theorem callGet : Blames S site e (callGet image e : Run κ Unit) := by
  intro s hs
  rw [Run.callGet, ensures_bind, ensures_get]
  dsimp only
  rw [ensures_bind, ensures_set]
  have hread : State.Working S site e { s with console := (Console.readInt s.console).2 } :=
    hs.of_stack rfl rfl rfl
  split
  · exact Blames.bindExpr e _ _ hread
  · exact ensures_faultHere hread rfl

omit [Console κ] in
theorem callMalloc (arg : ExprId) : Blames S site e (callMalloc image e arg : Run κ Unit) := by
  refine (valueOf arg).bind fun size s hs => ?_
  rw [ensures_bind, ensures_get]
  refine ensures_orFault_bind hs _ fun block => ?_
  rw [ensures_bind, ensures_set]
  exact Blames.bindExpr e block.1 _ (hs.of_stack rfl rfl rfl)

/-- A built-in function blames the call that it is called by. -/
theorem callBuiltin (b : Builtin) (args : List ExprId) :
    Blames S site e (callBuiltin image e b args : Run κ Unit) := by
  refine (checkArity _ _ _).bind fun _ => ?_
  split
  · exact .callGet
  · exact (valueOf _).bind fun _ _ hs => hs.of_stack rfl rfl rfl
  · exact .callMalloc _
  · exact (valueOf _).bind fun _ _ hs => hs.of_stack rfl rfl rfl
  · exact .pure _

end Blames

section Calls

variable {callee : DeclId} {params : List DeclId} {body : StmtId} {args : List ExprId} {s : State κ}

/-- What comes after a computation may be shown to blame the expression in its own way. -/
theorem Blames.ensures_bind {x : Run κ α} {f : α → Run κ β} {Q : β → State κ → Prop}
    (hx : Blames S site e x)
    (hs : s.Working S site e) (hf : ∀ a t, t.Working S site e →
      Ensures (f a) t Q (HaltedFor S site e)) :
    Ensures (x >>= f) s Q (HaltedFor S site e) := by
  rw [Run.ensures_bind]
  exact (hx s hs).mono (fun a t ht => hf a t ht) fun _ _ h => h

/-- A call checks its arguments for the expression; then there is a frame of the function that is
called. -/
theorem ensures_enterBody_blames (hargs : ∀ a ∈ args, a ∈ image.program.operands e)
    (hs : s.Working S site e) :
    Ensures (enterBody image callee params body args) s
      (fun _ t => t.Keeps S.kept ∧ t.stack.site = some (some callee)) (HaltedFor S site e) := by
  unfold enterBody
  have c : Composes (Alone fun _ x => Blames (κ := κ) S site e x) := Blames.composes
  refine (Blames.checkArity _ _ _).ensures_bind hs fun _ s hs => ?_
  refine Blames.ensures_bind (c.alone (c.forM _ fun pair hpair => ?_)) hs fun _ s hs => ?_
  · exact Blames.checkConversion (hargs pair.2 (List.of_mem_zip hpair).2) _
  refine Blames.ensures_bind (c.alone (c.mapM args fun arg _ => Blames.valueOf arg)) hs
    fun values s hs => ?_
  rw [Run.ensures_bind, ensures_get]
  dsimp only
  split
  · exact Blames.ensures_faultHere hs rfl
  · unfold Ensures
    rw [openFrame_apply]
    exact ⟨hs.kept, s.stack.site_opened callee body _⟩

/-- What a call leads to when it began: it is done, or a body of a function is to be executed in a
frame of its own. -/
def Begun (S : image.Scene) (site : Option (Option DeclId)) (e : ExprId)
    (callee : DeclId) (t : State κ) :
    Option StmtId → Prop
  | none => t.Working S site e
  | some body => t.Keeps S.kept ∧ t.stack.site = some (some callee) ∧
      ∃ returnType params, (image.program.decl callee).kind =
        .function returnType params (some body)

/-- A call begins, or the expression is to blame for its not beginning. -/
theorem ensures_enterCall_blames [Console κ] (hargs : ∀ a ∈ args, a ∈ image.program.operands e)
    (hs : s.Working S site e) :
    Ensures (enterCall image e callee args) s (fun entered t => Begun S site e callee t entered)
      (HaltedFor S site e) := by
  unfold enterCall
  split
  · next b _ => exact (Blames.callBuiltin b args).ensures_bind hs fun _ _ ht => ht
  · dsimp only
    split
    · next returnType params body hk =>
      rw [Run.ensures_bind]
      exact (ensures_enterBody_blames hargs hs).mono (fun _ t ht =>
        ⟨ht.1, ht.2, returnType, params, hk⟩) fun _ _ h => h
    · exact Blames.ensures_faultHere hs rfl

end Calls

/-! ## What an expression does itself -/

/-- An evaluator that leaves everything as it is. -/
def Evaluator.idle : Evaluator κ :=
  ⟨fun _ => pure (), fun _ => pure (), fun _ => pure (), fun _ => pure .normal⟩

variable [Console κ]

/-- What an expression does itself once its operands have values: a function that it calls does
nothing. -/
def handle (image : Image) (e : ExprId) : Run κ Unit := conclude image .idle e

/-- Of all expressions only calls need an evaluator once their operands have values. -/
theorem conclude_eq_handle (ev : Evaluator κ)
    (hcall : ∀ callee args, (image.program.expr e).kind ≠ .call callee args) :
    conclude image ev e = handle image e := by
  unfold handle conclude
  split
  case h_6 callee args hk => exact absurd hk (hcall callee args)
  all_goals rfl

/-- A call whose function is not entered fails itself. -/
theorem handle_of_enterCall {callee : DeclId} {args : List ExprId} {s t : State κ} {halt : Halt}
    (hk : (image.program.expr e).kind = .call callee args)
    (h : enterCall image e callee args (turnedTo s (.expr e)) = .error halt t) :
    handle image e s = .error halt t := by
  unfold handle conclude
  rw [hk]
  dsimp only
  rw [finishCall, bind_apply, focusOn_apply]
  dsimp only
  rw [bind_apply, h]

/-- Everything but a call keeps the frame at work, or is to blame. -/
theorem blames_handle (hcall : ∀ callee args, (image.program.expr e).kind ≠ .call callee args) :
    Blames S site e (handle image e : Run κ Unit) := by
  have hfocused {x : Run κ Unit} (hx : Blames S site e x) :
      Blames S site e (do focusOn (.expr e); x) :=
    .bind (fun _ hs => State.working_turnedTo hs.kept hs.site e) fun _ => hx
  unfold handle conclude
  cases hk : (image.program.expr e).kind with
  | intLiteral value => exact .bindExpr e value
  | declRef d => exact .reference hk
  | paren inner => exact (Blames.valueOf inner).bind fun _ => .bindExpr e _
  | unary op operand => exact hfocused (.unary hk)
  | binary op lhs rhs => exact hfocused (.binary hk)
  | call callee args => exact absurd hk (hcall callee args)
  | subscript base index => exact hfocused (.subscript base index)
  | cast operand => exact .cast operand
  | sizeOf type => exact .sizeOf type

end Run

end MiniC
