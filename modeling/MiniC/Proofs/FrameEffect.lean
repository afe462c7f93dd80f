import MiniC.Proofs.OperationEffect

/-!
# What evaluation does to the call stack

A computation that works in the top frame leaves the frames below alone, up to the values that it
assigns to variables of the file (`CallStack.Effect`). Expressions are stricter than statements:
they give no variable to the frame of a call (`CallStack.ExprEffect`). Every operation stays within
the relation for its own node, a call pushes one frame and removes it again, and so the relation for
all nodes inside (`Program.Contains`, `Program.StmtContains`) carries over to evaluation and
execution by induction on the fuel.
-/

set_option autoImplicit false

namespace MiniC

/-! ## Frames -/

/-- A frame before and after a change that concerns the values of declarations alone and takes none
away. -/
structure Frame.SameButDecls (before after : Frame) : Prop where
  function : after.function = before.function
  exprs : after.exprs = before.exprs
  focus : after.focus = before.focus
  held : ∀ d, (before.decl? d).isSome → (after.decl? d).isSome

namespace Frame

theorem SameButDecls.refl (frame : Frame) : frame.SameButDecls frame :=
  ⟨rfl, rfl, rfl, fun _ h => h⟩

/-- Changes of the values of declarations may follow one another. -/
theorem SameButDecls.trans {f g h : Frame} (hfg : f.SameButDecls g) (hgh : g.SameButDecls h) :
    f.SameButDecls h :=
  ⟨hgh.function.trans hfg.function, hgh.exprs.trans hfg.exprs, hgh.focus.trans hfg.focus,
    fun d hd => hgh.held d (hfg.held d hd)⟩

/-- A frame that has a value for a declaration still has one after another value is bound. -/
theorem held_bindDecl (frame : Frame) (d : DeclId) (value : Int32) (d' : DeclId)
    (h : (frame.decl? d').isSome) : ((frame.bindDecl d value).decl? d').isSome := by
  rw [decl?_bindDecl]
  split
  · rfl
  · exact h

/-- Giving a value to a declaration concerns declarations alone. -/
theorem sameButDecls_bindDecl (frame : Frame) (d : DeclId) (value : Int32) :
    frame.SameButDecls (frame.bindDecl d value) :=
  ⟨rfl, rfl, rfl, frame.held_bindDecl d value⟩

end Frame

/-! ## Stacks -/

namespace CallStack

/-- The stack before and after a computation in the top frame that gives values to `nodes` only. -/
structure Effect (nodes : ExprId → Prop) (before after : CallStack) : Prop where
  depth : after.depth = before.depth
  callers : after.calls.tail = before.calls.tail
  global : before.calls ≠ [] → before.global.SameButDecls after.global
  function : after.top.function = before.top.function
  exprs : ∀ e, ¬ nodes e → after.top.expr? e = before.top.expr? e
  held : ∀ d, (before.top.decl? d).isSome → (after.top.decl? d).isSome

/-- The same for an expression, which introduces no variable in the frame of a call. -/
structure ExprEffect (nodes : ExprId → Prop) (before after : CallStack) : Prop
    extends Effect nodes before after where
  decls : before.calls ≠ [] → ∀ d, (after.top.decl? d).isSome → (before.top.decl? d).isSome

variable {nodes nodes' : ExprId → Prop} {s t u : CallStack}

/-- A computation in the top frame leaves as many frames as there were. -/
theorem Effect.calls_eq_nil (h : Effect nodes s t) : t.calls = [] ↔ s.calls = [] := by
  have hd : t.calls.length = s.calls.length := Nat.succ.inj h.depth
  rw [← List.length_eq_zero_iff, hd, List.length_eq_zero_iff]

theorem Effect.refl (s : CallStack) : Effect nodes s s :=
  ⟨rfl, rfl, fun _ => .refl _, rfl, fun _ _ => rfl, fun _ h => h⟩

/-- Computations in the top frame may follow one another. -/
theorem Effect.trans (hst : Effect nodes s t) (htu : Effect nodes t u) : Effect nodes s u where
  depth := htu.depth.trans hst.depth
  callers := htu.callers.trans hst.callers
  global hs := (hst.global hs).trans (htu.global (mt hst.calls_eq_nil.1 hs))
  function := htu.function.trans hst.function
  exprs e he := (htu.exprs e he).trans (hst.exprs e he)
  held d hd := htu.held d (hst.held d hd)

/-- More nodes may be said to get values. -/
theorem Effect.mono (h : Effect nodes s t) (hn : ∀ e, nodes e → nodes' e) : Effect nodes' s t :=
  ⟨h.depth, h.callers, h.global, h.function, fun e he => h.exprs e (mt (hn e) he), h.held⟩

theorem ExprEffect.refl (s : CallStack) : ExprEffect nodes s s :=
  ⟨.refl s, fun _ _ h => h⟩

/-- Expressions may follow one another. -/
theorem ExprEffect.trans (hst : ExprEffect nodes s t) (htu : ExprEffect nodes t u) :
    ExprEffect nodes s u :=
  ⟨hst.toEffect.trans htu.toEffect, fun hs d hd =>
    hst.decls hs d (htu.decls (mt hst.calls_eq_nil.1 hs) d hd)⟩

/-- More expressions may be said to get values. -/
theorem ExprEffect.mono (h : ExprEffect nodes s t) (hn : ∀ e, nodes e → nodes' e) :
    ExprEffect nodes' s t :=
  ⟨h.toEffect.mono hn, h.decls⟩

/-- A change of the top frame that gives values to `nodes` only and keeps the declarations held. -/
theorem effect_modifyTop (s : CallStack) {f : Frame → Frame}
    (hf : (f s.top).function = s.top.function)
    (he : ∀ e, ¬ nodes e → (f s.top).expr? e = s.top.expr? e)
    (hd : ∀ d, (s.top.decl? d).isSome → ((f s.top).decl? d).isSome) :
    Effect nodes s (s.modifyTop f) where
  depth := by simp
  callers := by simp
  global hs := by
    rw [global_modifyTop hs]
    exact .refl _
  function := by simpa using hf
  exprs := by simpa using he
  held := by simpa using hd

/-- Turning to a node is an effect on the top frame. -/
theorem exprEffect_focusOn (s : CallStack) (focus : Focus) :
    ExprEffect nodes s (s.modifyTop (·.focusOn focus)) :=
  ⟨effect_modifyTop s rfl (by simp) (by simp), by simp⟩

/-- Giving a value to an expression of its own is an effect of an expression. -/
theorem exprEffect_bindExpr (s : CallStack) {e : ExprId} (he : nodes e) (value : Int32) :
    ExprEffect nodes s (s.modifyTop (·.bindExpr e value)) := by
  refine ⟨effect_modifyTop s rfl (fun e' he' => ?_) (by simp), by simp⟩
  rw [Frame.expr?_bindExpr, if_neg]
  rintro rfl
  exact he' he

/-- Declaring a variable is an effect of a statement. -/
theorem effect_bindDecl (s : CallStack) (d : DeclId) (value : Int32) :
    Effect nodes s (s.modifyTop (·.bindDecl d value)) :=
  effect_modifyTop s rfl (fun _ _ => rfl) (s.top.held_bindDecl d value)

/-- Changing a declaration that the top frame holds introduces none. -/
theorem exprEffect_bindDecl (s : CallStack) {d : DeclId} (hd : (s.top.decl? d).isSome)
    (value : Int32) : ExprEffect nodes s (s.modifyTop (·.bindDecl d value)) := by
  refine ⟨effect_bindDecl s d value, fun _ d' hd' => ?_⟩
  rw [top_modifyTop, Frame.decl?_bindDecl] at hd'
  split at hd'
  · next h => exact h ▸ hd
  · exact hd'

/-- Assigning to a variable of the file is an effect of an expression too. -/
theorem exprEffect_bindDecl_global (s : CallStack) (d : DeclId) (value : Int32) :
    ExprEffect nodes s (s.modifyGlobal (·.bindDecl d value)) := by
  by_cases hs : s.calls = []
  · have hmod : s.modifyGlobal (·.bindDecl d value) = s.modifyTop (·.bindDecl d value) := by
      rcases s with ⟨_ | _, _⟩
      · rfl
      · exact absurd hs (by simp)
    rw [hmod]
    exact ⟨effect_bindDecl s d value, fun h => absurd hs h⟩
  · have htop : (s.modifyGlobal (·.bindDecl d value)).top = s.top := top_modifyGlobal hs _
    exact ⟨⟨rfl, rfl, fun _ => Frame.sameButDecls_bindDecl _ _ _, by rw [htop], by simp [htop],
      by simp [htop]⟩, by simp [htop]⟩

/-- A call that pushes a frame and removes it again, as the caller sees it. -/
theorem exprEffect_pop {function : DeclId} (h : Effect nodes' (s.push function) t) :
    ExprEffect nodes s t.pop.2 := by
  have hpop : t.pop.2 = { s with global := t.global } := by
    have htail : t.calls.tail = s.calls := h.callers
    have hcalls : t.calls ≠ [] := mt h.calls_eq_nil.1 (by simp [push])
    rcases t with ⟨_ | ⟨frame, callers⟩, global⟩
    · exact absurd rfl hcalls
    · exact congrArg (CallStack.mk · global) htail
  have hglobal : s.global.SameButDecls t.global := h.global (by simp [push])
  rw [hpop]
  rcases s with ⟨_ | ⟨frame, callers⟩, global⟩
  · exact ⟨⟨rfl, rfl, fun hs => absurd rfl hs, hglobal.function, fun e _ => by
      simp only [top, List.head?_nil, Option.getD_none, Frame.expr?, hglobal.exprs], hglobal.held⟩,
      fun hs => absurd rfl hs⟩
  · exact ⟨⟨rfl, rfl, fun _ => hglobal, rfl, fun _ _ => rfl, fun _ hd => hd⟩, fun _ _ hd => hd⟩

/-- When a call is over, the caller's frame works on what it worked on before. -/
theorem focus_pop {function : DeclId} (h : Effect nodes' (s.push function) t) :
    t.pop.2.top.focus = s.top.focus := by
  have hpush : (s.push function).calls ≠ [] := List.cons_ne_nil _ _
  have hcalls : t.calls ≠ [] := mt h.calls_eq_nil.1 hpush
  have htail : t.calls.tail = s.calls := h.callers
  have hglobal : t.global.focus = s.global.focus := (h.global hpush).focus
  -- below the frame that is left is a caller, or the frame of the file
  rcases t with ⟨_ | ⟨frame, callers⟩, global⟩
  · exact absurd rfl hcalls
  · subst htail
    rcases s with ⟨_ | ⟨caller, others⟩, below⟩
    · exact hglobal
    · rfl

end CallStack

/-! ## Operations -/

namespace Run

open CallStack

variable {κ α : Type}

/-- Every halt leaves at least the frames that there were. -/
def KeepsFrames (s t : State κ) : Prop := s.stack.depth ≤ t.stack.depth

/-- A computation with the effect of a statement on the stack. -/
abbrev StmtLocal (nodes : ExprId → Prop) : Run κ α → Prop :=
  Within (fun s t => Effect nodes s.stack t.stack) KeepsFrames

/-- A computation with the effect of an expression on the stack. -/
abbrev ExprLocal (nodes : ExprId → Prop) : Run κ α → Prop :=
  Within (fun s t => ExprEffect nodes s.stack t.stack) KeepsFrames

/-- Effects of statements compose, and every halt leaves the frames. -/
theorem stmtEffects (nodes : ExprId → Prop) :
    Effects (fun s t : State κ => Effect nodes s.stack t.stack) KeepsFrames where
  refl s := .refl s.stack
  trans := Effect.trans
  halted _ := Nat.le_refl _
  after hst htu := Nat.le_trans (Nat.le_of_eq hst.depth.symm) htu

/-- Effects of expressions compose and allow for binding their nodes. -/
theorem exprEffects (nodes : ExprId → Prop) :
    NodeEffects nodes (fun s t : State κ => ExprEffect nodes s.stack t.stack) KeepsFrames where
  refl s := .refl s.stack
  trans := ExprEffect.trans
  halted _ := Nat.le_refl _
  after hst htu := Nat.le_trans (Nat.le_of_eq hst.depth.symm) htu
  bindExpr s value he := exprEffect_bindExpr s.stack he value
  focusOn s focus := exprEffect_focusOn s.stack focus
  outside h := h ▸ .refl _

variable {nodes nodes' : ExprId → Prop}

/-- An effect on some expressions is one on more. -/
theorem ExprLocal.mono {x : Run κ α} (hx : ExprLocal nodes x) (hn : ∀ e, nodes e → nodes' e) :
    ExprLocal nodes' x :=
  Within.mono hx (fun _ _ h => h.mono hn) fun _ _ h => h

theorem StmtLocal.mono {x : Run κ α} (hx : StmtLocal nodes x) (hn : ∀ e, nodes e → nodes' e) :
    StmtLocal nodes' x :=
  Within.mono hx (fun _ _ h => h.mono hn) fun _ _ h => h

/-- What an expression may do, a statement may do. -/
theorem ExprLocal.toStmtLocal {x : Run κ α} (hx : ExprLocal nodes x) : StmtLocal nodes x :=
  Within.mono hx (fun _ _ h => h.toEffect) fun _ _ h => h

/-- A declaration gives a value to a variable of the top frame. -/
theorem stmtLocal_declare (d : DeclId) (value : Int32) :
    StmtLocal nodes (declare d value : Run κ Unit) :=
  fun s => effect_bindDecl s.stack d value

/-- An assignment gives a new value to a variable that is there, in the top frame or the file's. -/
theorem exprLocal_assignDecl (d : DeclId) (value : Int32) :
    ExprLocal nodes (assignDecl d value : Run κ Unit) := by
  intro s
  rw [assignDecl, ensures_modifyStack]
  dsimp only
  split
  · next hd => exact exprEffect_bindDecl s.stack hd value
  · exact exprEffect_bindDecl_global s.stack d value

section Operations

variable [Console κ] (image : Image)

omit [Console κ] in
/-- Introducing a variable gives no value to a node. -/
theorem stmtLocal_initialise (d : DeclId) :
    StmtLocal nodes (initialise image d : Run κ Unit) := by
  cases hk : (image.program.decl d).kind with
  | function _ _ _ =>
    unfold initialise
    rw [hk]
    exact .pure (stmtEffects _) ()
  | «variable» _ _ _ =>
    refine (within_initialise image hk).mono (fun s t ⟨value, ht⟩ => ?_) fun s t ht => ?_
    · rw [ht]
      exact effect_bindDecl s.stack d value
    · exact Nat.le_of_eq (congrArg depth ht.symm)

omit [Console κ] in
/-- A new frame is pushed; what follows happens in it and gives no value to a node. -/
theorem ensures_openFrame (function : DeclId) (body : StmtId) (bindings : List (DeclId × Int32))
    (s : State κ) :
    Ensures (openFrame function body bindings) s
      (fun _ t => Effect (fun _ => False) (s.stack.push function) t.stack) fun _ t =>
        KeepsFrames s t := by
  have hbind : StmtLocal (fun _ => False) (do
      bindings.forM fun binding => declare binding.1 binding.2
      focusOn (.stmt body) : Run κ Unit) :=
    .bind (stmtEffects _) (.forM (stmtEffects _) bindings fun _ _ => stmtLocal_declare _ _)
      fun _ => ExprLocal.toStmtLocal ((exprEffects _).within_focusOn _)
  rw [openFrame, ensures_bind, ensures_modifyStack]
  exact (hbind _).mono (fun _ _ h => h) fun _ t h => Nat.le_trans (Nat.le_succ _) h

/-- What a call has done to the stack when it hands over the body to be executed, or when it is
done. -/
def Entered (nodes : ExprId → Prop) (callee : DeclId) (s t : State κ) : Option StmtId → Prop
  | none => ExprEffect nodes s.stack t.stack
  | some _ => Effect (fun _ => False) (s.stack.push callee) t.stack

omit [Console κ] in
/-- A body is entered in one more frame. -/
theorem ensures_enterBody (callee : DeclId) (params : List DeclId) (body : StmtId)
    (args : List ExprId) (s : State κ) :
    Ensures (enterBody image callee params body args) s
      (fun _ t => Effect (fun _ => False) (s.stack.push callee) t.stack) fun _ t =>
        KeepsFrames s t := by
  refine (readOnly_checkArity image _ _ _).ensures_bind (fun _ => ?_) fun _ => Nat.le_refl _
  refine (ReadOnly.forM (fun _ => ?_) _).ensures_bind (fun _ => ?_) fun _ => Nat.le_refl _
  · exact readOnly_checkConversion image _ _
  refine (ReadOnly.mapM (readOnly_valueOf image) args).ensures_bind (fun values => ?_) fun _ =>
    Nat.le_refl _
  rw [ensures_bind, ensures_get]
  dsimp only
  split
  · exact Nat.le_refl _
  · exact ensures_openFrame callee body _ s

/-- A call has pushed one frame by the time its body is to be executed. -/
theorem ensures_enterCall {e : ExprId} (he : nodes e) (callee : DeclId) (args : List ExprId)
    (s : State κ) :
    Ensures (enterCall image e callee args) s (fun entered t => Entered nodes callee s t entered)
      fun _ t => KeepsFrames s t := by
  unfold enterCall
  split
  · rw [ensures_bind]
    exact (exprEffects nodes).callBuiltin image he _ args s
  · dsimp only
    split
    · rw [ensures_bind]
      exact ensures_enterBody image callee _ _ args s
    · exact Nat.le_refl _

omit [Console κ] in
/-- Leaving a call removes the frame, and what was below it is as before the call. -/
theorem ensures_leaveCall {e : ExprId} (he : nodes e) (value : Int32) {callee : DeclId}
    {s t : State κ} (h : Effect nodes' (s.stack.push callee) t.stack) :
    Ensures (leaveCall e value) t (fun _ u => ExprEffect nodes s.stack u.stack) fun _ _ =>
      False := by
  rw [leaveCall, ensures_bind, ensures_modifyStack]
  exact (exprEffect_pop h).trans (exprEffect_bindExpr _ he value)

/-! ## Evaluation -/

/-- An evaluator whose members stay within the relations for the nodes inside. -/
structure FrameLocal (ev : Evaluator κ) : Prop where
  expr : ∀ e, ExprLocal (image.program.Contains e) (ev.expr e)
  target : ∀ e, ExprLocal (image.program.Contains e) (ev.target e)
  decl : ∀ d, StmtLocal (image.program.DeclContains d) (ev.decl d)
  stmt : ∀ id, StmtLocal (image.program.StmtContains id) (ev.stmt id)

variable {image} {ev : Evaluator κ}

omit [Console κ] in
/-- An operand has its effect inside the expression. -/
theorem FrameLocal.operand (hev : FrameLocal image ev) {c e : ExprId}
    (hc : c ∈ image.program.operands e) : ExprLocal (image.program.Contains e) (ev.expr c) :=
  (hev.expr c).mono fun _ h => .operand hc h

variable (hev : FrameLocal image ev)
include hev

/-- A call leaves the frames of its callers as they are. -/
theorem FrameLocal.finishCall (e : ExprId) (callee : DeclId) (args : List ExprId) :
    ExprLocal (image.program.Contains e) (finishCall image ev e callee args) := by
  have he : image.program.Contains e e := .self e
  have c : NodeEffects (κ := κ) _ _ _ := exprEffects (image.program.Contains e)
  refine c.bind (c.within_focusOn _) fun _ => fun s => ?_
  rw [ensures_bind]
  refine (ensures_enterCall image he callee args s).mono (fun entered t ht => ?_) fun _ _ h => h
  cases entered with
  | none => exact ht
  | some body =>
    have hpush : t.stack.depth = s.stack.depth + 1 := ht.depth
    rw [ensures_bind, ensures_onOwnStack]
    refine (hev.stmt body t).mono (fun flow u hu => ?_) fun _ u hu => ?_
    · have hcall := (ht.mono fun _ h => h.elim).trans hu
      exact (ensures_leaveCall he flow.value hcall).mono (fun _ _ h => h) fun _ _ h => h.elim
    · exact Nat.le_trans (Nat.le_of_succ_le (Nat.le_of_eq hpush.symm)) hu

/-- What an expression does when its parts have values concerns its own node. -/
theorem FrameLocal.conclude (e : ExprId) :
    ExprLocal (image.program.Contains e) (conclude image ev e) := by
  have he : image.program.Contains e e := .self e
  have c : NodeEffects (κ := κ) _ _ _ := exprEffects (image.program.Contains e)
  unfold Run.conclude
  cases hk : (image.program.expr e).kind with
  | intLiteral value => exact c.within_bindExpr he value
  | declRef d => exact c.reference image he d
  | paren inner => exact c.after_read (readOnly_valueOf image inner) fun _ => c.within_bindExpr he _
  | unary op operand => exact c.bind (c.within_focusOn _) fun _ => c.unary image he op operand
  | binary op lhs rhs =>
    have hl : image.program.Contains e lhs :=
      .operand (Program.mem_operands hk List.mem_cons_self) (.self lhs)
    exact c.bind (c.within_focusOn _) fun _ =>
      c.binary image he (fun d value _ => exprLocal_assignDecl d value) hk hl
  | call callee args => exact hev.finishCall e callee args
  | subscript base index =>
    exact c.bind (c.within_focusOn _) fun _ => c.subscript image he base index
  | cast operand => exact c.cast image he operand
  | sizeOf type => exact c.sizeOf image he type

omit [Console κ] in
theorem FrameLocal.targetOperand {o e : ExprId} (ho : o ∈ image.program.operands e) :
    ExprLocal (image.program.Contains e) (ev.target o) :=
  (hev.target o).mono fun _ h => .operand ho h

/-- An expression has the effect of an expression if its parts have. -/
theorem FrameLocal.exprStep (e : ExprId) :
    ExprLocal (image.program.Contains e) (exprStep image ev e) := by
  have c := Within.composes (exprEffects (κ := κ) (image.program.Contains e)).toEffects
  exact c.alone (c.exprStep ((exprEffects _).within_focusOn _)
    (c.evalOperands rfl (fun _ ho => hev.operand ho) fun _ ho =>
      hev.targetOperand ho) (hev.conclude e))

omit [Console κ] in
/-- The target of an assignment has the effect of an expression if its parts have. -/
theorem FrameLocal.targetStep (e : ExprId) :
    ExprLocal (image.program.Contains e) (targetStep image ev e) := by
  have c := Within.composes (exprEffects (κ := κ) (image.program.Contains e)).toEffects
  exact c.alone (c.targetStep rfl (fun _ ho => hev.operand ho) fun _ ho => hev.targetOperand ho)

omit [Console κ] in
/-- A declaration has the effect of a statement if its initialiser has that of an expression. -/
theorem FrameLocal.declStep (d : DeclId) :
    StmtLocal (image.program.DeclContains d) (declStep image ev d) := by
  have c := Within.composes (stmtEffects (κ := κ) (image.program.DeclContains d))
  refine c.alone (c.declStep rfl (fun init hinit => ?_) (stmtLocal_initialise image d))
  exact ((hev.expr init).mono fun _ h => ⟨init, hinit, h⟩).toStmtLocal

omit [Console κ] in
/-- The expressions of a statement have their effect inside it. -/
theorem FrameLocal.root {e : ExprId} {id : StmtId} (he : e ∈ image.program.roots id) :
    StmtLocal (image.program.StmtContains id) (ev.expr e) :=
  ((hev.expr e).mono fun _ h => .root he h).toStmtLocal

omit [Console κ] in
/-- The statements in a statement have their effect inside it. -/
theorem FrameLocal.inner {i id : StmtId} (hi : i ∈ (image.program.stmt id).kind.inner) :
    StmtLocal (image.program.StmtContains id) (ev.stmt i) :=
  (hev.stmt i).mono fun _ h => .inner hi h

omit [Console κ] in
/-- A condition has the effect of its expression. -/
theorem FrameLocal.conditionHolds {e : ExprId} {id : StmtId} (he : e ∈ image.program.roots id) :
    StmtLocal (image.program.StmtContains id) (conditionHolds image ev e) := by
  have c := Within.composes (stmtEffects (κ := κ) (image.program.StmtContains id))
  exact c.alone
    (c.conditionHolds (hev.root he) (.of_readOnly (stmtEffects _) (readOnly_valueOf image e)))

omit [Console κ] in
theorem FrameLocal.loopContinues {condition : Option ExprId} {id : StmtId}
    (he : ∀ e ∈ condition, e ∈ image.program.roots id) :
    StmtLocal (image.program.StmtContains id) (loopContinues image ev condition) := by
  have c := Within.composes (stmtEffects (κ := κ) (image.program.StmtContains id))
  exact c.alone (c.loopContinues fun e hmem => hev.conditionHolds (he e hmem))

omit [Console κ] in
/-- A round of a loop has the effects of its body and its last clause. -/
theorem FrameLocal.forRound {body id : StmtId} {increment : Option ExprId}
    (hb : body ∈ (image.program.stmt id).kind.inner)
    (he : ∀ e ∈ increment, e ∈ image.program.roots id) :
    StmtLocal (image.program.StmtContains id) (forRound ev body increment) := by
  have c := Within.composes (stmtEffects (κ := κ) (image.program.StmtContains id))
  exact c.alone (c.forRound (hev.inner hb) fun e hmem => hev.root (he e hmem))

omit [Console κ] in
/-- A statement has the effect of a statement if its parts have theirs. -/
theorem FrameLocal.stmtStep (rounds : Nat) (id : StmtId) :
    StmtLocal (image.program.StmtContains id) (stmtStep image ev rounds id) := by
  have c := Within.composes (stmtEffects (κ := κ) (image.program.StmtContains id))
  have hroot {e : ExprId} (he : e ∈ (image.program.stmt id).kind.exprs) :
      e ∈ image.program.roots id :=
    List.mem_append_left _ he
  refine c.alone
      (c.stmtStep rfl (ExprLocal.toStmtLocal ((exprEffects _).within_focusOn _)) ?_ fun _ =>
    c.loops (.throw (stmtEffects _) _) rounds)
  exact {
    expr := fun e he => hev.root (hroot he)
    condition := fun e he => hev.conditionHolds (hroot he)
    returned := fun e he =>
      c.alone (c.returnValue (hev.root (hroot he))
        (.of_readOnly (stmtEffects _) (readOnly_readReturned image e)))
    decl := fun d hd => (hev.decl d).mono fun q ⟨init, hinit, hq⟩ =>
      .root (List.mem_append_right _ (List.mem_filterMap.2 ⟨d, hd, hinit⟩)) hq
    stmt := fun i hi => hev.inner hi }

end Operations

/-- Evaluation and execution with any fuel stay within the relations for the nodes inside. -/
theorem frameLocal_evaluator [Console κ] (image : Image) :
    ∀ fuel, FrameLocal image (evaluator (κ := κ) image fuel)
  | 0 => ⟨fun _ => .throw (exprEffects _).toEffects _, fun _ => .throw (exprEffects _).toEffects _,
      fun _ => .throw (stmtEffects _) _, fun _ => .throw (stmtEffects _) _⟩
  | fuel + 1 =>
    have hev := frameLocal_evaluator image fuel
    ⟨hev.exprStep, hev.targetStep, hev.declStep, hev.stmtStep fuel⟩

/-- Frames are balanced and calls are isolated, in every program and from every state. An expression
that gets its value, and a statement that finishes, leave as many frames as there were; the frames
below the top one are as before, save that variables of the file may have other values; the top
frame belongs to the same function and has new values at most for the nodes inside; and an
expression neither introduces nor removes a variable in the frame of a call. A computation that
halts leaves at least as many frames. -/
theorem evaluation_balances_frames [Console κ] (image : Image) (fuel : Nat) (s : State κ) :
    (∀ e, Ensures ((evaluator image fuel).expr e) s
      (fun _ t => ExprEffect (image.program.Contains e) s.stack t.stack)
      fun _ t => s.stack.depth ≤ t.stack.depth) ∧
    ∀ id, Ensures ((evaluator image fuel).stmt id) s
      (fun _ t => Effect (image.program.StmtContains id) s.stack t.stack)
      fun _ t => s.stack.depth ≤ t.stack.depth :=
  ⟨fun e => (frameLocal_evaluator image fuel).expr e s,
    fun id => (frameLocal_evaluator image fuel).stmt id s⟩

end Run

end MiniC
