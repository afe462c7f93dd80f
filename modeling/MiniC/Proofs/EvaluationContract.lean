import MiniC.Proofs.OperationContract

/-!
# Contracts of evaluation

What a call does to the stack before the body is executed, and what a declaration does, is said once
(`Contract.ensures_enterBody`, `Contract.ensures_enterMain`, `Contract.ensures_initialise`). Then
the steps of the evaluator fulfil a contract if the steps for the nodes inside do
(`Contract.fulfils_exprStep`, `Contract.Operands.targetStep`, `Contract.fulfils_declStep`), and so
does a run (`Contract.runWith`).
-/

set_option autoImplicit false

namespace MiniC

/-! ## Frames of calls -/

/-- Gives several declarations values, one after the other. -/
def Frame.bindDecls (frame : Frame) (bindings : List (DeclId × Int32)) : Frame :=
  bindings.foldl (fun frame binding => frame.bindDecl binding.1 binding.2) frame

/-- The frame of a call when its body is handed over. -/
def Frame.opened (function : DeclId) (body : StmtId) (bindings : List (DeclId × Int32)) : Frame :=
  ((Frame.empty (some function)).bindDecls bindings).focusOn (.stmt body)

namespace Run

variable {κ : Type}

theorem forM_declare_apply (bindings : List (DeclId × Int32)) (s : State κ) (frame : Frame)
    (calls : List Frame) :
    (bindings.forM fun (d, value) => declare d value)
        { s with stack := { s.stack with calls := frame :: calls } } =
      .ok () { s with stack := { s.stack with calls := frame.bindDecls bindings :: calls } } := by
  induction bindings generalizing frame with
  | nil => rfl
  | cons binding bindings ih => exact ih (frame.bindDecl binding.1 binding.2)

/-- Opening a frame puts it on top of the others. -/
theorem openFrame_apply (function : DeclId) (body : StmtId)
    (bindings : List (DeclId × Int32)) (s : State κ) :
    openFrame function body bindings s =
      .ok () { s with
        stack := { s.stack with calls := .opened function body bindings :: s.stack.calls } } := by
  unfold openFrame
  change ((bindings.forM fun (d, value) => declare d value) >>= fun _ => focusOn (.stmt body))
    { s with stack := { s.stack with calls := .empty (some function) :: s.stack.calls } } = _
  rw [bind_apply, forM_declare_apply]
  rfl

end Run

namespace Contract

open Run

variable {κ : Type}

/-! ## Calls of functions of the program -/

/-- The arguments of a call have values in the top frame, as many as the function has parameters and
each of a type that may go there. -/
structure Passed (image : Image) (params : List DeclId) (args : List ExprId) (s : State κ)
    (values : List Int32) : Prop where
  arity : params.length = args.length
  values : args.map s.stack.top.expr? = values.map some
  conversions : ∀ pair ∈ params.zip args,
    isForbiddenConversion (image.program.decl pair.1).type (image.typeOf pair.2) = false
  depth : s.stack.depth ≤ image.config.maxCallDepth

section Calls

variable {C : Contract κ} {image : Image} {s : State κ} {args : List ExprId}
    (hC : C.Admits image) (hs : C.inv s)
include hC hs

theorem ensures_checkConversions (pairs : List (DeclId × ExprId)) :
    Ensures (pairs.forM fun (param, arg) =>
      checkConversion image (image.program.decl param).type arg) s
      (fun _ t => t = s ∧ ∀ pair ∈ pairs,
        isForbiddenConversion (image.program.decl pair.1).type (image.typeOf pair.2) =
          false) C.halt := by
  induction pairs with
  | nil => exact ⟨rfl, nofun⟩
  | cons pair pairs ih =>
    change Ensures (checkConversion image (image.program.decl pair.1).type pair.2 >>= fun _ =>
      pairs.forM _) s _ _
    rw [ensures_bind]
    unfold checkConversion
    dsimp only
    split
    · exact hC.fault _ rfl hs
    · next hallowed =>
      refine ih.mono (fun _ t ht => ⟨ht.1, ?_⟩) fun _ _ h => h
      exact List.forall_mem_cons.2 ⟨Bool.eq_false_iff.2 hallowed, ht.2⟩

theorem ensures_values (hargs : ∀ a ∈ args, C.evaluated a s) :
    Ensures (args.mapM (valueOf image)) s
      (fun values t => t = s ∧ args.map s.stack.top.expr? = values.map some) C.halt := by
  induction args with
  | nil => exact ⟨rfl, rfl⟩
  | cons arg args ih =>
    rw [List.mapM_cons, ensures_bind]
    refine (hC.ensures_valueOf hs (hargs arg (by simp))).mono ?_ fun _ _ h => h
    rintro value _ ⟨rfl, hvalue⟩
    rw [ensures_bind]
    refine (ih fun a ha => hargs a (by simp [ha])).mono ?_ fun _ _ h => h
    rintro values _ ⟨rfl, hvalues⟩
    refine ⟨rfl, ?_⟩
    rw [List.map_cons, hvalue, hvalues, List.map_cons]

/-- A frame is opened for a call if everything is as it should be. -/
theorem ensures_enterBody (hargs : ∀ a ∈ args, C.evaluated a s) (callee : DeclId)
    (params : List DeclId) (body : StmtId) :
    Ensures (enterBody image callee params body args) s
      (fun _ t => ∃ values, Passed image params args s values ∧ t = { s with stack := { s.stack with
        calls := .opened callee body (params.zip values) :: s.stack.calls } }) C.halt := by
  unfold enterBody checkArity
  by_cases harity : params.length = args.length
  · rw [if_neg (not_not_intro harity), pure_bind, ensures_bind]
    refine (ensures_checkConversions hC hs _).mono ?_ fun _ _ h => h
    rintro _ _ ⟨rfl, hconversions⟩
    rw [ensures_bind]
    refine (ensures_values hC hs hargs).mono ?_ fun _ _ h => h
    rintro values t ⟨rfl, hvalues⟩
    rw [ensures_bind, ensures_get]
    dsimp only
    split
    · exact hC.fault _ rfl hs
    · next hdepth =>
      unfold Ensures
      rw [openFrame_apply]
      exact ⟨values, ⟨harity, hvalues, hconversions, Nat.le_of_not_lt hdepth⟩, rfl⟩
  · rw [if_pos harity]
    exact hC.fault _ rfl hs

end Calls

/-- A run enters the first function named `main`, whose parameters are zero. -/
theorem ensures_enterMain (image : Image) (s : State κ) :
    Ensures (enterMain image) s
      (fun body t => ∃ entry returnType params, image.entry = some entry ∧
        (image.program.decl entry).kind = .function returnType params (some body) ∧
        t = { s with stack := { s.stack with
          calls := .opened entry body (params.map (·, 0)) :: s.stack.calls } })
      fun h t => t = s ∧ (h = .error .noEntryFunction ∨
        ∃ name loc, h = .error (.fault (.undefinedFunction name) loc)) := by
  unfold enterMain
  split
  · exact ⟨rfl, .inl rfl⟩
  · next entry hentry =>
    dsimp only
    split
    · next returnType params body hk =>
      rw [ensures_bind]
      unfold Ensures
      rw [openFrame_apply]
      exact ⟨entry, returnType, params, hentry, hk, rfl⟩
    · exact ⟨rfl, .inr ⟨_, _, rfl⟩⟩

/-! ## Declarations -/

/-- The state after a declaration: a new array has been made, or the variable has the value of its
initialiser, or zero. -/
inductive Introduced (image : Image) (d : DeclId) (s : State κ) : State κ → Prop
  | function : (image.program.decl d).isFunction = true → Introduced image d s s
  | array {type : CType} {init : Option ExprId} {storage : Storage} {length : Nat} :
      (image.program.decl d).kind = .variable type init storage → type.length? = some length →
      Introduced image d s { s with
        arrays := (s.arrays.create length s.stack.calls.length).2
        stack := s.stack.modifyTop (·.bindDecl d (s.arrays.create length s.stack.calls.length).1) }
  | value {type : CType} {init : ExprId} {storage : Storage} {value : Int32} :
      (image.program.decl d).kind = .variable type (some init) storage → type.length? = none →
      isForbiddenConversion type (image.typeOf init) = false → s.stack.top.expr? init = some value →
      Introduced image d s { s with stack := s.stack.modifyTop (·.bindDecl d value) }
  | zero {type : CType} {storage : Storage} :
      (image.program.decl d).kind = .variable type none storage → type.length? = none →
      Introduced image d s { s with stack := s.stack.modifyTop (·.bindDecl d 0) }

theorem ensures_initialise {C : Contract κ} {image : Image} {s : State κ}
    (hC : C.Admits image) (hs : C.inv s)
    {d : DeclId} (hinit : ∀ init ∈ (image.program.decl d).init?, C.evaluated init s) :
    Ensures (initialise image d) s (fun _ t => Introduced image d s t) C.halt := by
  unfold initialise
  cases hk : (image.program.decl d).kind with
  | function _ _ _ => exact .function (by rw [Decl.isFunction, hk])
  | «variable» type init storage =>
    dsimp only
    split
    · next length hlength =>
      rw [ensures_bind, ensures_get]
      exact .array hk hlength
    · next init hlength =>
      have hmem : init ∈ (image.program.decl d).init? := by simp [Decl.init?, hk]
      unfold checkConversion
      dsimp only
      by_cases hforbidden : isForbiddenConversion type (image.program.expr init).type = true
      · rw [if_pos hforbidden]
        exact hC.fault _ rfl hs
      · rw [if_neg hforbidden, pure_bind, ensures_bind]
        refine (hC.ensures_valueOf hs (hinit init hmem)).mono ?_ fun _ _ h => h
        rintro value _ ⟨rfl, hvalue⟩
        exact .value hk hlength (Bool.eq_false_iff.2 hforbidden) hvalue
    · next hlength => exact .zero hk hlength

/-! ## Evaluation -/

/-- A call fulfils a contract if its frame can be opened and left. The body is followed under a
contract of its own, which may depend on the state that the call is made in. -/
theorem Performs.fulfils_body {C : Contract κ} {image : Image} {e : ExprId} {ev ev' : Evaluator κ}
    (hC : C.Performs image e) (hframes : FrameLocal image ev) {D : State κ → Contract κ}
    {params : List DeclId}
    {body : StmtId} {args : List ExprId} (callee : DeclId)
    (hopen : ∀ s values, C.inv s → Passed image params args s values →
      (D s).inv { s with stack := { s.stack with
        calls := .opened callee body (params.zip values) :: s.stack.calls } } ∧
      (D s).Fulfils [] [] (ev.stmt body) (ev'.stmt body))
    (hleave : ∀ s u, C.inv s → (D s).inv u →
      CallStack.ExprEffect (fun _ => False) s.stack u.stack.pop.2 →
      C.Later s { u with stack := u.stack.pop.2 })
    (hhalt : ∀ s h t, (D s).halt h t → C.halt h t) :
    C.Fulfils args [e]
      (do enterBody image callee params body args; leaveCall e (← ev.stmt body).value)
      (do enterBody image callee params body args; leaveCall e (← ev'.stmt body).value) := by
  intro s hs hknown
  have henter := (Run.ensures_enterBody image callee params body args s).and
    (Contract.ensures_enterBody hC.toAdmits hs hknown callee params body)
  refine bind_of_agree rfl (henter.mono (fun _ _ h => h) fun _ _ h => h.2) ?_
  rintro _ t ⟨hpushed, values, hpassed, rfl⟩
  obtain ⟨hinv, hbody⟩ := hopen s values hs hpassed
  obtain ⟨heq, hends⟩ := hbody _ hinv nofun
  have hstmt := (hframes.stmt body _).and hends
  refine bind_of_agree heq (hstmt.mono (fun _ _ h => h) fun _ _ h => hhalt s _ _ h.2) ?_
  rintro flow u ⟨heffect, hlater, -⟩
  refine ⟨rfl, ?_⟩
  -- the values of the caller's expressions are as they were, and the call has its result
  have hcall : CallStack.Effect _ (s.stack.push callee) u.stack :=
    (hpushed.mono fun _ h => h.elim).trans heffect
  have hleft := hleave s u hs hlater.inv (CallStack.exprEffect_pop hcall)
  have hresult := hC.bindExpr flow.value hleft.inv
  exact ⟨hleft.trans hresult.1, by simpa using hresult.2⟩

/-- The two evaluators fulfil the contract on the operands of an expression, and on those of a
target. -/
structure Operands (C : Contract κ) (image : Image) (ev ev' : Evaluator κ) (e : ExprId) : Prop where
  expr : ∀ c ∈ image.program.operands e, C.Fulfils [] [c] (ev.expr c) (ev'.expr c)
  target : ∀ c ∈ image.program.operands e,
    C.Fulfils [] (image.program.expr (image.program.stripParens c)).kind.locators
      (ev.target c) (ev'.target c)

variable {C : Contract κ} {image : Image} {e : ExprId} {ev ev' : Evaluator κ}

/-- The two evaluators fulfil the contract on every node. -/
structure FulfilsAll (C : Contract κ) (image : Image) (ev ev' : Evaluator κ) : Prop where
  expr : ∀ e, C.Fulfils [] [e] (ev.expr e) (ev'.expr e)
  target :
    ∀ e, C.Fulfils [] (image.program.expr (image.program.stripParens e)).kind.locators (ev.target e)
    (ev'.target e)
  decl : ∀ d, C.Fulfils [] [] (ev.decl d) (ev'.decl d)
  stmt : ∀ id, C.Fulfils [] [] (ev.stmt id) (ev'.stmt id)

theorem FulfilsAll.operands (h : C.FulfilsAll image ev ev') (e : ExprId) :
    C.Operands image ev ev' e :=
  ⟨fun c _ => h.expr c, fun c _ => h.target c⟩

theorem FulfilsAll.parts (h : C.FulfilsAll image ev ev') (id : StmtId) : C.Parts image ev ev' id :=
  ⟨fun e _ => h.expr e, fun d _ => h.decl d, fun i _ => h.stmt i⟩

/-- Without fuel everything halts at once. -/
theorem fulfilsAll_outOfFuel [Console κ] (hfuel : ∀ s, C.inv s → C.halt .outOfFuel s) :
    C.FulfilsAll image (evaluator image 0) (evaluator image 0) := by
  have hthrow {α : Type} {gained : List ExprId} :
      C.Fulfils [] gained (throw .outOfFuel : Run κ α) (throw .outOfFuel) :=
        fun s hs _ => ⟨rfl, hfuel s hs⟩
  exact ⟨fun _ => hthrow, fun _ => hthrow, fun _ => hthrow, fun _ => hthrow⟩

/-- A declaration fulfils the contract if its initialiser does and the contract admits the new
value. -/
theorem fulfils_declStep (hC : C.Admits image) {d : DeclId}
    (hinit : ∀ init ∈ (image.program.decl d).init?,
      C.Fulfils [] [init] (ev.expr init) (ev'.expr init))
    (hnew : ∀ s t, C.inv s → Introduced image d s t → C.Later s t) :
    C.Fulfils [] [] (declStep image ev d) (declStep image ev' d) := by
  have hintroduces : C.Fulfils (image.program.decl d).init?.toList []
    (initialise image d : Run κ Unit)
      (initialise image d) := by
    intro s hs hknown
    refine ⟨rfl, (ensures_initialise hC hs fun init h =>
      hknown init (by simpa using h)).mono ?_ fun _ _ h => h⟩
    exact fun _ t ht => ⟨hnew s t hs ht, nofun⟩
  unfold declStep
  unfold Decl.init? at hinit hintroduces
  cases hk : (image.program.decl d).kind with
  | function _ _ _ =>
    rw [hk] at hintroduces
    exact hintroduces
  | «variable» type init storage =>
    rw [hk] at hinit hintroduces
    cases init with
    | none => exact hintroduces
    | some init => exact (hinit init rfl).bind fun _ => hintroduces

variable (h : C.Operands image ev ev' e)
include h

/-- The operands that an expression asks for are evaluated. -/
theorem Operands.evalOperands [Console κ] :
    C.Fulfils [] (image.program.asked e) (evalOperands image ev e) (evalOperands image ev' e) := by
  unfold Run.evalOperands Program.asked
  have hexpr := h.expr
  have htarget := h.target
  unfold Program.operands at hexpr htarget
  cases hk : (image.program.expr e).kind with
  | intLiteral _ | declRef _ | sizeOf _ => exact .pure _
  | paren operand | unary _ operand | cast operand =>
    rw [hk] at hexpr
    exact hexpr operand (by simp [ExprKind.operands])
  | call callee args =>
    rw [hk] at hexpr
    exact .forM_evaluated hexpr
  | subscript base index =>
    rw [hk] at hexpr
    exact (hexpr base (by simp [ExprKind.operands])).both
      (hexpr index (by simp [ExprKind.operands]))
  | binary op lhs rhs =>
    rw [hk] at hexpr htarget
    have hr := hexpr rhs (by simp [ExprKind.operands])
    dsimp only
    split
    · exact hr.both (htarget lhs (by simp [ExprKind.operands]))
    · exact (hexpr lhs (by simp [ExprKind.operands])).both hr

/-- The parts that say where a target lies are evaluated. -/
theorem Operands.targetStep (hp : image.program.Tree) :
    C.Fulfils [] (image.program.expr (image.program.stripParens e)).kind.locators
      (targetStep image ev e) (targetStep image ev' e) := by
  unfold Run.targetStep
  have hexpr := h.expr
  have htarget := h.target
  unfold Program.operands at hexpr htarget
  -- without parentheses the target is the expression itself
  have hself (hnot : ∀ inner, (image.program.expr e).kind ≠ .paren inner) :
      (image.program.expr (image.program.stripParens e)).kind = (image.program.expr e).kind := by
    rw [Program.stripParens_eq_self hnot]
  cases hk : (image.program.expr e).kind with
  | paren inner =>
    rw [hk] at htarget
    rw [hp.stripParens_paren hk]
    exact htarget inner (by simp [ExprKind.operands])
  | subscript base index =>
    rw [hk] at hexpr
    rw [hself (by simp [hk]), hk]
    exact (hexpr base (by simp [ExprKind.operands])).both
      (hexpr index (by simp [ExprKind.operands]))
  | unary op operand =>
    rw [hk] at hexpr
    rw [hself (by simp [hk]), hk]
    cases op with
    | deref => exact hexpr operand (by simp [ExprKind.operands])
    | neg | plus | not | bitNot | preInc | preDec | postInc | postDec | addressOf => exact .pure _
  | intLiteral _ | declRef _ | binary _ _ _ | call _ _ | cast _ | sizeOf _ =>
    rw [hself (by simp [hk]), hk]
    exact .pure _

variable [Console κ] (hC : C.Performs image e)
  (hbody : ∀ callee args returnType params body, (image.program.expr e).kind = .call callee args →
    image.builtin? callee = none →
    (image.program.decl callee).kind = .function returnType params (some body) →
      C.Fulfils args [e]
        (do enterBody image callee params body args; leaveCall e (← ev.stmt body).value)
        (do enterBody image callee params body args; leaveCall e (← ev'.stmt body).value))
include hC hbody

omit h in
/-- What is done for an expression fulfils the contract, if it does so where a body is executed. -/
theorem fulfils_conclude :
    C.Fulfils (image.program.asked e) [e] (conclude image ev e) (conclude image ev' e) := by
  by_cases hcall : ∃ callee args, (image.program.expr e).kind = .call callee args
  · obtain ⟨callee, args, hk⟩ := hcall
    have hasked : image.program.asked e = args := by simp [Program.asked, hk, ExprKind.operands]
    unfold Run.conclude
    rw [hasked, hk]
    exact hC.finishCall hk fun returnType params body => hbody callee args returnType params body hk
  · exact hC.conclude fun callee args hk => hcall ⟨callee, args, hk⟩

theorem fulfils_exprStep : C.Fulfils [] [e] (exprStep image ev e) (exprStep image ev' e) := by
  rw [exprStep_eq, exprStep_eq]
  refine (hC.fulfils_focusOn _).andThen fun _ => h.evalOperands.bind fun _ => ?_
  rw [List.nil_append]
  exact fulfils_conclude hC hbody

/-! ## Runs -/

omit h hC hbody [Console κ] in
/-- A run fulfils one contract while the variables of the file are introduced, and another one,
which may be the same, in the function that it enters. -/
theorem runWith {D : Contract κ} {E : Halt → State κ → Prop} {s : State κ} (hs : C.inv s)
    (hitems : ∀ d, C.Fulfils [] [] (ev.decl d) (ev'.decl d))
    (hmain : ∀ t, C.inv t → Ensures (enterMain image) t
      (fun body u => D.inv u ∧ D.Fulfils [] [] (ev.stmt body) (ev'.stmt body)) E)
    (hC : ∀ h t, C.halt h t → E h t) (hD : ∀ h t, D.halt h t → E h t) :
    runWith image ev' s = runWith image ev s ∧
      Ensures (runWith image ev) s (fun _ t => ∃ u, D.inv u ∧
        t = { u with stack := u.stack.pop.2 }) E := by
  have hvariables : C.Fulfils [] [] (image.program.items.toList.forM (introduce ev))
      (image.program.items.toList.forM (introduce ev')) := by
    refine Fulfils.composes.forM _ fun item _ => ?_
    cases item with
    | «variable» d => exact hitems d
    | function d => exact .pure _
  rw [runWith_eq, runWith_eq]
  obtain ⟨heq, hends⟩ := hvariables s hs nofun
  refine bind_of_agree heq (hends.mono (fun _ _ ht => ht) hC) fun _ t ht => ?_
  refine bind_of_agree rfl (hmain t ht.1.inv) fun body u hu => ?_
  obtain ⟨heq', hends'⟩ := hu.2 u hu.1 nofun
  exact bind_of_agree heq' (hends'.mono (fun _ _ hv => hv) hD) fun _ v hv => ⟨rfl, v, hv.1.inv, rfl⟩

end Contract

end MiniC
