import MiniC.Proofs.FileFrame
import MiniC.Proofs.FrameEffect

/-!
# Variables that the frame of a call holds

Where no branch of an `if` and no body of a `while` is itself a declaration, every variable in scope
of a statement is held by the frame of the call when the statement is executed (`CallStack.Held`,
`Run.introduces_evaluator`), the parameters from the start (`Run.ensures_enterCall_held`). Say of
some expressions that they use a variable. If these variables are in scope and no initialiser of a
local variable uses the variable itself (`Program.Orderly`), an evaluator that does the same as
another one as long as the variables used are held does the same in every run (`Run.Unhindered`).
-/

set_option autoImplicit false

namespace MiniC

/-! ## Variables that the latest call holds -/

namespace CallStack

variable {stack s t : CallStack} {d : DeclId} {V : List DeclId} {nodes : ExprId → Prop}

/-- A frame of a call holds what it has a value for; the frame of the file holds nothing. -/
theorem holds_iff : stack.holds d = true ↔ stack.calls ≠ [] ∧
    (stack.top.decl? d).isSome = true := by
  rcases stack with ⟨_ | ⟨frame, callers⟩, global⟩
  · simp [holds]
  · simp [holds, top]

/-- What the frame of a call holds it still holds after a statement. -/
theorem Effect.holds (h : Effect nodes s t) (hs : s.holds d = true) : t.holds d = true := by
  obtain ⟨hcalls, hd⟩ := holds_iff.1 hs
  exact holds_iff.2 ⟨mt h.calls_eq_nil.1 hcalls, h.held d hd⟩

/-- A call is active and its frame holds the variables. -/
structure Held (V : List DeclId) (stack : CallStack) : Prop where
  calls : stack.calls ≠ []
  holds : ∀ d ∈ V, stack.holds d = true

/-- The same of a list of variables. -/
theorem Held.effect (hs : Held V s) (h : Effect nodes s t) : Held V t :=
  ⟨mt h.calls_eq_nil.1 hs.calls, fun d hd => h.holds (hs.holds d hd)⟩

theorem Held.focusOn (hs : Held V s) (focus : Focus) : Held V (s.modifyTop (·.focusOn focus)) :=
  hs.effect (exprEffect_focusOn s focus : ExprEffect (fun _ => False) _ _).toEffect

/-- Fewer variables are held as well. -/
theorem Held.mono {W : List DeclId} (hs : Held V s) (h : ∀ d ∈ W, d ∈ V) : Held W s :=
  ⟨hs.calls, fun d hd => hs.holds d (h d hd)⟩

/-- One more variable may be added to those that are held. -/
theorem Held.cons (hs : Held V s) (hd : s.holds d = true) : Held (d :: V) s :=
  ⟨hs.calls, List.forall_mem_cons.2 ⟨hd, hs.holds⟩⟩

/-- A variable that is given a value is held from then on. -/
theorem Held.bindDecl (hs : Held V s) (d : DeclId) (value : Int32) :
    Held (d :: V) (s.modifyTop (·.bindDecl d value)) := by
  have heffect : Effect (fun _ => False) s (s.modifyTop (·.bindDecl d value)) :=
    effect_bindDecl s d value
  refine (hs.effect heffect).cons (holds_iff.2 ⟨(hs.effect heffect).calls, ?_⟩)
  rw [top_modifyTop, Frame.decl?_bindDecl, if_pos rfl]
  rfl

end CallStack

/-! ## What expressions use -/

namespace Program

variable {p : Program} {V W X : List DeclId} {e q : ExprId} {d : DeclId}
    {uses : ExprId → Option DeclId}

/-- Whatever the expressions inside an expression use is a variable of the file, or held by the
latest call. -/
def Permits (p : Program) (uses : ExprId → Option DeclId) (stack : CallStack) (e : ExprId) : Prop :=
  ∀ q d, p.Contains e q → uses q = some d → p.IsGlobal d ∨ stack.holds d = true

/-- What is permitted for an expression is permitted for what is inside it. -/
theorem Permits.operand {stack : CallStack} {c : ExprId} (h : p.Permits uses stack e)
    (hc : c ∈ p.operands e) : p.Permits uses stack c := fun q d hq => h q d (.operand hc hq)

/-- What is permitted stays so while statements are executed. -/
theorem Permits.effect {nodes : ExprId → Prop} {s t : CallStack} (h : p.Permits uses s e)
    (hst : CallStack.Effect nodes s t) : p.Permits uses t e :=
  fun q d hq hd => (h q d hq hd).imp_right hst.holds

/-- Expressions use variables in scope only, no initialiser of a local variable uses the variable
itself, and no branch of `if` and no body of `while` is a declaration. -/
structure Orderly (p : Program) (uses : ExprId → Option DeclId) : Prop where
  scope : ∀ {V e q d}, p.InScope V e → p.Contains e q → uses q = some d → d ∈ V ∨ p.IsGlobal d
  initialisers : ∀ {d init q}, (p.decl d).init? = some init → p.Contains init q → uses q = some d →
    p.IsGlobal d
  branches : p.BranchesDeclareNothing

/-- An expression may be evaluated where all variables in scope are held. -/
theorem Orderly.permits {stack : CallStack} (h : p.Orderly uses) (he : p.InScope V e)
    (hs : stack.Held V) : p.Permits uses stack e :=
  fun _ d hq hd => (h.scope he hq hd).symm.imp_right (hs.holds d)

/-- The first of several statements in scope, and the others. -/
theorem Scoped.uncons {id : StmtId} {ids : List StmtId} (h : p.Scoped V (id :: ids) X) :
    ∃ W, p.Scoped V [id] W ∧ p.Scoped W ids X := by
  cases h with
  | block hk hbody hrest => exact ⟨_, .block hk hbody .nil, hrest⟩
  | declare hk hds hrest => exact ⟨_, .declare hk hds .nil, hrest⟩
  | expr hk he hrest => exact ⟨_, .expr hk he .nil, hrest⟩
  | ifElse hk hc hbranches hrest => exact ⟨_, .ifElse hk hc hbranches .nil, hrest⟩
  | whileLoop hk hc hbody hrest => exact ⟨_, .whileLoop hk hc hbody .nil, hrest⟩
  | forLoop hk hinit hc hincrement hbody hrest =>
    exact ⟨_, .forLoop hk hinit hc hincrement hbody .nil, hrest⟩
  | ret hk hvalue hrest => exact ⟨_, .ret hk hvalue .nil, hrest⟩
  | empty hk hrest => exact ⟨_, .empty hk .nil, hrest⟩

end Program

/-! ## What statements introduce -/

namespace Run

open CallStack (Held)

variable {κ α β : Type} {image : Image} {ev ev' : Evaluator κ} {V W : List DeclId} {d : DeclId}
  {s : State κ} {nodes : ExprId → Prop} {uses : ExprId → Option DeclId}

/-- The end of a computation after which nothing matters. -/
abbrev Anything : Halt → State κ → Prop := fun _ _ => True

theorem ensures_of_forall {x : Run κ α} {Q : α → State κ → Prop} (hQ : ∀ a t, Q a t) :
    Ensures x s Q Anything := by
  unfold Ensures
  cases x s with
  | ok a t => exact hQ a t
  | error _ _ => trivial

/-- What works in the top frame keeps the variables that it holds. -/
theorem StmtLocal.ensures_held {x : Run κ α} (hx : StmtLocal nodes x) (hs : Held V s.stack) :
    Ensures x s (fun _ t => Held V t.stack) Anything :=
  (hx s).mono (fun _ _ h => hs.effect h) fun _ _ _ => trivial

/-- An evaluator after whose statements the variables in scope are held. -/
structure Introduces (image : Image) (ev : Evaluator κ) : Prop where
  decl : ∀ {d s}, (image.program.decl d).isFunction = false → s.stack.calls ≠ [] →
    Ensures (ev.decl d) s (fun _ t => t.stack.holds d = true) Anything
  stmt : ∀ {id V W s}, image.program.Scoped V [id] W → Held V s.stack →
    Ensures (ev.stmt id) s (fun _ t => Held W t.stack) Anything

/-- A local variable is held once it is initialised. -/
theorem ensures_initialise_holds (hd : (image.program.decl d).isFunction = false)
    (hs : s.stack.calls ≠ []) :
    Ensures (initialise image d) s (fun _ t => t.stack.holds d = true) Anything := by
  cases hk : (image.program.decl d).kind with
  | function _ _ _ => simp [Decl.isFunction, hk] at hd
  | «variable» _ _ _ =>
    refine (within_initialise image hk s).mono (fun _ t ht => ?_) fun _ _ _ => trivial
    obtain ⟨value, ht⟩ := ht
    rw [ht]
    refine CallStack.holds_iff.2 ⟨by simpa using hs, ?_⟩
    rw [CallStack.top_modifyTop, Frame.decl?_bindDecl, if_pos rfl]
    rfl

/-- A local variable is held once it is declared. -/
theorem FrameLocal.ensures_declStep_holds (hev : FrameLocal image ev)
    (hd : (image.program.decl d).isFunction = false) (hs : s.stack.calls ≠ []) :
    Ensures (Run.declStep image ev d) s (fun _ t => t.stack.holds d = true) Anything := by
  unfold Run.declStep
  dsimp only
  split
  · rw [ensures_bind]
    refine (hev.expr _ s).mono (fun _ t ht => ?_) fun _ _ _ => trivial
    exact ensures_initialise_holds hd (mt ht.calls_eq_nil.1 hs)
  · exact ensures_initialise_holds hd hs

/-- Declarations that are executed in order hold their variables, latest first. -/
theorem Introduces.ensures_declarations (hev : Introduces image ev) (hframes : FrameLocal image ev)
    {ds : List DeclId} (hds : image.program.DeclaresInScope V ds) (hs : Held V s.stack) :
    Ensures (ds.forM ev.decl) s (fun _ t => Held (ds.reverse ++ V) t.stack) Anything := by
  induction ds generalizing V s with
  | nil => exact hs
  | cons d ds ih =>
    obtain ⟨hd, -, hrest⟩ := hds
    rw [List.reverse_cons, List.append_assoc]
    change Ensures (ev.decl d >>= fun _ => ds.forM ev.decl) s _ _
    rw [ensures_bind]
    refine ((hev.decl hd hs.calls).and (StmtLocal.ensures_held (hframes.decl d) hs)).mono
      (fun _ t ht => ?_) fun _ _ _ => trivial
    exact ih hrest (ht.2.cons ht.1)

/-- Every evaluator introduces what its statements declare. -/
theorem introduces_evaluator [Console κ] (hb : image.program.BranchesDeclareNothing) (fuel : Nat) :
    Introduces image (evaluator image fuel : Evaluator κ) := by
  induction fuel with
  | zero => exact ⟨fun _ _ => trivial, fun _ _ => trivial⟩
  | succ fuel ih =>
    have hframes : FrameLocal image (evaluator (κ := κ) image fuel) :=
      frameLocal_evaluator image fuel
    refine ⟨fun hd hs => hframes.ensures_declStep_holds hd hs, fun {id V W s} hid hs => ?_⟩
    cases hdecl : (image.program.stmt id).kind.isDeclaration with
    | false =>
      obtain rfl : W = V := hid.eq_of_not_declares hb (by simpa using hdecl)
      exact StmtLocal.ensures_held (hframes.stmtStep fuel id) hs
    | true =>
      cases hid with
      | @declare _ _ _ ds _ hk hds hrest =>
        cases hrest
        change Ensures (stmtStep image (evaluator image fuel) fuel id) s _ _
        unfold stmtStep
        rw [hk, ensures_bind, focusOn, ensures_modifyStack, ensures_bind]
        exact ih.ensures_declarations hframes hds (hs.focusOn _)
      | block hk _ _ | expr hk _ _ | ifElse hk _ _ _ | whileLoop hk _ _ _ | forLoop hk _ _ _ _ _
        | ret hk _ _ | empty hk _ => simp [hk, StmtKind.isDeclaration] at hdecl

/-! ## Parameters -/

theorem ensures_mapM_length {x : α → Run κ β} (as : List α) :
    Ensures (as.mapM x) s (fun values _ => values.length = as.length) Anything := by
  induction as generalizing s with
  | nil => rfl
  | cons a as ih =>
    rw [List.mapM_cons, ensures_bind]
    unfold Ensures
    cases x a s with
    | error _ _ => trivial
    | ok b t =>
      dsimp only
      change Ensures (as.mapM x >>= fun bs => pure (b :: bs)) t _ _
      rw [ensures_bind]
      exact (ih (s := t)).mono (fun values _ h => congrArg (· + 1) h) fun _ _ _ => trivial

/-- All variables that are declared one after the other are held. -/
theorem ensures_forM_declare_held (bindings : List (DeclId × Int32)) (hs : Held V s.stack) :
    Ensures (bindings.forM fun (d, value) => declare d value) s
      (fun _ t => Held ((bindings.map Prod.fst).reverse ++ V) t.stack) Anything := by
  induction bindings generalizing V s with
  | nil => exact hs
  | cons binding bindings ih =>
    rw [List.map_cons, List.reverse_cons, List.append_assoc]
    change Ensures (declare binding.1 binding.2 >>= fun _ => bindings.forM _) s _ _
    rw [ensures_bind, declare, ensures_modifyStack]
    exact ih (hs.bindDecl binding.1 binding.2)

/-- The frame of a new call holds what is bound in it. -/
theorem ensures_openFrame_held (function : DeclId) (body : StmtId)
    (bindings : List (DeclId × Int32)) :
    Ensures (openFrame function body bindings) s
      (fun _ t => Held (bindings.map Prod.fst) t.stack) Anything := by
  have hpush : Held [] (s.stack.push function) := ⟨by simp [CallStack.push], nofun⟩
  rw [openFrame, ensures_bind, ensures_modifyStack, ensures_bind]
  refine (ensures_forM_declare_held bindings hpush).mono (fun _ t ht => ?_) fun _ _ _ => trivial
  exact (ht.mono fun d hd => by simpa using hd).focusOn _

/-- A body is entered with the parameters held. -/
theorem ensures_enterBody_held (callee : DeclId) (params : List DeclId) (body : StmtId)
    (args : List ExprId) :
    Ensures (enterBody image callee params body args) s
      (fun _ t => Held params t.stack) Anything := by
  unfold enterBody checkArity
  by_cases harity : params.length = args.length
  · rw [if_neg (not_not_intro harity), pure_bind]
    refine (ReadOnly.forM (fun _ => readOnly_checkConversion image _ _) _).ensures_bind
      (fun _ => ?_) fun _ => trivial
    rw [ensures_bind]
    refine (ensures_mapM_length args).mono (fun values t hlength => ?_) fun _ _ _ => trivial
    have hopen : Ensures (openFrame callee body (params.zip values)) t
        (fun _ u => Held params u.stack) Anything := by
      refine (ensures_openFrame_held callee body _).mono (fun _ u hu => ?_) fun _ _ _ => trivial
      rwa [List.map_fst_zip (Nat.le_of_eq (harity.trans hlength.symm))] at hu
    rw [ensures_bind, ensures_get]
    dsimp only
    split
    · trivial
    · exact hopen
  · rw [if_pos harity]
    trivial

/-- The frame of a call holds the parameters of the function when its body is handed over. -/
theorem ensures_enterCall_held [Console κ] (e : ExprId) (callee : DeclId) (args : List ExprId) :
    Ensures (enterCall image e callee args) s (fun entered t => ∀ body ∈ entered,
      ∃ returnType params, (image.program.decl callee).kind =
        .function returnType params (some body) ∧ Held params t.stack) Anything := by
  unfold enterCall
  split
  · rw [ensures_bind]
    exact ensures_of_forall fun _ _ _ => nofun
  · dsimp only
    split
    · next returnType params body hk =>
      rw [ensures_bind]
      refine (ensures_enterBody_held callee params body args).mono (fun _ t ht => ?_)
        fun _ _ _ => trivial
      rintro _ ⟨⟩
      exact ⟨returnType, params, hk, ht⟩
    · trivial

/-! ## Sequences and loops that do the same -/

section Same

variable {x y : Run κ α} {f g : α → Run κ β} {I : State κ → Prop}

/-- Two computations that go on alike agree if they begin alike. -/
theorem bind_eq_left (h : y s = x s) : (y >>= f) s = (x >>= f) s := by
  rw [bind_apply, bind_apply, h]

/-- Two computations that begin alike agree if they go on alike. -/
theorem bind_eq_of_forall (h : y s = x s) (hfg : ∀ a t, g a t = f a t) :
    (y >>= g) s = (x >>= f) s := by
  rw [bind_apply, bind_apply, h]
  cases x s with
  | ok a t => exact hfg a t
  | error _ _ => rfl

/-- They only have to go on alike from where the first part can lead. -/
theorem bind_eq_of_ensures {Q : α → State κ → Prop} (h : y s = x s) (hx : Ensures x s Q Anything)
    (hfg : ∀ a t, Q a t → g a t = f a t) : (y >>= g) s = (x >>= f) s := by
  rw [bind_apply, bind_apply, h]
  cases hresult : x s with
  | ok a t => exact hfg a t (hx.of_ok hresult)
  | error _ _ => rfl

/-- Lists of computations agree if each pair does wherever an invariant holds that is kept. -/
theorem forM_eq_of_invariant {f g : α → Run κ Unit} (as : List α)
    (hI : ∀ a ∈ as, ∀ t, I t → Ensures (f a) t (fun _ u => I u) Anything)
    (hfg : ∀ a ∈ as, ∀ t, I t → g a t = f a t) (hs : I s) : as.forM g s = as.forM f s := by
  induction as generalizing s with
  | nil => rfl
  | cons a as ih =>
    refine bind_eq_of_ensures (hfg a (by simp) s hs) (hI a (by simp) s hs) fun _ t ht => ?_
    exact ih (fun b hb => hI b (by simp [hb])) (fun b hb => hfg b (by simp [hb])) ht

/-- Loops agree if condition and action do wherever an invariant holds that is kept. -/
theorem whileHolds_eq_of_invariant {condition condition' : Run κ Bool} {action action' : Run κ Flow}
    (hc : ∀ t, I t → condition' t = condition t)
    (hcI : ∀ t, I t → Ensures condition t (fun _ u => I u) Anything)
    (ha : ∀ t, I t → action' t = action t)
    (haI : ∀ t, I t → Ensures action t (fun _ u => I u) Anything) (rounds : Nat) (hs : I s) :
    whileHolds condition' action' rounds s = whileHolds condition action rounds s := by
  induction rounds generalizing s with
  | zero => rfl
  | succ rounds ih =>
    refine bind_eq_of_ensures (hc s hs) (hcI s hs) fun holds t ht => ?_
    cases holds with
    | false => rfl
    | true =>
      refine bind_eq_of_ensures (ha t ht) (haI t ht) fun flow u hu => ?_
      cases flow with
      | normal => exact ih hu
      | returned value => rfl

end Same

/-! ## Evaluators that do the same where variables are held -/

/-- The second evaluator does what the first does where the variables used are held. -/
structure Unhindered (image : Image) (uses : ExprId → Option DeclId)
    (ev ev' : Evaluator κ) : Prop where
  orderly : image.program.Orderly uses
  frames : FrameLocal image ev
  introduces : Introduces image ev
  expr : ∀ {e s}, image.program.Permits uses s.stack e → ev'.expr e s = ev.expr e s
  target : ∀ {e s}, image.program.Permits uses s.stack e → ev'.target e s = ev.target e s
  decl : ∀ {d s}, image.program.IsGlobal d ∨ s.stack.calls ≠ [] →
    (∀ init, (image.program.decl d).init? = some init → image.program.Permits uses s.stack init) →
    ev'.decl d s = ev.decl d s
  stmt : ∀ {id V W s}, image.program.Scoped V [id] W → Held V s.stack → ev'.stmt id s = ev.stmt id s

variable (hev : Unhindered image uses ev ev')
include hev

/-- The arguments of a call agree. -/
theorem Unhindered.arguments {e : ExprId} {args : List ExprId}
    (hargs : ∀ a ∈ args, a ∈ image.program.operands e) (hs : image.program.Permits uses s.stack e) :
    args.forM ev'.expr s = args.forM ev.expr s := by
  refine forM_eq_of_invariant (I := fun t => image.program.Permits uses t.stack e) args
    (fun a _ t ht => ?_) (fun a ha t ht => hev.expr (ht.operand (hargs a ha))) hs
  exact (hev.frames.expr a t).mono (fun _ _ hu => ht.effect hu.toEffect) fun _ _ _ => trivial

/-- A call agrees, since its body is entered with the parameters held. -/
theorem Unhindered.call [Console κ] (hp : image.program.Resolved) {e : ExprId} {callee : DeclId}
    {args : List ExprId} (hargs : ∀ a ∈ args, a ∈ image.program.operands e)
    (hs : image.program.Permits uses s.stack e) :
    call image ev' e callee args s = call image ev e callee args s := by
  refine bind_eq_of_forall (hev.arguments hargs hs) fun _ t => bind_eq_of_forall rfl fun _ u => ?_
  refine bind_eq_of_ensures rfl (ensures_enterCall_held e callee args) fun entered v hv => ?_
  cases entered with
  | none => rfl
  | some body =>
    obtain ⟨returnType, params, hk, hheld⟩ := hv body rfl
    obtain ⟨V, W, hV, hbody⟩ := hp.bodies hk
    dsimp only
    rw [onOwnStack_eq, onOwnStack_eq]
    exact bind_eq_left (hev.stmt hbody (hheld.mono hV))

/-- Operands that are evaluated one after the other. -/
theorem Unhindered.expr_bind {e c : ExprId} {f g : Unit → Run κ α}
    (hc : c ∈ image.program.operands e) (hs : image.program.Permits uses s.stack e)
    (hfg : ∀ t : State κ, image.program.Permits uses t.stack e → g () t = f () t) :
    (ev'.expr c >>= g) s = (ev.expr c >>= f) s := by
  refine bind_eq_of_ensures (hev.expr (hs.operand hc)) ?_ fun _ t ht => hfg t ht
  exact (hev.frames.expr c s).mono (fun _ _ h => hs.effect h.toEffect) fun _ _ _ => trivial

/-- An expression agrees if what it may use is held. -/
theorem Unhindered.exprStep [Console κ] (hp : image.program.Resolved) {e : ExprId}
    (hs : image.program.Permits uses s.stack e) :
    exprStep image ev' e s = exprStep image ev e s := by
  have hfocus :
      Ensures (focusOn (.expr e)) s (fun _ t => image.program.Permits uses t.stack e) Anything :=
    hs.effect (CallStack.exprEffect_focusOn s.stack _ : CallStack.ExprEffect (fun _ =>
      False) _ _).toEffect
  -- the node is turned to first, which takes no variable away
  refine bind_eq_of_ensures rfl hfocus fun _ u hu => ?_
  have hop : ∀ {c}, c ∈ image.program.operands e → ev'.expr c u = ev.expr c u := fun hc =>
    hev.expr (hu.operand hc)
  cases hk : (image.program.expr e).kind with
  | intLiteral _ | declRef _ | sizeOf _ => rfl
  | call callee args =>
    exact hev.call hp (fun a ha => by simpa [Program.operands, hk, ExprKind.operands] using ha) hu
  | paren inner => exact bind_eq_left (hop (Program.mem_operands hk List.mem_cons_self))
  | unary op operand => exact bind_eq_left (hop (Program.mem_operands hk List.mem_cons_self))
  | cast operand => exact bind_eq_left (hop (Program.mem_operands hk List.mem_cons_self))
  | subscript base index =>
    refine hev.expr_bind (Program.mem_operands hk List.mem_cons_self) hu fun t ht => ?_
    have hindex : index ∈ image.program.operands e :=
      Program.mem_operands hk (List.mem_cons_of_mem _ List.mem_cons_self)
    exact bind_eq_left (hev.expr (ht.operand hindex))
  | binary op lhs rhs =>
    have hl : lhs ∈ image.program.operands e := Program.mem_operands hk List.mem_cons_self
    have hr : rhs ∈ image.program.operands e :=
      Program.mem_operands hk (List.mem_cons_of_mem _ List.mem_cons_self)
    dsimp only
    split
    · exact hev.expr_bind hr hu fun t ht => bind_eq_left (hev.target (ht.operand hl))
    · exact hev.expr_bind hl hu fun t ht => bind_eq_left (hev.expr (ht.operand hr))

/-- The target of an assignment agrees. -/
theorem Unhindered.targetStep {target : ExprId} (hs : image.program.Permits uses s.stack target) :
    targetStep image ev' target s = targetStep image ev target s := by
  unfold Run.targetStep
  cases hk : (image.program.expr target).kind with
  | paren inner => exact hev.target (hs.operand (Program.mem_operands hk List.mem_cons_self))
  | subscript base index =>
    refine hev.expr_bind (Program.mem_operands hk List.mem_cons_self) hs fun t ht => ?_
    have hindex : index ∈ image.program.operands target :=
      Program.mem_operands hk (List.mem_cons_of_mem _ List.mem_cons_self)
    exact hev.expr (ht.operand hindex)
  | unary op operand =>
    cases op with
    | deref => exact hev.expr (hs.operand (Program.mem_operands hk List.mem_cons_self))
    | neg | plus | not | bitNot | preInc | preDec | postInc | postDec | addressOf => rfl
  | intLiteral _ | declRef _ | binary _ _ _ | call _ _ | cast _ | sizeOf _ => rfl

/-- A declaration agrees if its initialiser may be evaluated. -/
theorem Unhindered.declStep
    (hs : ∀ init, (image.program.decl d).init? = some init →
      image.program.Permits uses s.stack init) :
    declStep image ev' d s = declStep image ev d s := by
  unfold Run.declStep
  cases hk : (image.program.decl d).kind with
  | function _ _ _ => rfl
  | «variable» _ init _ =>
    cases init with
    | none => rfl
    | some init => exact bind_eq_left (hev.expr (hs init (by simp [Decl.init?, hk])))

/-- Declarations agree, each with the earlier ones in scope. -/
theorem Unhindered.declarations {ds : List DeclId}
    (hds : image.program.DeclaresInScope V ds) (hs : Held V s.stack) :
    ds.forM ev'.decl s = ds.forM ev.decl s := by
  induction ds generalizing V s with
  | nil => rfl
  | cons d ds ih =>
    obtain ⟨hd, hinit, hrest⟩ := hds
    have hpermits : ∀ init, (image.program.decl d).init? = some init →
        image.program.Permits uses s.stack init := by
      intro init hi q d' hq hd'
      rcases hev.orderly.scope (hinit init hi) hq hd' with hmem | hglobal
      · rcases List.mem_cons.1 hmem with rfl | hmem
        · exact .inl (hev.orderly.initialisers hi hq hd')
        · exact .inr (hs.holds d' hmem)
      · exact .inl hglobal
    refine bind_eq_of_ensures (hev.decl (.inr hs.calls) hpermits) ?_ fun _ t ht => ih hrest ht
    refine ((hev.introduces.decl hd hs.calls).and
      (StmtLocal.ensures_held (hev.frames.decl d) hs)).mono
      (fun _ t ht => ht.2.cons ht.1) fun _ _ _ => trivial

/-- Statements in order, up to the first that returns. -/
theorem Unhindered.untilReturn {ids : List StmtId} (hids : image.program.Scoped V ids W)
    (hs : Held V s.stack) : untilReturn ev'.stmt ids s = untilReturn ev.stmt ids s := by
  induction ids generalizing V s with
  | nil => rfl
  | cons id ids ih =>
    obtain ⟨X, hid, hrest⟩ := hids.uncons
    refine bind_eq_of_ensures (hev.stmt hid hs) (hev.introduces.stmt hid hs) fun flow t ht => ?_
    cases flow with
    | normal => exact ih hrest ht
    | returned value => rfl

theorem Unhindered.conditionHolds {c : ExprId} (hc : image.program.InScope V c)
    (hs : Held V s.stack) :
    conditionHolds image ev' c s = conditionHolds image ev c s :=
  bind_eq_left (hev.expr (hev.orderly.permits hc hs))

theorem Unhindered.loopContinues {condition : Option ExprId}
    (hc : ∀ c ∈ condition, image.program.InScope V c) (hs : Held V s.stack) :
    loopContinues image ev' condition s = loopContinues image ev condition s := by
  cases condition with
  | none => rfl
  | some c => exact hev.conditionHolds (hc c rfl) hs

/-- A round of a loop agrees, although the body may have declared variables that the last clause
does not see. -/
theorem Unhindered.forRound {body : StmtId} {increment : Option ExprId}
    (hbody : image.program.Scoped V [body] W)
    (hi : ∀ e ∈ increment, image.program.InScope V e) (hs : Held V s.stack) :
    forRound ev' body increment s = forRound ev body increment s := by
  refine bind_eq_of_ensures (hev.stmt hbody hs) (StmtLocal.ensures_held (hev.frames.stmt body) hs)
    fun flow t ht => ?_
  cases flow with
  | returned value => rfl
  | normal =>
    cases increment with
    | none => rfl
    | some e => exact bind_eq_left (hev.expr (hev.orderly.permits (hi e rfl) ht))

/-- The value of a `return` agrees. -/
theorem Unhindered.returnValue {value : Option ExprId} (hv : ∀ e ∈ value, image.program.InScope V e)
    (hs : Held V s.stack) : returnValue image ev' value s = returnValue image ev value s := by
  cases value with
  | none => rfl
  | some e => exact bind_eq_left (hev.expr (hev.orderly.permits (hv e rfl) hs))

/-- A statement agrees where the variables in scope are held. -/
theorem Unhindered.stmtStep (rounds : Nat) {id : StmtId}
    (hid : image.program.Scoped V [id] W) (hs : Held V s.stack) :
    stmtStep image ev' rounds id s = stmtStep image ev rounds id s := by
  have hfocus : Ensures (focusOn (.stmt id)) s (fun _ t => Held V t.stack) Anything := hs.focusOn _
  refine bind_eq_of_ensures rfl hfocus fun _ u hu => ?_
  have hkept : ∀ {α : Type} {x : Run κ α} {nodes : ExprId → Prop} {V : List DeclId} {t : State κ},
      StmtLocal nodes x → Held V t.stack → Ensures x t (fun _ v => Held V v.stack) Anything :=
    StmtLocal.ensures_held
  cases hid with
  | block hk hbody _ =>
    rw [hk]
    exact hev.untilReturn hbody hu
  | declare hk hds _ =>
    rw [hk]
    exact bind_eq_left (hev.declarations hds hu)
  | expr hk he _ =>
    rw [hk]
    exact bind_eq_left (hev.expr (hev.orderly.permits he hu))
  | @ifElse _ _ _ _ thenBranch c elseBranch _ hk hc hbranches _ =>
    have hthen' : (image.program.stmt thenBranch).kind.isDeclaration = false :=
      hev.orderly.branches id thenBranch (by simp [hk, StmtKind.branches])
    have hc' : c ∈ image.program.roots id := by simp [Program.roots, StmtKind.exprs, hk]
    rw [hk]
    refine bind_eq_of_ensures (hev.conditionHolds hc hu) (hkept (hev.frames.conditionHolds hc') hu)
      fun holds t ht => ?_
    -- a branch declares nothing, so the same variables are held after either of them
    obtain ⟨X, hthen, helse⟩ := hbranches.uncons
    obtain rfl : X = V := hthen.eq_of_not_declares hev.orderly.branches (by simpa using hthen')
    cases holds with
    | true => exact hev.stmt hthen ht
    | false =>
      cases elseBranch with
      | none => rfl
      | some branch => exact hev.stmt helse ht
  | @whileLoop _ _ _ _ body c _ hk hc hbody _ =>
    have hc' : c ∈ image.program.roots id := by simp [Program.roots, StmtKind.exprs, hk]
    rw [hk]
    exact whileHolds_eq_of_invariant (I := fun t => Held V t.stack) (fun t ht =>
      hev.conditionHolds hc ht)
      (fun t ht => hkept (hev.frames.conditionHolds hc') ht) (fun t ht => hev.stmt hbody ht)
      (fun t ht => hkept (hev.frames.stmt body) ht) rounds hu
  | @forLoop _ V' _ _ _ body init c increment _ hk hinit hc hincrement hbody _ =>
    -- every round begins with what `init` has introduced
    have hloop : ∀ t : State κ, Held V' t.stack →
        whileHolds (Run.loopContinues image ev' c) (Run.forRound ev' body increment) rounds t =
          whileHolds (Run.loopContinues image ev c) (Run.forRound ev body increment) rounds t := by
      have hc' : ∀ e ∈ c, e ∈ image.program.roots id := fun e he => by
        simp [Program.roots, StmtKind.exprs, hk, Option.mem_def.1 he]
      have hincrement' : ∀ e ∈ increment, e ∈ image.program.roots id := fun e he => by
        simp [Program.roots, StmtKind.exprs, hk, Option.mem_def.1 he]
      have hbody' : body ∈ (image.program.stmt id).kind.inner := by simp [StmtKind.inner, hk]
      exact fun t ht => whileHolds_eq_of_invariant (I := fun t => Held V' t.stack)
        (fun t ht => hev.loopContinues hc ht) (fun t ht => hkept (hev.frames.loopContinues hc') ht)
        (fun t ht => hev.forRound hbody hincrement ht)
        (fun t ht => hkept (hev.frames.forRound hbody' hincrement') ht) rounds ht
    rw [hk]
    cases init with
    | none =>
      cases hinit
      exact hloop u hu
    | some init =>
      exact bind_eq_of_ensures (hev.stmt hinit hu) (hev.introduces.stmt hinit hu) fun _ t ht =>
        hloop t ht
  | ret hk hvalue _ =>
    rw [hk]
    exact bind_eq_left (hev.returnValue hvalue hu)
  | empty hk _ =>
    rw [hk]

omit hev

/-! ## Runs -/

/-- The entry function is entered with its parameters held. -/
theorem ensures_enterMain_held :
    Ensures (enterMain image) s (fun body t => ∃ d returnType params,
      (image.program.decl d).kind = .function returnType params (some body) ∧ Held params t.stack)
      Anything := by
  unfold enterMain
  split
  · trivial
  · next entry _ =>
    dsimp only
    split
    · next returnType params body hk =>
      rw [ensures_bind]
      refine (ensures_openFrame_held entry body _).mono (fun _ t ht => ?_) fun _ _ _ => trivial
      refine ⟨entry, returnType, params, hk, ?_⟩
      simpa [List.map_map, Function.comp_def] using ht
    · trivial

/-- The evaluators do the same in every run of a program whose names are resolved. -/
theorem Unhindered.runWith [Console κ] (hev : Unhindered image uses ev ev')
    (hp : image.program.Resolved) (s : State κ) : runWith image ev' s = runWith image ev s := by
  rw [runWith_eq, runWith_eq]
  refine bind_eq_of_forall ?_ fun _ t => ?_
  · refine forM_eq_of_invariant (I := fun _ => True) _ (fun _ _ _ _ =>
      ensures_of_forall fun _ _ => trivial) (fun item hitem t _ => ?_) trivial
    cases item with
    | function _ => rfl
    | «variable» d =>
      have hd : image.program.GlobalInScope d := hp.globals (by simpa using hitem)
      refine hev.decl (.inl hd.toIsGlobal) fun init hinit q d' hq hd' => ?_
      exact .inl ((hev.orderly.scope (hd.inScope init hinit) hq hd').resolve_left List.not_mem_nil)
  · refine bind_eq_of_ensures rfl ensures_enterMain_held fun body u hu => ?_
    obtain ⟨d, returnType, params, hk, hheld⟩ := hu
    obtain ⟨V, W, hV, hbody⟩ := hp.bodies hk
    exact bind_eq_left (hev.stmt hbody (hheld.mono hV))

end Run

end MiniC
