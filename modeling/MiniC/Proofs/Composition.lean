import MiniC.Machine.Interpreter
import MiniC.Proofs.Occurrence

/-!
# Relations that evaluation respects

A relation between computations composes if it holds of a result with itself and is kept when
computations follow one another (`Run.Composes`). Much of what holds of all runs is such a relation:
that a computation stays within certain changes, that it fulfils a contract, or that it does the
same as another one in states that correspond. The control of statements is made of these two alone.
So a relation that composes and holds of the parts of a statement holds of the statement
(`Composes.stmtStep`), and likewise for declarations, operands and a whole run. Where it holds of
all operations as well (`Run.Operates`), it holds of all runs (`Operates.run`).
-/

set_option autoImplicit false

namespace MiniC

/-- Whether a statement repeats its parts. -/
def StmtKind.isLoop : StmtKind → Bool
  | .whileLoop .. | .forLoop .. => true
  | _ => false

namespace Run

variable {κ κ' α β : Type}

/-! ## The parts of nodes -/

section Parts

variable [Console κ] (image : Image) (ev : Evaluator κ)

/-- Evaluates the operands of an expression; of an assignment's target, the parts that say where it
lies. -/
def evalOperands (e : ExprId) : Run κ Unit := do
  match (image.program.expr e).kind with
  | .intLiteral _ | .declRef _ | .sizeOf _ => return ()
  | .paren operand | .unary _ operand | .cast operand => ev.expr operand
  | .binary op lhs rhs =>
    if op.isAssignment then
      ev.expr rhs
      ev.target lhs
    else
      ev.expr lhs
      ev.expr rhs
  | .call _ args => args.forM ev.expr
  | .subscript base index =>
    ev.expr base
    ev.expr index

/-- What a call does when its arguments have values. -/
def finishCall (e : ExprId) (callee : DeclId) (args : List ExprId) : Run κ Unit := do
  focusOn (.expr e)
  match ← enterCall image e callee args with
  | none => return ()
  | some body =>
    let flow ← onOwnStack (ev.stmt body)
    leaveCall e flow.value

/-- What an expression does when its operands have values. -/
def conclude (e : ExprId) : Run κ Unit := do
  match (image.program.expr e).kind with
  | .intLiteral value => bindExpr e value
  | .declRef d => reference image e d
  | .paren inner => bindExpr e (← valueOf image inner)
  | .unary op operand =>
    focusOn (.expr e)
    unary image e op operand
  | .binary op lhs rhs =>
    focusOn (.expr e)
    binary image e op lhs rhs
  | .call callee args => finishCall image ev e callee args
  | .subscript base index =>
    focusOn (.expr e)
    subscript image e base index
  | .cast operand => cast image e operand
  | .sizeOf type => sizeOf image e type

/-- An expression evaluates its operands and then does what it does itself. -/
theorem exprStep_eq (e : ExprId) :
    exprStep image ev e = (do
      focusOn (.expr e)
      evalOperands image ev e
      conclude image ev e) := by
  unfold exprStep evalOperands conclude
  cases hk : (image.program.expr e).kind with
  | intLiteral _ | declRef _ | sizeOf _ => simp only [pure_bind]
  | paren _ | unary _ _ | cast _ | call _ _ => rfl
  | subscript _ _ => simp only [bind_assoc]
  | binary op _ _ =>
    dsimp only
    split <;> simp only [bind_assoc]

/-- Reads the value that a function returns. -/
def readReturned (e : ExprId) : Run κ Int32 := do
  if let some function := (← get).stack.top.function then
    let expected := (image.program.decl function).type.result
    if expected.isPointer then checkConversion image expected e
  valueOf image e

/-- Introduces a variable of the file. -/
def introduce : Item → Run κ Unit
  | .variable d => ev.decl d
  | .function _ => return ()

omit [Console κ] in
/-- A run introduces the items and then calls the entry function. -/
theorem runWith_eq :
    runWith image ev = (do
      image.program.items.toList.forM (introduce ev)
      let body ← enterMain image
      let flow ← ev.stmt body
      modifyStack fun stack => stack.pop.2
      return flow.value) := rfl

end Parts

/-! ## Relations that compose -/

/-- A relation between computations that holds of results and is kept when computations follow one
another. -/
structure Composes (R : ∀ α : Type, Run κ α → Run κ' α → Prop) : Prop where
  pure : ∀ {α : Type} (a : α), R α (pure a) (pure a)
  bind : ∀ {α β : Type} {x : Run κ α} {y : Run κ' α} {f : α → Run κ β} {g : α → Run κ' β},
    R α x y → (∀ a, R β (f a) (g a)) → R β (x >>= f) (y >>= g)

/-- A property of computations as a relation, which looks at the first computation alone. -/
def Alone (P : ∀ α : Type, Run κ α → Prop) (α : Type) (x _ : Run κ α) : Prop := P α x

/-- A property holds of a computation that the relation relates to itself. -/
theorem Composes.alone {P : ∀ α : Type, Run κ α → Prop} (_ : Composes (Alone P)) {x : Run κ α}
    (h : Alone P α x x) :
    P α x := h

/-- Loops of so many rounds are related if their conditions and their actions are. -/
def Loops (R : ∀ α : Type, Run κ α → Run κ' α → Prop) (rounds rounds' : Nat) : Prop :=
  ∀ (condition : Run κ Bool) (condition' : Run κ' Bool) (action : Run κ Flow)
    (action' : Run κ' Flow), R Bool condition condition' → R Flow action action' →
      R Flow (whileHolds condition action rounds) (whileHolds condition' action' rounds')

/-- What nodes do is related, node by node. -/
structure Related (R : ∀ α : Type, Run κ α → Run κ' α → Prop) (ev : Evaluator κ)
    (ev' : Evaluator κ') : Prop where
  expr : ∀ e, R Unit (ev.expr e) (ev'.expr e)
  target : ∀ e, R Unit (ev.target e) (ev'.target e)
  decl : ∀ d, R Unit (ev.decl d) (ev'.decl d)
  stmt : ∀ id, R Flow (ev.stmt id) (ev'.stmt id)

/-- The nodes of two programs are of the same kinds. -/
structure SameKinds (image image' : Image) : Prop where
  expr : ∀ e, (image'.program.expr e).kind = (image.program.expr e).kind
  stmt : ∀ id, (image'.program.stmt id).kind = (image.program.stmt id).kind
  decl : ∀ d, (image'.program.decl d).kind = (image.program.decl d).kind
  items : image'.program.items = image.program.items

theorem SameKinds.refl (image : Image) : SameKinds image image :=
  ⟨fun _ => rfl, fun _ => rfl, fun _ => rfl, rfl⟩

/-- What a statement is made of is related. -/
structure StmtParts (R : ∀ α : Type, Run κ α → Run κ' α → Prop) (image image' : Image)
    (ev : Evaluator κ) (ev' : Evaluator κ') (kind : StmtKind) : Prop where
  expr : ∀ e ∈ kind.exprs, R Unit (ev.expr e) (ev'.expr e)
  condition : ∀ e ∈ kind.exprs, R Bool (conditionHolds image ev e) (conditionHolds image' ev' e)
  returned :
    ∀ e ∈ kind.exprs, R Int32 (returnValue image ev (some e)) (returnValue image' ev' (some e))
  decl : ∀ d ∈ kind.declared, R Unit (ev.decl d) (ev'.decl d)
  stmt : ∀ i ∈ kind.inner, R Flow (ev.stmt i) (ev'.stmt i)

namespace Composes

variable {R : ∀ α : Type, Run κ α → Run κ' α → Prop} (c : Composes R)
include c

/-! ## Control -/

/-- Lists of computations are related if their members are. -/
theorem forM {f : α → Run κ Unit} {g : α → Run κ' Unit} (as : List α)
    (h : ∀ a ∈ as, R Unit (f a) (g a)) :
    R Unit (as.forM f) (as.forM g) := by
  induction as with
  | nil => exact c.pure _
  | cons a as ih => exact c.bind (h a (by simp)) fun _ => ih fun b hb => h b (by simp [hb])

/-- So are lists of computations with results. -/
theorem mapM {f : α → Run κ β} {g : α → Run κ' β} (as : List α) (h : ∀ a ∈ as, R β (f a) (g a)) :
    R (List β) (as.mapM f) (as.mapM g) := by
  induction as with
  | nil =>
    rw [List.mapM_nil, List.mapM_nil]
    exact c.pure _
  | cons a as ih =>
    rw [List.mapM_cons, List.mapM_cons]
    exact c.bind (h a (by simp)) fun _ => c.bind (ih fun b hb => h b (by simp [hb])) fun _ =>
      c.pure _

/-- So are lists of statements. -/
theorem untilReturn {f : α → Run κ Flow} {g : α → Run κ' Flow} (as : List α)
    (h : ∀ a ∈ as, R Flow (f a) (g a)) :
    R Flow (untilReturn f as) (untilReturn g as) := by
  induction as with
  | nil => exact c.pure _
  | cons a as ih =>
    refine c.bind (h a (by simp)) fun flow => ?_
    cases flow with
    | normal => exact ih fun b hb => h b (by simp [hb])
    | returned value => exact c.pure _

/-- Loops of as many rounds are related if they are where they run out of rounds. -/
theorem loops (hfuel : R Flow (throw .outOfFuel) (throw .outOfFuel)) (rounds : Nat) :
    Loops R rounds rounds := by
  intro condition condition' action action' hc ha
  induction rounds with
  | zero => exact hfuel
  | succ rounds ih =>
    refine c.bind hc fun holds => ?_
    cases holds with
    | false => exact c.pure _
    | true =>
      refine c.bind ha fun flow => ?_
      cases flow with
      | normal => exact ih
      | returned value => exact c.pure _

/-! ## Statements -/

variable {image image' : Image} {ev : Evaluator κ} {ev' : Evaluator κ'}

/-- Conditions are related if their expressions and the reading of values are. -/
theorem conditionHolds {e : ExprId} (he : R Unit (ev.expr e) (ev'.expr e))
    (hvalue : R Int32 (valueOf image e) (valueOf image' e)) :
    R Bool (conditionHolds image ev e) (conditionHolds image' ev' e) :=
  c.bind he fun _ => c.bind hvalue fun _ => c.pure _

/-- The values of a `return` are related if their expressions and the reading of values are. -/
theorem returnValue {e : ExprId} (he : R Unit (ev.expr e) (ev'.expr e))
    (hread : R Int32 (readReturned image e) (readReturned image' e)) :
    R Int32 (returnValue image ev (some e)) (returnValue image' ev' (some e)) :=
  c.bind he fun _ => hread

theorem loopContinues {condition : Option ExprId}
    (h : ∀ e ∈ condition, R Bool (Run.conditionHolds image ev e)
      (Run.conditionHolds image' ev' e)) :
    R Bool (loopContinues image ev condition) (loopContinues image' ev' condition) := by
  cases condition with
  | none => exact c.pure true
  | some e => exact h e rfl

/-- Rounds of loops are related if bodies and last clauses are. -/
theorem forRound {body : StmtId} {increment : Option ExprId}
    (hbody : R Flow (ev.stmt body) (ev'.stmt body))
    (h : ∀ e ∈ increment, R Unit (ev.expr e) (ev'.expr e)) :
    R Flow (forRound ev body increment) (forRound ev' body increment) := by
  refine c.bind hbody fun flow => ?_
  cases flow with
  | returned value => exact c.pure _
  | normal =>
    cases increment with
    | none => exact c.pure _
    | some e => exact c.bind (h e rfl) fun _ => c.pure _

/-- The parts of statements are related if what nodes do is. -/
theorem stmtParts (h : Related R ev ev')
    (hvalue : ∀ e, R Int32 (valueOf image e) (valueOf image' e))
    (hread : ∀ e, R Int32 (readReturned image e) (readReturned image' e)) (kind : StmtKind) :
    StmtParts R image image' ev ev' kind where
  expr e _ := h.expr e
  condition e _ := c.conditionHolds (h.expr e) (hvalue e)
  returned e _ := c.returnValue (h.expr e) (hread e)
  decl d _ := h.decl d
  stmt i _ := h.stmt i

/-- A statement is related to the same one if its parts are. Only loops have rounds. -/
theorem stmtStep {rounds rounds' : Nat} {id : StmtId}
    (hkind : (image'.program.stmt id).kind = (image.program.stmt id).kind)
    (hfocus : R Unit (focusOn (.stmt id)) (focusOn (.stmt id)))
    (h : StmtParts R image image' ev ev' (image.program.stmt id).kind)
    (hloops : (image.program.stmt id).kind.isLoop = true → Loops R rounds rounds') :
    R Flow (stmtStep image ev rounds id) (stmtStep image' ev' rounds' id) := by
  refine c.bind hfocus fun _ => ?_
  rw [hkind]
  cases hk : (image.program.stmt id).kind with
  | block body =>
    exact c.untilReturn body fun i hi => h.stmt i (by simpa [StmtKind.inner, hk] using hi)
  | declare decls =>
    refine c.bind (c.forM decls fun d hd => h.decl d ?_) fun _ => c.pure _
    simpa [StmtKind.declared, hk] using hd
  | expr e => exact c.bind (h.expr e (by simp [StmtKind.exprs, hk])) fun _ => c.pure _
  | ifElse condition thenBranch elseBranch =>
    refine c.bind (h.condition condition (by simp [StmtKind.exprs, hk])) fun holds => ?_
    cases holds with
    | true => exact h.stmt thenBranch (by simp [StmtKind.inner, hk])
    | false =>
      cases elseBranch with
      | none => exact c.pure _
      | some branch => exact h.stmt branch (by simp [StmtKind.inner, hk])
  | whileLoop condition body =>
    exact hloops (by rw [hk]; rfl) _ _ _ _ (h.condition condition (by simp [StmtKind.exprs, hk]))
      (h.stmt body (by simp [StmtKind.inner, hk]))
  | forLoop init condition increment body =>
    -- the rounds are the same with and without `init`
    have hloop : R Flow (whileHolds (Run.loopContinues image ev condition)
      (Run.forRound ev body increment) rounds)
        (whileHolds (Run.loopContinues image' ev' condition)
          (Run.forRound ev' body increment) rounds') := by
      refine hloops (by rw [hk]; rfl) _ _ _ _ (c.loopContinues fun e he => h.condition e ?_)
        (c.forRound (h.stmt body ?_) fun e he => h.expr e ?_)
      · simp [StmtKind.exprs, hk, Option.mem_def.1 he]
      · simp [StmtKind.inner, hk]
      · simp [StmtKind.exprs, hk, Option.mem_def.1 he]
    cases init with
    | none => exact hloop
    | some init => exact c.bind (h.stmt init (by simp [StmtKind.inner, hk])) fun _ => hloop
  | ret value =>
    have hvalue : R Int32 (Run.returnValue image ev value) (Run.returnValue image' ev' value) := by
      cases value with
      | none => exact c.pure 0
      | some e => exact h.returned e (by simp [StmtKind.exprs, hk])
    exact c.bind hvalue fun _ => c.pure _
  | empty => exact c.pure _

/-! ## Expressions and declarations -/

/-- Operands are related one by one. -/
theorem evalOperands {e : ExprId}
    (hkind : (image'.program.expr e).kind = (image.program.expr e).kind)
    (hexpr : ∀ o ∈ image.program.operands e, R Unit (ev.expr o) (ev'.expr o))
    (htarget : ∀ o ∈ image.program.operands e, R Unit (ev.target o) (ev'.target o)) :
    R Unit (evalOperands image ev e) (evalOperands image' ev' e) := by
  unfold Run.evalOperands
  rw [hkind]
  cases hk : (image.program.expr e).kind with
  | intLiteral _ | declRef _ | sizeOf _ => exact c.pure ()
  | paren operand | unary _ operand | cast operand =>
    exact hexpr operand (Program.mem_operands hk List.mem_cons_self)
  | call _ args =>
    exact c.forM args fun a ha =>
      hexpr a (by simpa [Program.operands, ExprKind.operands, hk] using ha)
  | subscript base index =>
    refine c.bind (hexpr base ?_) fun _ =>
      hexpr index ?_ <;> simp [Program.operands, ExprKind.operands, hk]
  | binary op lhs rhs =>
    have hl : lhs ∈ image.program.operands e := Program.mem_operands hk List.mem_cons_self
    have hr : rhs ∈ image.program.operands e :=
      Program.mem_operands hk (List.mem_cons_of_mem _ List.mem_cons_self)
    dsimp only
    -- the order of the operands depends on the operator
    split
    · exact c.bind (hexpr rhs hr) fun _ => htarget lhs hl
    · exact c.bind (hexpr lhs hl) fun _ => hexpr rhs hr

/-- Expressions are related if their operands and what they do themselves are. -/
theorem exprStep [Console κ] [Console κ'] {e : ExprId}
    (hfocus : R Unit (focusOn (.expr e)) (focusOn (.expr e)))
    (hoperands : R Unit (Run.evalOperands image ev e) (Run.evalOperands image' ev' e))
    (hconclude : R Unit (conclude image ev e) (conclude image' ev' e)) :
    R Unit (exprStep image ev e) (exprStep image' ev' e) := by
  rw [exprStep_eq, exprStep_eq]
  exact c.bind hfocus fun _ => c.bind hoperands fun _ => hconclude

/-- Targets of assignments are related if the parts that locate them are. -/
theorem targetStep {e : ExprId} (hkind : (image'.program.expr e).kind = (image.program.expr e).kind)
    (hexpr : ∀ o ∈ image.program.operands e, R Unit (ev.expr o) (ev'.expr o))
    (htarget : ∀ o ∈ image.program.operands e, R Unit (ev.target o) (ev'.target o)) :
    R Unit (targetStep image ev e) (targetStep image' ev' e) := by
  unfold Run.targetStep
  rw [hkind]
  split
  · next inner hk => exact htarget inner (Program.mem_operands hk List.mem_cons_self)
  · next operand hk => exact hexpr operand (Program.mem_operands hk List.mem_cons_self)
  · next base index hk =>
    refine c.bind (hexpr base ?_) fun _ =>
      hexpr index ?_ <;> simp [Program.operands, ExprKind.operands, hk]
  · exact c.pure ()

/-- Declarations are related if their initialisers and the initialisation are. -/
theorem declStep {d : DeclId} (hkind : (image'.program.decl d).kind = (image.program.decl d).kind)
    (hexpr : ∀ init ∈ (image.program.decl d).init?, R Unit (ev.expr init) (ev'.expr init))
    (hinit : R Unit (initialise image d) (initialise image' d)) :
    R Unit (declStep image ev d) (declStep image' ev' d) := by
  unfold Run.declStep
  rw [hkind]
  dsimp only
  split
  · next init _ hk => exact c.bind (hexpr init (by simp [Decl.init?, hk])) fun _ => hinit
  · exact hinit

/-! ## Levels of nesting and runs -/

/-- Nodes that nest one level more are related if the nodes inside them are, and if what they do
themselves is. -/
theorem related_succ [Console κ] [Console κ'] {fuel fuel' : Nat} (hkinds : SameKinds image image')
    (hfocus : ∀ focus, R Unit (focusOn focus) (focusOn focus))
    (hvalue : ∀ e, R Int32 (valueOf image e) (valueOf image' e))
    (hread : ∀ e, R Int32 (readReturned image e) (readReturned image' e))
    (hinit : ∀ d, R Unit (initialise image d) (initialise image' d))
    (hconclude : ∀ e, R Unit (conclude image (evaluator image fuel) e)
      (conclude image' (evaluator image' fuel') e))
    (hloops : Loops R fuel fuel') (h : Related R (evaluator image fuel) (evaluator image' fuel')) :
    Related R (evaluator image (fuel + 1)) (evaluator image' (fuel' + 1)) where
  expr e :=
    c.exprStep (hfocus _) (c.evalOperands (hkinds.expr e) (fun o _ => h.expr o) fun o _ =>
      h.target o)
    (hconclude e)
  target e := c.targetStep (hkinds.expr e) (fun o _ => h.expr o) fun o _ => h.target o
  decl d := c.declStep (hkinds.decl d) (fun init _ => h.expr init) (hinit d)
  stmt id := c.stmtStep (hkinds.stmt id) (hfocus _) (c.stmtParts h hvalue hread _) fun _ => hloops

/-- Runs are related if what nodes and items do is. -/
theorem runWith (hitems : image'.program.items = image.program.items) (h : Related R ev ev')
    (hmain : R StmtId (enterMain image) (enterMain image'))
    (hpop : R Unit (modifyStack fun stack => stack.pop.2) (modifyStack fun stack => stack.pop.2)) :
    R Int32 (runWith image ev) (runWith image' ev') := by
  have hitem (item : Item) : R Unit (introduce ev item) (introduce ev' item) := by
    cases item with
    | «variable» d => exact h.decl d
    | function _ => exact c.pure ()
  rw [runWith_eq, runWith_eq, hitems]
  refine c.bind (c.forM _ fun item _ => hitem item) fun _ => c.bind hmain fun body => ?_
  exact c.bind (h.stmt body) fun flow => c.bind hpop fun _ => c.pure _

end Composes

/-! ## Relations that all operations respect -/

/-- A relation that composes, and that holds of every operation in two programs with nodes of the
same kinds. -/
structure Operates [Console κ] [Console κ'] (R : ∀ α : Type, Run κ α → Run κ' α → Prop)
    (image image' : Image) : Prop extends Composes R where
  kinds : SameKinds image image'
  focusOn : ∀ focus, R Unit (focusOn focus) (focusOn focus)
  bindExpr : ∀ e value, R Unit (bindExpr e value) (bindExpr e value)
  valueOf : ∀ e, R Int32 (valueOf image e) (valueOf image' e)
  readReturned : ∀ e, R Int32 (readReturned image e) (readReturned image' e)
  reference : ∀ e d, R Unit (reference image e d) (reference image' e d)
  cast : ∀ e operand, R Unit (cast image e operand) (cast image' e operand)
  sizeOf : ∀ e type, R Unit (sizeOf image e type) (sizeOf image' e type)
  subscript : ∀ e base index, R Unit (subscript image e base index) (subscript image' e base index)
  unary : ∀ e op operand, R Unit (unary image e op operand) (unary image' e op operand)
  binary : ∀ e op lhs rhs, R Unit (binary image e op lhs rhs) (binary image' e op lhs rhs)
  initialise : ∀ d, R Unit (initialise image d) (initialise image' d)
  enterCall : ∀ e callee args, R (Option StmtId) (enterCall image e callee args)
    (enterCall image' e callee args)
  enterMain : R StmtId (enterMain image) (enterMain image')
  pop : R Unit (modifyStack fun stack => stack.pop.2) (modifyStack fun stack => stack.pop.2)

namespace Operates

variable [Console κ] [Console κ'] {R : ∀ α : Type, Run κ α → Run κ' α → Prop} {image image' : Image}
  {ev : Evaluator κ} {ev' : Evaluator κ'} (c : Operates R image image')
include c

/-- Calls are related if the bodies of functions are. -/
theorem finishCall (h : Related R ev ev') (e : ExprId) (callee : DeclId) (args : List ExprId) :
    R Unit (finishCall image ev e callee args) (finishCall image' ev' e callee args) := by
  refine c.bind (c.focusOn _) fun _ => c.bind (c.enterCall e callee args) fun entered => ?_
  cases entered with
  | none => exact c.pure ()
  | some body =>
    dsimp only
    rw [onOwnStack_eq, onOwnStack_eq]
    exact c.bind (h.stmt body) fun flow => c.bind c.pop fun _ => c.bindExpr e flow.value

/-- What expressions do themselves is related if operations and bodies are. -/
theorem conclude (h : Related R ev ev') (e : ExprId) :
    R Unit (conclude image ev e) (conclude image' ev' e) := by
  unfold Run.conclude
  rw [c.kinds.expr]
  cases (image.program.expr e).kind with
  | intLiteral value => exact c.bindExpr e value
  | declRef d => exact c.reference e d
  | paren inner => exact c.bind (c.valueOf inner) fun value => c.bindExpr e value
  | unary op operand => exact c.bind (c.focusOn _) fun _ => c.unary e op operand
  | binary op lhs rhs => exact c.bind (c.focusOn _) fun _ => c.binary e op lhs rhs
  | call callee args => exact c.finishCall h e callee args
  | subscript base index => exact c.bind (c.focusOn _) fun _ => c.subscript e base index
  | cast operand => exact c.cast e operand
  | sizeOf type => exact c.sizeOf e type

/-- One more level of nesting. -/
theorem related_succ {fuel fuel' : Nat} (hloops : Loops R fuel fuel')
    (h : Related R (evaluator image fuel) (evaluator image' fuel')) :
    Related R (evaluator image (fuel + 1)) (evaluator image' (fuel' + 1)) :=
  c.toComposes.related_succ c.kinds c.focusOn c.valueOf c.readReturned c.initialise
    (c.conclude h) hloops h

/-- A relation that operations respect holds of whole runs. -/
theorem runWith (h : Related R ev ev') : R Int32 (runWith image ev) (runWith image' ev') :=
  c.toComposes.runWith c.kinds.items h c.enterMain c.pop

/-- A relation that all operations respect is respected by runs of both programs with the same
fuel. -/
theorem run (hfuel : ∀ α : Type, R α (throw .outOfFuel) (throw .outOfFuel)) (fuel : Nat) :
    R Int32 (run image fuel) (run image' fuel) := by
  have hrelated (n : Nat) : Related R (evaluator image n) (evaluator image' n) := by
    induction n with
    | zero => exact ⟨fun _ => hfuel _, fun _ => hfuel _, fun _ => hfuel _, fun _ => hfuel _⟩
    | succ n ih => exact c.related_succ (c.loops (hfuel _) n) ih
  exact c.runWith (hrelated fuel)

end Operates

end Run

end MiniC
