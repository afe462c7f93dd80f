import MiniC.Proofs.Fuel
import MiniC.Proofs.OperationContract

/-!
# Evaluation with enough fuel

How an evaluation ends does not depend on the fuel as soon as there is enough of it. `Run.Settles
image x s r` says that with enough fuel the computation `x`, which uses the evaluator, ends in `r`
from the state `s`. Such computations compose (`Settles.bind`). The cases that matter are the
evaluation of one expression (`Run.Evaluates`) and of several in a row (`Run.EvaluatesAll`).

An expression is evaluated operands first (`Program.asked`). Read forwards, this leads from the
operands' outcome to that of the expression (`Evaluates.of_operands`); read backwards, it finds the
state between the two (`exists_operands_of_evaluator`).
-/

set_option autoImplicit false

namespace MiniC.Run

variable {κ α β : Type} [Console κ] {image : Image}

/-! ## More fuel -/

/-- An evaluation that does not run out of fuel is the same with more of it. -/
theorem expr_add_spare {fuel : Nat} {e : ExprId} {s : State κ}
    (h : halt? ((evaluator image fuel).expr e s) ≠ some .outOfFuel) (spare : Nat) :
    (evaluator image (fuel + spare)).expr e s = (evaluator image fuel).expr e s := by
  have hspare : (Cut.fuel (κ := κ)).Spares spare := fun _ _ _ _ => rfl
  have hfollowed : Followed Cut.fuel (evaluator image fuel) (evaluator image (fuel + spare)) :=
    followed_evaluator (Cut.fuel_fits image) hspare (followed_of_spares image hspare) fuel
  exact eq_of_follows (hfollowed.expr e) h

/-- With enough fuel, what is done with the evaluator ends like this. -/
def Settles (image : Image) (x : Evaluator κ → Run κ α) (s : State κ)
    (r : EStateM.Result Halt (State κ) α) :
    Prop :=
  ∃ fuel, ∀ more, fuel ≤ more → x (evaluator image more) s = r

/-- With enough fuel, the evaluation of an expression ends like this. -/
abbrev Evaluates (image : Image) (e : ExprId) (s : State κ)
    (r : EStateM.Result Halt (State κ) Unit) : Prop :=
  Settles image (fun ev => ev.expr e) s r

/-- With enough fuel, the evaluation of expressions one after the other ends with values, in this
state. -/
abbrev EvaluatesAll (image : Image) (es : List ExprId) (s t : State κ) : Prop :=
  Settles image (fun ev => es.forM ev.expr) s (.ok () t)

namespace Settles

variable {x : Evaluator κ → Run κ α} {s t : State κ} {r : EStateM.Result Halt (State κ) α}

theorem unique {r' : EStateM.Result Halt (State κ) α} (h : Settles image x s r)
    (h' : Settles image x s r') :
    r = r' := by
  obtain ⟨fuel, hfuel⟩ := h
  obtain ⟨fuel', hfuel'⟩ := h'
  rw [← hfuel _ (Nat.le_max_left fuel fuel'), ← hfuel' _ (Nat.le_max_right fuel fuel')]

/-- What ends like this with every evaluator. -/
theorem of_eq (h : ∀ ev, x ev s = r) : Settles image x s r := ⟨0, fun _ _ => h _⟩

theorem bind {f : Evaluator κ → α → Run κ β} {a : α} {r : EStateM.Result Halt (State κ) β}
    (hx : Settles image x s (.ok a t)) (hf : Settles image (fun ev => f ev a) t r) :
    Settles image (fun ev => x ev >>= f ev) s r := by
  obtain ⟨fuel, hfuel⟩ := hx
  obtain ⟨fuel', hfuel'⟩ := hf
  refine ⟨max fuel fuel', fun more hmore => ?_⟩
  obtain ⟨hle, hle'⟩ := Nat.max_le.1 hmore
  dsimp only
  rw [bind_apply, hfuel more hle]
  exact hfuel' more hle'

/-- What would follow on a computation that halts is not reached. -/
theorem bind_error {f : Evaluator κ → α → Run κ β} {halt : Halt}
    (hx : Settles image x s (.error halt t)) :
    Settles image (fun ev => x ev >>= f ev) s (.error halt t) := by
  obtain ⟨fuel, hfuel⟩ := hx
  refine ⟨fuel, fun more hmore => ?_⟩
  dsimp only
  rw [bind_apply, hfuel more hmore]

end Settles

/-- How an evaluation ends that does not run out of fuel is how it ends with enough of it. -/
theorem Evaluates.of_halt? {fuel : Nat} {e : ExprId} {s : State κ}
    {r : EStateM.Result Halt (State κ) Unit}
    (h : (evaluator image fuel).expr e s = r) (hr : halt? r ≠ some .outOfFuel) :
    Evaluates image e s r := by
  refine ⟨fuel, fun more hmore => ?_⟩
  obtain ⟨spare, rfl⟩ := Nat.exists_eq_add_of_le hmore
  subst h
  exact expr_add_spare hr spare

theorem Evaluates.of_evaluator {fuel : Nat} {e : ExprId} {s t : State κ}
    (h : (evaluator image fuel).expr e s = .ok () t) : Evaluates image e s (.ok () t) :=
      .of_halt? h nofun

/-- One level of nesting is carried out. -/
theorem Evaluates.of_step {e : ExprId} {s : State κ} {r : EStateM.Result Halt (State κ) Unit}
    (h : Settles image (fun ev => exprStep image ev e) s r) : Evaluates image e s r := by
  obtain ⟨fuel, hfuel⟩ := h
  refine ⟨fuel + 1, fun more hmore => ?_⟩
  obtain ⟨spare, rfl⟩ := Nat.exists_eq_add_of_le' hmore
  exact hfuel (spare + fuel) (Nat.le_add_left _ _)

/-! ## Expressions in a row -/

namespace EvaluatesAll

variable {s t u : State κ} {e : ExprId} {es : List ExprId}

theorem nil (s : State κ) : EvaluatesAll image [] s s := .of_eq fun _ => rfl

theorem cons (he : Evaluates image e s (.ok () t)) (hes : EvaluatesAll image es t u) :
    EvaluatesAll image (e :: es) s u := Settles.bind he hes

theorem singleton (he : Evaluates image e s (.ok () t)) : EvaluatesAll image [e] s t :=
  cons he (nil t)

/-- The first of the expressions leads to a state from which the others lead on. -/
theorem of_cons (h : EvaluatesAll image (e :: es) s u) :
    ∃ t, Evaluates image e s (.ok () t) ∧ EvaluatesAll image es t u := by
  obtain ⟨fuel, hfuel⟩ := h
  obtain ⟨_, t, he, -⟩ := exists_of_bind_eq_ok (hfuel fuel (Nat.le_refl _))
  have hfirst := Evaluates.of_evaluator he
  refine ⟨t, hfirst, fuel, fun more hmore => ?_⟩
  -- with more fuel the first expression leads to the same state
  obtain ⟨_, t', he', hes⟩ := exists_of_bind_eq_ok (hfuel more hmore)
  cases hfirst.unique (Evaluates.of_evaluator he')
  exact hes

theorem of_singleton (h : EvaluatesAll image [e] s u) : Evaluates image e s (.ok () u) := by
  obtain ⟨t, he, hnil⟩ := h.of_cons
  cases hnil.unique (nil t)
  exact he

/-- Expressions that are evaluated in a row with some fuel are so with enough of it. -/
theorem of_forM {fuel : Nat} (h : (es.forM (evaluator image fuel).expr) s = .ok () t) :
    EvaluatesAll image es s t := by
  induction es generalizing s with
  | nil =>
    cases h
    exact nil _
  | cons e es ih =>
    obtain ⟨_, u, he, hes⟩ := exists_of_bind_eq_ok h
    exact cons (.of_evaluator he) (ih hes)

/-- Expressions whose evaluation with some fuel has results lead to the state that it ends in. -/
theorem of_result? {fuel : Nat} (h : result? ((es.forM (evaluator image fuel).expr) s) = some ()) :
    EvaluatesAll image es s (endState ((es.forM (evaluator image fuel).expr) s)) := by
  obtain ⟨t, ht⟩ := exists_of_result? h
  rw [ht]
  exact of_forM ht

end EvaluatesAll

/-! ## What the frame works on -/

/-- A state whose top frame is turned to a node. -/
def turnedTo (s : State κ) (focus : Focus) : State κ :=
  { s with stack := s.stack.modifyTop (·.focusOn focus) }

omit [Console κ] in
theorem focusOn_apply (s : State κ) (focus : Focus) : focusOn focus s = .ok () (turnedTo s focus) :=
  rfl

omit [Console κ] in
@[simp] theorem turnedTo_turnedTo (s : State κ) (focus focus' : Focus) :
    turnedTo (turnedTo s focus) focus' = turnedTo s focus' := by
  rcases s with ⟨⟨_ | ⟨frame, callers⟩, global⟩, heap, arrays, console, diagnostics⟩ <;> rfl

omit [Console κ] in
@[simp] theorem expr?_turnedTo (s : State κ) (focus : Focus) (e : ExprId) :
    (turnedTo s focus).stack.top.expr? e = s.stack.top.expr? e := by
  simp [turnedTo]

/-- Evaluation begins with turning to the expression, wherever the frame was. -/
theorem exprStep_turnedTo (ev : Evaluator κ) (e : ExprId) (s : State κ) (focus : Focus) :
    exprStep image ev e (turnedTo s focus) = exprStep image ev e s := by
  unfold exprStep
  rw [bind_apply, bind_apply, focusOn_apply, focusOn_apply, turnedTo_turnedTo]

theorem Evaluates.turnedTo_iff {e : ExprId} {s : State κ} {focus : Focus}
    {r : EStateM.Result Halt (State κ) Unit} :
    Evaluates image e (turnedTo s focus) r ↔ Evaluates image e s r := by
  -- without fuel nothing is evaluated, so there is some
  have hsame (more : Nat) (hmore : 1 ≤ more) :
      (evaluator image more).expr e (turnedTo s focus) = (evaluator image more).expr e s := by
    obtain ⟨fuel, rfl⟩ := Nat.exists_eq_add_of_le' hmore
    exact exprStep_turnedTo _ e s focus
  constructor
  · rintro ⟨fuel, hfuel⟩
    refine ⟨fuel + 1, fun more hmore => ?_⟩
    dsimp only
    rw [← hsame more (by omega)]
    exact hfuel more (by omega)
  · rintro ⟨fuel, hfuel⟩
    refine ⟨fuel + 1, fun more hmore => ?_⟩
    dsimp only
    rw [hsame more (by omega)]
    exact hfuel more (by omega)

theorem EvaluatesAll.turnedTo_iff {es : List ExprId} (hes : es ≠ [])
    {s t : State κ} {focus : Focus} :
    EvaluatesAll image es (turnedTo s focus) t ↔ EvaluatesAll image es s t := by
  cases es with
  | nil => exact absurd rfl hes
  | cons e es =>
    constructor
    · intro h
      obtain ⟨u, he, hrest⟩ := h.of_cons
      exact .cons (Evaluates.turnedTo_iff.1 he) hrest
    · intro h
      obtain ⟨u, he, hrest⟩ := h.of_cons
      exact .cons (Evaluates.turnedTo_iff.2 he) hrest

/-! ## Targets -/

section Targets

variable (ht : image.program.Tree)
include ht

/-- To evaluate a target is to evaluate what says where it lies, whatever parentheses are around
it. -/
theorem evaluatesAll_of_target {fuel : Nat} {target : ExprId} {s t : State κ}
    (h : (evaluator image fuel).target target s = .ok () t) :
    EvaluatesAll image
      (image.program.expr (image.program.stripParens target)).kind.locators s t := by
  induction fuel generalizing target with
  | zero => cases h
  | succ fuel ih =>
    change targetStep image (evaluator image fuel) target s = _ at h
    unfold targetStep at h
    cases hk : (image.program.expr target).kind with
    -- the target inside the parentheses is located one level further down
    | paren inner =>
      rw [hk] at h
      rw [ht.stripParens_paren hk]
      exact ih h
    | unary op operand =>
      rw [Program.stripParens_eq_self (by simp [hk]), hk]
      rw [hk] at h
      cases op with
      | deref => exact .singleton (.of_evaluator h)
      | neg | plus | not | bitNot | preInc | preDec | postInc | postDec | addressOf =>
        cases h
        exact .nil s
    | subscript base index =>
      rw [Program.stripParens_eq_self (by simp [hk]), hk]
      rw [hk] at h
      obtain ⟨_, u, hbase, hindex⟩ := exists_of_bind_eq_ok h
      exact .cons (.of_evaluator hbase) (.singleton (.of_evaluator hindex))
    | intLiteral _ | declRef _ | binary _ _ _ | call _ _ | cast _ | sizeOf _ =>
      rw [Program.stripParens_eq_self (by simp [hk]), hk]
      rw [hk] at h
      cases h
      exact .nil s

/-- The evaluation of what says where a target lies leads where that of the target does. -/
theorem settles_target {target : ExprId} {s t : State κ}
    (h : EvaluatesAll image
      (image.program.expr (image.program.stripParens target)).kind.locators s t) :
    Settles image (fun ev => ev.target target) s (.ok () t) := by
  suffices hstep : Settles image (fun ev => targetStep image ev target) s (.ok () t) by
    obtain ⟨fuel, hfuel⟩ := hstep
    refine ⟨fuel + 1, fun more hmore => ?_⟩
    obtain ⟨spare, rfl⟩ := Nat.exists_eq_add_of_le' hmore
    exact hfuel (spare + fuel) (Nat.le_add_left _ _)
  unfold targetStep
  cases hk : (image.program.expr target).kind with
  | paren inner =>
    -- operands come before what they are operands of
    have hlt : inner.index < target.index :=
      ht.lt (Program.mem_operands hk List.mem_cons_self)
    rw [ht.stripParens_paren hk] at h
    exact settles_target h
  | unary op operand =>
    rw [Program.stripParens_eq_self (by simp [hk]), hk] at h
    cases op with
    | deref => exact h.of_singleton
    | neg | plus | not | bitNot | preInc | preDec | postInc | postDec | addressOf => exact h
  | subscript base index =>
    rw [Program.stripParens_eq_self (by simp [hk]), hk] at h
    obtain ⟨u, hbase, hindex⟩ := h.of_cons
    exact Settles.bind hbase hindex.of_singleton
  | intLiteral _ | declRef _ | binary _ _ _ | call _ _ | cast _ | sizeOf _ =>
    rw [Program.stripParens_eq_self (by simp [hk]), hk] at h
    exact h
termination_by target.index

/-! ## Operands -/

/-- The operands of an expression are evaluated in a row. -/
theorem evaluatesAll_of_evalOperands {fuel : Nat} {e : ExprId} {s t : State κ}
    (h : evalOperands image (evaluator image fuel) e s = .ok () t) :
    EvaluatesAll image (image.program.asked e) s t := by
  unfold evalOperands at h
  unfold Program.asked
  cases hk : (image.program.expr e).kind with
  | intLiteral _ | declRef _ | sizeOf _ =>
    rw [hk] at h
    cases h
    exact .nil s
  | paren operand | unary _ operand | cast operand =>
    rw [hk] at h
    exact .singleton (.of_evaluator h)
  | call callee args =>
    rw [hk] at h
    exact .of_forM h
  | subscript base index =>
    rw [hk] at h
    obtain ⟨_, u, hbase, hindex⟩ := exists_of_bind_eq_ok h
    exact .cons (.of_evaluator hbase) (.singleton (.of_evaluator hindex))
  | binary op lhs rhs =>
    rw [hk] at h
    dsimp only at h ⊢
    split at h
    · -- of an assignment the right side is evaluated before the target
      next hassign =>
      rw [if_pos hassign]
      obtain ⟨_, u, hr, htarget⟩ := exists_of_bind_eq_ok h
      exact .cons (.of_evaluator hr) (evaluatesAll_of_target ht htarget)
    · next hassign =>
      rw [if_neg hassign]
      obtain ⟨_, u, hl, hr⟩ := exists_of_bind_eq_ok h
      exact .cons (.of_evaluator hl) (.singleton (.of_evaluator hr))

theorem settles_evalOperands {e : ExprId} {s t : State κ}
    (h : EvaluatesAll image (image.program.asked e) s t) :
    Settles image (fun ev => evalOperands image ev e) s (.ok () t) := by
  unfold evalOperands
  unfold Program.asked at h
  cases hk : (image.program.expr e).kind with
  | intLiteral _ | declRef _ | sizeOf _ | call _ _ =>
    rw [hk] at h
    exact h
  | paren operand | unary _ operand | cast operand =>
    rw [hk] at h
    exact h.of_singleton
  | subscript base index =>
    rw [hk] at h
    obtain ⟨u, hbase, hindex⟩ := h.of_cons
    exact Settles.bind hbase hindex.of_singleton
  | binary op lhs rhs =>
    rw [hk] at h
    dsimp only at h ⊢
    split
    · next hassign =>
      rw [if_pos hassign] at h
      obtain ⟨u, hr, htarget⟩ := h.of_cons
      exact Settles.bind hr (settles_target ht htarget)
    · next hassign =>
      rw [if_neg hassign] at h
      obtain ⟨u, hl, hr⟩ := h.of_cons
      exact Settles.bind hl hr.of_singleton

/-- An expression whose evaluation has a result is done with the values of its operands. -/
theorem exists_operands_of_evaluator {fuel : Nat} {e : ExprId} {s t : State κ}
    (h : (evaluator image fuel).expr e s = .ok () t) :
    ∃ fuel u, EvaluatesAll image (image.program.asked e) (turnedTo s (.expr e)) u ∧
      conclude image (evaluator image fuel) e u = .ok () t := by
  cases fuel with
  | zero => cases h
  | succ fuel =>
    change exprStep image (evaluator image fuel) e s = _ at h
    rw [exprStep_eq, bind_apply, focusOn_apply] at h
    obtain ⟨_, u, hoperands, hconclude⟩ := exists_of_bind_eq_ok h
    exact ⟨fuel, u, evaluatesAll_of_evalOperands ht hoperands, hconclude⟩

/-- An expression is evaluated by evaluating its operands, and doing with their values what it
does. -/
theorem Evaluates.of_operands {e : ExprId} {s t : State κ} {r : EStateM.Result Halt (State κ) Unit}
    (hasked : image.program.asked e ≠ []) (h : EvaluatesAll image (image.program.asked e) s t)
    (hconclude : Settles image (fun ev => conclude image ev e) t r) : Evaluates image e s r := by
  apply Evaluates.of_step
  simp only [exprStep_eq]
  have hturned : EvaluatesAll image (image.program.asked e) (turnedTo s (.expr e)) t :=
    (EvaluatesAll.turnedTo_iff hasked).2 h
  exact (Settles.of_eq fun _ => focusOn_apply s (.expr e)).bind
    ((settles_evalOperands ht hturned).bind hconclude)

end Targets

end MiniC.Run
