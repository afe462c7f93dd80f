import MiniC.Proofs.GlobalInitialisation
import MiniC.Proofs.MemoryChanges

/-!
# Memory under watch

An evaluator can be made to watch memory: whatever a node does itself, apart from carrying out the
nodes inside it, is only done if it changes memory in no other part than its form allows, and not at
all if it halts (`Run.watch`); otherwise the run stops as it is told. Only expressions are allowed
to change memory (`Image.changes?`); statements, declarations and the run itself are not. Every run,
from whatever state, is the same under watch (`Run.only_expressions_change_memory`).
-/

set_option autoImplicit false

namespace MiniC.Run

variable {κ α : Type} [Console κ]

/-! ## Watching -/

open Classical in
/-- Carries out a computation if it changes memory in one part only, and not at all if it halts;
otherwise stops as told. -/
noncomputable def watch (stop : Halt × State κ) (part : Option MemoryPart) (x : Run κ α) :
    Run κ α := fun s =>
  if Ensures x s (fun _ t => s.ChangedIn part t) (fun _ t => s.Kept t) then x s
    else .error stop.1 stop.2

/-- Watching a computation that changes what it may does not change it. -/
theorem watch_eq {stop : Halt × State κ} {part : Option MemoryPart} {x : Run κ α}
    (hx : ChangesIn part x) :
    watch stop part x = x :=
  funext fun s => if_pos (hx s)

section Evaluators

variable (image : Image) (stop : Halt × State κ) (ev : Evaluator κ)

/-- What an expression does when its operands have values. Of a call, the body of the function is
carried out by the evaluator. -/
noncomputable def watchedConclude (e : ExprId) : Run κ Unit :=
  match (image.program.expr e).kind with
  | .call callee args => do
    watch stop none (focusOn (.expr e))
    match ← watch stop (image.changes? e) (enterCall image e callee args) with
    | none => return ()
    | some body =>
      let flow ← onOwnStack (ev.stmt body)
      watch stop none (leaveCall e flow.value)
  | _ => watch stop (image.changes? e) (conclude image ev e)

/-- Gives an expression its value under watch. -/
noncomputable def watchedExpr (e : ExprId) : Run κ Unit := do
  watch stop none (focusOn (.expr e))
  evalOperands image ev e
  watchedConclude image stop ev e

/-- Introduces a variable under watch. -/
noncomputable def watchedDecl (d : DeclId) : Run κ Unit := do
  evaluateInitialiser image ev d
  watch stop none (initialise image d)

/-- Whether the value of a condition is true; its value is read under watch. -/
noncomputable def watchedCondition (condition : ExprId) : Run κ Bool := do
  ev.expr condition
  return (← watch stop none (valueOf image condition)) ≠ 0

/-- Whether a loop goes on; the value of its condition is read under watch. -/
noncomputable def watchedLoopCondition : Option ExprId → Run κ Bool
  | some condition => watchedCondition image stop ev condition
  | none => return true

/-- The value to return, which is read under watch. -/
noncomputable def watchedReturnValue : Option ExprId → Run κ Int32
  | none => return 0
  | some e => do
    ev.expr e
    watch stop none (readReturned image e)

/-- Executes a statement under watch. -/
noncomputable def watchedStmt (rounds : Nat) (id : StmtId) : Run κ Flow := do
  watch stop none (focusOn (.stmt id))
  match (image.program.stmt id).kind with
  | .block body => untilReturn ev.stmt body
  | .declare decls =>
    decls.forM ev.decl
    return .normal
  | .expr e =>
    ev.expr e
    return .normal
  | .ifElse condition thenBranch elseBranch =>
    if ← watchedCondition image stop ev condition then ev.stmt thenBranch
    else match elseBranch with
      | some branch => ev.stmt branch
      | none => return .normal
  | .whileLoop condition body =>
    whileHolds (watchedCondition image stop ev condition) (ev.stmt body) rounds
  | .forLoop init condition increment body =>
    if let some init := init then
      let _ ← ev.stmt init
    whileHolds (watchedLoopCondition image stop ev condition) (forRound ev body increment) rounds
  | .ret value => return .returned (← watchedReturnValue image stop ev value)
  | .empty => return .normal

/-- The evaluator that watches memory. An assignment's target does nothing itself. -/
noncomputable def watching : Nat → Evaluator κ
  | 0 => evaluator image 0
  | fuel + 1 =>
    let ev := watching fuel
    { expr := fun e => watchedExpr image stop ev e
      target := fun target => targetStep image ev target
      decl := fun d => watchedDecl image stop ev d
      stmt := fun id => watchedStmt image stop ev fuel id }

/-- Runs a program once under watch. -/
noncomputable def watchedRun (fuel : Nat) : Run κ Int32 := do
  image.program.items.toList.forM (introduce (watching image stop fuel))
  let body ← watch stop none (enterMain image)
  let flow ← (watching image stop fuel).stmt body
  watch stop none (modifyStack fun stack => stack.pop.2)
  return flow.value

/-! ## Nothing stops the watched run -/

variable {image stop ev}

/-- What an expression does itself changes what its form allows. -/
theorem watchedConclude_eq : watchedConclude image stop ev = conclude image ev := by
  funext e
  unfold watchedConclude
  split
  · next callee args hk =>
    rw [watch_eq (changesIn_enterCall image e hk), watch_eq (keepsMemory_focusOn _)]
    simp only [watch_eq (keepsMemory_leaveCall e _)]
    unfold conclude
    rw [hk]
    rfl
  · next hcall => exact watch_eq (changesIn_conclude image e ev hcall)

/-- Apart from its operands, an expression changes what its form allows. -/
theorem watchedExpr_eq : watchedExpr image stop ev = exprStep image ev := by
  funext e
  rw [exprStep_eq, watchedExpr, watchedConclude_eq, watch_eq (keepsMemory_focusOn _)]

/-- Declarations change no memory themselves. -/
theorem watchedDecl_eq : watchedDecl image stop ev = declStep image ev := by
  funext d
  rw [declStep_eq_evaluateInitialiser, watchedDecl, watch_eq (keepsMemory_initialise image d)]

theorem watchedCondition_eq : watchedCondition image stop ev = conditionHolds image ev := by
  funext condition
  rw [watchedCondition, watch_eq (keepsMemory_of_readOnly (readOnly_valueOf image condition)),
    conditionHolds]

theorem watchedLoopCondition_eq : watchedLoopCondition image stop ev = loopContinues image ev := by
  funext condition
  cases condition with
  | none => rfl
  | some condition => rw [watchedLoopCondition, watchedCondition_eq, loopContinues]

theorem watchedReturnValue_eq : watchedReturnValue image stop ev = returnValue image ev := by
  funext value
  cases value with
  | none => rfl
  | some e =>
    rw [watchedReturnValue, watch_eq (keepsMemory_of_readOnly (readOnly_readReturned image e))]
    rfl

/-- Statements change no memory themselves. -/
theorem watchedStmt_eq (rounds : Nat) :
    watchedStmt image stop ev rounds = stmtStep image ev rounds := by
  funext id
  rw [watchedStmt, watch_eq (keepsMemory_focusOn _), watchedCondition_eq, watchedLoopCondition_eq,
    watchedReturnValue_eq]
  rfl

/-- A watched evaluator is the evaluator. -/
theorem watching_eq (fuel : Nat) : watching image stop fuel = evaluator image fuel := by
  -- what a node does itself is not stopped, and the nodes inside it are watched with less fuel
  induction fuel with
  | zero => rfl
  | succ fuel ih =>
    unfold watching evaluator
    simp only [ih, watchedExpr_eq, watchedDecl_eq, watchedStmt_eq]

/-- A watched run is the run. -/
theorem watchedRun_eq (fuel : Nat) : watchedRun image stop fuel = run image fuel := by
  rw [watchedRun, watching_eq, watch_eq (keepsMemory_enterMain image),
    watch_eq (keepsMemory_modifyStack _), run, runWith_eq]

end Evaluators

/-! ## Sequences of runs -/

/-- The evaluator never takes back what a state has, whatever it carries out. -/
abbrev Grows (ev : Evaluator κ) : Prop :=
  Related (Alone fun _ x => Within State.Grown State.Grown x) ev ev

section Growth

variable {image : Image} {ev : Evaluator κ}

theorem grows_of_readOnly {x : Run κ α} (hx : ReadOnly x) : Within State.Grown State.Grown x :=
  Within.of_readOnly grownEffects hx

/-- What an expression does itself takes nothing back. -/
theorem Grows.conclude (h : Grows ev) (e : ExprId) :
    Within State.Grown State.Grown (conclude image ev e) := by
  by_cases hcall : ∃ callee args, (image.program.expr e).kind = .call callee args
  · obtain ⟨callee, args, hk⟩ := hcall
    unfold Run.conclude finishCall
    rw [hk]
    apply Within.bind grownEffects (keepsMemory_focusOn _).grows
    intro _
    apply Within.bind grownEffects (changesIn_enterCall image e hk).grows
    intro entered
    cases entered with
    | none => exact grows_of_readOnly (.pure _)
    | some body =>
      dsimp only
      rw [onOwnStack_eq]
      exact Within.bind grownEffects (h.stmt body) fun flow =>
        (keepsMemory_leaveCall e flow.value).grows
  · exact (changesIn_conclude image e ev fun callee args hk => hcall ⟨callee, args, hk⟩).grows

/-- An evaluator takes nothing back, whatever the fuel. -/
theorem grows_evaluator (image : Image) (fuel : Nat) :
    Grows (evaluator image fuel : Evaluator κ) := by
  have hfuel {α : Type} : Within State.Grown State.Grown (throw .outOfFuel : Run κ α) :=
    Within.throw grownEffects _
  induction fuel with
  | zero => exact ⟨fun _ => hfuel, fun _ => hfuel, fun _ => hfuel, fun _ => hfuel⟩
  | succ fuel ih =>
    have c := Within.composes (grownEffects (κ := κ))
    refine c.related_succ (.refl image)
      (fun _ => (keepsMemory_focusOn _).grows) ?_ ?_ ?_ ih.conclude (c.loops hfuel fuel) ih
    · exact fun e => grows_of_readOnly (readOnly_valueOf image e)
    · exact fun e => grows_of_readOnly (readOnly_readReturned image e)
    · exact fun d => (keepsMemory_initialise image d).grows

/-- A run takes nothing back, however it ends. -/
theorem grows_run (image : Image) (fuel : Nat) :
    Within State.Grown State.Grown (run image fuel : Run κ Int32) := by
  have h : Grows (evaluator image fuel : Evaluator κ) := grows_evaluator image fuel
  exact (Within.composes grownEffects).runWith rfl h (keepsMemory_enterMain image).grows
    (keepsMemory_modifyStack _).grows

/-- The second state is left behind by runs of the image, one after the other, of which the first
began in the first state. However a run ends, or is cut off, the next one goes on with the state
that it leaves. -/
def AfterRuns (image : Image) : State κ → State κ → Prop :=
  Relation.ReflTransGen fun s t => ∃ fuel, t = endState (run image fuel s)

/-- Runs one after the other take nothing back. -/
theorem AfterRuns.grown {image : Image} {s t : State κ} (h : AfterRuns image s t) : s.Grown t := by
  induction h with
  | refl => exact (State.kept_refl s).grown
  | @tail t _ _ hstep ih =>
    obtain ⟨fuel, rfl⟩ := hstep
    apply ih.trans
    have hrun := grows_run image fuel t
    unfold Ensures at hrun
    cases hresult : run image fuel t with
    | ok value u =>
      rw [hresult] at hrun
      exact hrun
    | error halt u =>
      rw [hresult] at hrun
      exact hrun

end Growth

/-- Only the right operations change memory. Every run, from whatever state, is the same under
watch: all that nodes do adds to the end of output and diagnostics, if anything, and keeps all
arrays with their shapes; and an element of an array changes only where an assignment to an element
is carried out whose base is no pointer, a byte of the heap only where one to what a pointer points
to is, or to an element whose base is a pointer, and how much of the heap is handed out only in a
call of the function provided for it. All else leaves memory as it is, and so does whatever halts.
Over any sequence of runs, output and diagnostics are only added to at the end, no array is gone or
has another shape, and the heap is never handed out less. -/
theorem only_expressions_change_memory (image : Image) :
    (∀ stop fuel, watchedRun image stop fuel = (run image fuel : Run κ Int32)) ∧
    (∀ s t : State κ, AfterRuns image s t → s.Grown t) ∧
    ∀ s t : State Scripted, AfterRuns image s t →
      s.console.output.toList <+: t.console.output.toList :=
  ⟨fun _ fuel => watchedRun_eq fuel, fun _ _ h => h.grown, fun _ _ h =>
    Scripted.output_isPrefix h.grown.later.console⟩

/-- Two runs that store to an array and to the heap and then leave the array: the second one finds
what the first one left, and adds an array, a block of the heap and its output. -/
theorem only_expressions_change_memory_of_two_runs :
    ∃ p, Program.parse
        "int *MALLOC(int n); void PRINT(int n); int a[2];
         int main() { int *p = MALLOC(8); *p = 5; a[1] = *p; PRINT(a[1]); return a[2]; }" = .ok p ∧
      let image := Image.load p {}
      let start := State.initial image (Scripted.ofInput [])
      let first := endState (run image 100 start)
      let second := endState (run image 100 first)
      (∀ stop, watchedRun image stop 100 first = run image 100 first) ∧
        AfterRuns image start second ∧
        start.Grown second ∧ second.console.output = #[5, 5] ∧ second.heap.used = 16 ∧
        first.arrays.shapes = [(2, 0)] ∧ second.arrays.shapes = [(2, 0), (2, 1)] := by
  obtain ⟨p, hp, hresult⟩ : ∃ p, Program.parse
        "int *MALLOC(int n); void PRINT(int n); int a[2];
         int main() { int *p = MALLOC(8); *p = 5; a[1] = *p; PRINT(a[1]); return a[2]; }" = .ok p ∧
      let image := Image.load p {}
      let first := endState (run image 100 (.initial image (Scripted.ofInput [])))
      let second := endState (run image 100 first)
      second.console.output = #[5, 5] ∧ second.heap.used = 16 ∧ first.arrays.shapes = [(2, 0)] ∧
        second.arrays.shapes = [(2, 0), (2, 1)] :=
    Program.exists_of_parse (by decide +kernel)
  obtain ⟨hwatch, hgrown, -⟩ := only_expressions_change_memory (κ := Scripted) (Image.load p {})
  have hruns : AfterRuns (Image.load p {}) (.initial (Image.load p {}) (Scripted.ofInput [])) _ :=
    .tail (.tail .refl ⟨100, rfl⟩) ⟨100, rfl⟩
  exact ⟨p, hp, fun stop => congrFun (hwatch stop 100) _, hruns, hgrown _ _ hruns, hresult⟩

end MiniC.Run
