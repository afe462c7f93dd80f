import MiniC.Machine.Call

/-!
# Evaluation and execution

Expressions are evaluated operands first, from left to right; only an assignment evaluates its right
side before the parts that locate its target. Statements say how they finish: normally, or with a
value to return. `run` initialises the variables of the file in order and then executes the entry
function.

A program need not come to an end, so everything takes an amount of fuel that bounds the depth of
nesting and the rounds of every loop. Running out of it is a way of halting of its own; with enough
fuel the outcome does not depend on it.
-/

set_option autoImplicit false

namespace MiniC

/-- How a statement finishes. -/
inductive Flow where
  | normal
  | returned (value : Int32)
  deriving DecidableEq

/-- The value of a call whose body finished in some way. -/
def Flow.value : Flow → Int32
  | normal => 0
  | returned value => value

namespace Run

variable {κ : Type}

/-! ## Control -/

/-- Runs actions in order, up to the first that returns. -/
def untilReturn {α : Type} (action : α → Run κ Flow) : List α → Run κ Flow
  | [] => return .normal
  | a :: as => do
    match ← action a with
    | .normal => untilReturn action as
    | .returned value => return .returned value

/-- Repeats an action as long as a condition holds and the action does not return. -/
def whileHolds (condition : Run κ Bool) (action : Run κ Flow) : Nat → Run κ Flow
  | 0 => throw .outOfFuel
  | fuel + 1 => do
    if ← condition then
      match ← action with
      | .normal => whileHolds condition action fuel
      | .returned value => return .returned value
    else return .normal

/-- The number of calls that share one stack of the machine that does the work. -/
def callsPerStack : Nat := 200

/-- Runs a computation; at regular depths of calls it gets a stack of its own, so that the depth of
calls is limited by the run's configuration alone. -/
def onOwnStack {α : Type} (action : Run κ α) : Run κ α := fun s =>
  if s.stack.depth % callsPerStack = 0 then
    (Task.spawn (fun _ => action s) .dedicated).get
  else action s

theorem onOwnStack_eq {α : Type} (action : Run κ α) : onOwnStack action = action := by
  funext s
  unfold onOwnStack
  split <;> rfl

/-! ## One level of nesting -/

/-- How the nodes inside a node are carried out. -/
structure Evaluator (κ : Type) where
  /-- Gives an expression its value in the top frame. -/
  expr : ExprId → Run κ Unit
  /-- Evaluates the parts of an assignment's target that say where it lies. -/
  target : ExprId → Run κ Unit
  /-- Introduces a variable in the top frame, after evaluating its initialiser. -/
  decl : DeclId → Run κ Unit
  /-- Executes a statement. -/
  stmt : StmtId → Run κ Flow

variable [Console κ] (image : Image) (ev : Evaluator κ)

/-- Whether the value of a condition is true. -/
def conditionHolds (condition : ExprId) : Run κ Bool := do
  ev.expr condition
  return (← valueOf image condition) ≠ 0

/-- Whether a loop goes on, which it does without a condition. -/
def loopContinues : Option ExprId → Run κ Bool
  | some condition => conditionHolds image ev condition
  | none => return true

/-- One round of a `for` loop: its body and, unless that returns, its last clause. -/
def forRound (body : StmtId) (increment : Option ExprId) : Run κ Flow := do
  match ← ev.stmt body with
  | .normal =>
    if let some increment := increment then ev.expr increment
    return .normal
  | .returned value => return .returned value

/-- The value to return. A function that returns a pointer does not return an array. -/
def returnValue : Option ExprId → Run κ Int32
  | none => return 0
  | some e => do
    ev.expr e
    if let some function := (← get).stack.top.function then
      let expected := (image.program.decl function).type.result
      if expected.isPointer then checkConversion image expected e
    valueOf image e

/-- A call: its arguments, and the body of the function where it has one. -/
def call (e : ExprId) (callee : DeclId) (args : List ExprId) : Run κ Unit := do
  args.forM ev.expr
  focusOn (.expr e)
  match ← enterCall image e callee args with
  | none => return ()
  | some body =>
    let flow ← onOwnStack (ev.stmt body)
    leaveCall e flow.value

/-- Gives an expression its value, where the evaluator gives its operands theirs. -/
def exprStep (e : ExprId) : Run κ Unit := do
  focusOn (.expr e)
  match (image.program.expr e).kind with
  | .intLiteral value => bindExpr e value
  | .declRef d => reference image e d
  | .paren inner =>
    ev.expr inner
    bindExpr e (← valueOf image inner)
  | .unary op operand =>
    ev.expr operand
    focusOn (.expr e)
    unary image e op operand
  | .binary op lhs rhs =>
    if op.isAssignment then
      ev.expr rhs
      ev.target lhs
    else
      ev.expr lhs
      ev.expr rhs
    focusOn (.expr e)
    binary image e op lhs rhs
  | .call callee args => call image ev e callee args
  | .subscript base index =>
    ev.expr base
    ev.expr index
    focusOn (.expr e)
    subscript image e base index
  | .cast operand =>
    ev.expr operand
    cast image e operand
  | .sizeOf type => sizeOf image e type

/-- Evaluates the parts of an assignment's target that say where it lies, as the evaluator does. -/
def targetStep (target : ExprId) : Run κ Unit := do
  match (image.program.expr target).kind with
  | .paren inner => ev.target inner
  | .unary .deref operand => ev.expr operand
  | .subscript base index =>
    ev.expr base
    ev.expr index
  | _ => return ()

/-- Introduces a variable, where the evaluator evaluates its initialiser. -/
def declStep (d : DeclId) : Run κ Unit := do
  if let .variable _ (some init) _ := (image.program.decl d).kind then ev.expr init
  initialise image d

/-- Executes a statement, where the evaluator carries out its parts; a loop has at most the given
number of rounds. -/
def stmtStep (rounds : Nat) (id : StmtId) : Run κ Flow := do
  focusOn (.stmt id)
  match (image.program.stmt id).kind with
  | .block body => untilReturn ev.stmt body
  | .declare decls =>
    decls.forM ev.decl
    return .normal
  | .expr e =>
    ev.expr e
    return .normal
  | .ifElse condition thenBranch elseBranch =>
    if ← conditionHolds image ev condition then ev.stmt thenBranch
    else match elseBranch with
      | some branch => ev.stmt branch
      | none => return .normal
  | .whileLoop condition body =>
    whileHolds (conditionHolds image ev condition) (ev.stmt body) rounds
  | .forLoop init condition increment body =>
    if let some init := init then
      let _ ← ev.stmt init
    whileHolds (loopContinues image ev condition) (forRound ev body increment) rounds
  | .ret value => return .returned (← returnValue image ev value)
  | .empty => return .normal

/-! ## All levels -/

/-- Carries out nodes that nest at most as deeply as the fuel, in loops of at most as many
rounds. -/
def evaluator : Nat → Evaluator κ
  | 0 => ⟨fun _ => throw .outOfFuel, fun _ => throw .outOfFuel, fun _ => throw .outOfFuel,
      fun _ => throw .outOfFuel⟩
  | fuel + 1 =>
    { expr := fun e => exprStep image (evaluator fuel) e
      target := fun target => targetStep image (evaluator fuel) target
      decl := fun d => declStep image (evaluator fuel) d
      stmt := fun id => stmtStep image (evaluator fuel) fuel id }

/-! ## Runs -/

/-- Runs a program once, where the evaluator carries out its variables and the body of the entry
function; the result is the value that this function returns. -/
def runWith : Run κ Int32 := do
  image.program.items.toList.forM fun item =>
    match item with
    | .variable d => ev.decl d
    | .function _ => return ()
  let body ← enterMain image
  let flow ← ev.stmt body
  modifyStack fun stack => stack.pop.2
  return flow.value

/-- Runs a program once: introduces the variables of the file in order, then executes the entry
function. -/
def run (fuel : Nat) : Run κ Int32 := runWith image (evaluator image fuel)

/-- An amount of fuel that no run uses up in any length of time. -/
def ampleFuel : Nat := 1 <<< 60

end Run

end MiniC
