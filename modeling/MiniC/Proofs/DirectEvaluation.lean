import MiniC.Machine.Interpreter

/-!
# Evaluation without a table of values

The interpreter keeps the values of expressions in the frames and reads operands from there. The
direct evaluator defined here does what a reader expects of expressions instead: evaluating one
answers with its value, operands are handed over, and nothing but variables is remembered of a call.
A call of a function that gives nothing back and a conversion to `void` answer without a value;
asking for it is a fault. Returning ends the call of the function whose body is executed and nothing
else (`Flow`). Faults carry no place here, since no frame knows what it works on.
-/

set_option autoImplicit false

namespace MiniC.Direct

open Run (Place)

/-! ## States -/

/-- One call, or the file where `function` is missing, with the values of its variables. -/
structure Activation where
  function : Option DeclId
  decls : Std.TreeMap Nat Int32

/-- Everything that a run changes. -/
structure State (κ : Type) where
  calls : List Activation
  global : Activation
  heap : Heap
  arrays : ArrayStore
  console : κ
  diagnostics : Array Diagnostic

/-- Why a computation ends without a result. -/
inductive Halt where
  | fault (cause : RuntimeFault)
  | noEntryFunction
  | outOfFuel
  deriving DecidableEq

/-- A computation of the direct evaluator. -/
abbrev Exec (κ : Type) := EStateM Halt (State κ)

namespace Activation

/-- The value of a variable. -/
def decl? (activation : Activation) (d : DeclId) : Option Int32 := activation.decls[d.index]?

/-- Gives a variable a value. -/
def bindDecl (activation : Activation) (d : DeclId) (value : Int32) : Activation :=
  { activation with decls := activation.decls.insert d.index value }

end Activation

namespace State

variable {κ : Type}

/-- The state before the first run of an image. -/
def initial (image : Image) (console : κ) : State κ where
  calls := []
  global := ⟨none, ∅⟩
  heap := .empty image.config.heapCapacity
  arrays := .empty
  console
  diagnostics := #[]

/-- The latest call; without calls, the file. -/
def top (s : State κ) : Activation := s.calls.head?.getD s.global

/-- Changes the latest call; without calls, the file. -/
def modifyTop (s : State κ) (f : Activation → Activation) : State κ :=
  match s.calls with
  | activation :: callers => { s with calls := f activation :: callers }
  | [] => { s with global := f s.global }

end State

variable {κ : Type}

/-! ## Parts of computations -/

/-- Halts for a reason. -/
def fault {α : Type} (cause : RuntimeFault) : Exec κ α := throw (.fault cause)

/-- The answer of memory. -/
def orFault {α : Type} : Except MemoryFault α → Exec κ α
  | .ok a => return a
  | .error f => fault (.memory f)

/-- The value that evaluating an expression answered with. -/
def valueOf (e : ExprId) : Option Int32 → Exec κ Int32
  | some value => return value
  | none => fault (.memory (.unboundExpression e))

/-- Gives a variable a value in the latest call. -/
def declare (d : DeclId) (value : Int32) : Exec κ Unit := modify (·.modifyTop (·.bindDecl d value))

/-- Changes the value of a variable where it would be read. -/
def assignDecl (d : DeclId) (value : Int32) : Exec κ Unit :=
  modify fun s =>
    if (s.top.decl? d).isSome then s.modifyTop (·.bindDecl d value)
    else { s with global := s.global.bindDecl d value }

/-- The value of a variable. -/
def valueOfDecl (image : Image) (d : DeclId) : Exec κ Int32 := do
  let s ← get
  match (s.top.decl? d).or (s.global.decl? d) with
  | some value => return value
  | none => fault (.unboundDeclaration (image.program.decl d).name)

/-- Halts if the value of an expression must not go where a type is expected. -/
def checkConversion (image : Image) (expected : CType) (source : ExprId) : Exec κ Unit := do
  let found := (image.program.expr source).type
  if Run.isForbiddenConversion expected found then fault (.arrayConversion expected found)

/-- Halts unless a call has the right number of arguments. -/
def checkArity (function : String) (expected got : Nat) : Exec κ Unit := do
  if expected ≠ got then fault (.arityMismatch function expected got)

/-- The value at a place. -/
def load (place : Place) : Exec κ Int32 := do
  let s ← get
  match place with
  | .heap address => orFault (s.heap.read address)
  | .array id index => orFault (s.arrays.get id index)

/-- Changes the value at a place. -/
def store (place : Place) (value : Int32) : Exec κ Unit := do
  let s ← get
  match place with
  | .heap address =>
    let heap ← orFault (s.heap.write address value)
    set { s with heap }
  | .array id index =>
    let arrays ← orFault (s.arrays.set id index value)
    set { s with arrays }

/-- The place of an element, given what base and index answered. -/
def elementPlace (image : Image) (base index : ExprId) (b i : Option Int32) : Exec κ Place := do
  let start ← valueOf base b
  let i ← valueOf index i
  return if (image.typeOf base).isPointer then .heap (start + Heap.stepSize i) else .array start i

/-- Runs actions in order, up to the first that returns. -/
def untilReturn {α : Type} (action : α → Exec κ Flow) : List α → Exec κ Flow
  | [] => return .normal
  | a :: as => do
    match ← action a with
    | .normal => untilReturn action as
    | .returned value => return .returned value

/-- Repeats an action as long as a condition holds and the action does not return. -/
def whileHolds (condition : Exec κ Bool) (action : Exec κ Flow) : Nat → Exec κ Flow
  | 0 => throw .outOfFuel
  | fuel + 1 => do
    if ← condition then
      match ← action with
      | .normal => whileHolds condition action fuel
      | .returned value => return .returned value
    else return .normal

variable [Console κ] (image : Image)

/-! ## Operations on values -/

/-- Meets a construct without a meaning: an error if the run is strict, zero and a diagnostic
otherwise. -/
def report (e : ExprId) (construct : Unsupported) : Exec κ Int32 := do
  let loc := (image.program.expr e).loc
  if image.config.strict then fault (.unsupported construct)
  else
    modify fun s =>
      { s with
        diagnostics := s.diagnostics.push ⟨construct, loc⟩
        console := Console.notify ⟨construct, loc⟩ s.console }
    return 0

/-- A name used as a value. -/
def reference (e : ExprId) (d : DeclId) : Exec κ Int32 := do
  let decl := image.program.decl d
  match decl.kind with
  | .variable type _ _ =>
    if type.isInteger || type.isPointer || type.isArray then valueOfDecl image d
    else report image e (.reference decl.name type)
  | .function .. =>
    if (image.builtin? d).isSome then return 0 else report image e (.functionReference decl.name)

/-- The size in bytes of a number or an address. -/
def sizeOf (type : CType) : Exec κ Int32 := do
  if type.isPointer then return Heap.addressSize
  else if type.isInteger then return .ofNat Word.size
  else fault (.unsupportedSizeOf type)

/-- A unary operator, given what its operand answered. -/
def unary (e : ExprId) (op : UnaryOp) (operand : ExprId) (v : Option Int32) : Exec κ Int32 := do
  match op, op.function? with
  | .deref, _ => load (.heap (← valueOf operand v))
  | _, some f => return f (← valueOf operand v)
  | _, none => report image e (.unaryOperator op)

/-- An arithmetic operator, given what its operands answered. -/
def arith (op : ArithOp) (lhs rhs : ExprId) (l r : Option Int32) : Exec κ Int32 := do
  let l ← valueOf lhs l
  let r ← valueOf rhs r
  match op with
  | .additive op =>
    match op.value? (image.typeOf lhs).isPointer (image.typeOf rhs).isPointer l r with
    | some v => return v
    | none => fault (.invalidPointerArithmetic op)
  | .multiplicative op =>
    match op.value? l r with
    | some v => return v
    | none => fault (.divisionByZero op)

/-- A binary operator that is no assignment, given what its operands answered. -/
def binary (e : ExprId) (op : BinaryOp) (lhs rhs : ExprId) (l r : Option Int32) : Exec κ Int32 := do
  match op with
  | .arith op => arith image op lhs rhs l r
  | .comparison op => return truthValue (op.holds (← valueOf lhs l) (← valueOf rhs r))
  | .logical _ | .bitwise _ | .assign | .compoundAssign _ => report image e (.binaryOperator op)

/-! ## Assignments -/

/-- Where an assignment stores, with what the parts of its target answered. -/
inductive Target where
  | name (d : DeclId)
  | pointee (operand : ExprId) (v : Option Int32)
  | element (base index : ExprId) (b i : Option Int32)
  | unsupported

/-- Puts a value where an assignment's target lies; the result is the value of the assignment. -/
def assignTarget (e : ExprId) (value : Int32) : Target → Exec κ Int32
  | .name d =>
    match (image.program.decl d).kind with
    | .variable type _ _ =>
      if type.isArray then report image e .assignmentTarget
      else do
        assignDecl d value
        return value
    | .function .. => report image e .assignmentTarget
  | .pointee operand v => do
    store (.heap (← valueOf operand v)) value
    return value
  | .element base index b i => do
    store (← elementPlace image base index b i) value
    return value
  | .unsupported => report image e .assignmentTarget

/-- An assignment, given what its right side answered; an abbreviated one is not supported. -/
def assign (e : ExprId) (op : BinaryOp) (lhs rhs : ExprId) (r : Option Int32) (target : Target) :
    Exec κ Int32 := do
  match op with
  | .assign =>
    let type := image.typeOf lhs
    if type.isPointer then checkConversion image type rhs
    assignTarget image e (← valueOf rhs r) target
  | _ => report image e (.binaryOperator op)

/-! ## Calls and variables -/

/-- Reads an integer. -/
def callGet : Exec κ (Option Int32) := do
  let s ← get
  let (input, console) := Console.readInt s.console
  set { s with console }
  match input with
  | some value => return some value
  | none => fault .inputUnavailable

/-- A call of a provided function, given what its arguments answered. -/
def callBuiltin (b : Builtin) (args : List ExprId) (values : List (Option Int32)) :
    Exec κ (Option Int32) := do
  checkArity b.name b.arity args.length
  match b, args, values with
  | .get, _, _ => callGet
  | .print, arg :: _, v :: _ =>
    let value ← valueOf arg v
    modify fun s => { s with console := Console.writeInt value s.console }
    return none
  | .malloc, arg :: _, v :: _ =>
    let size ← valueOf arg v
    let s ← get
    let (address, heap) ← orFault (s.heap.allocate size)
    set { s with heap }
    return some address
  | .free, arg :: _, v :: _ =>
    let address ← valueOf arg v
    modify fun s => { s with heap := s.heap.free address }
    return none
  | _, _, _ => return none

/-- Begins a call of a function whose parameters have the given values. -/
def openCall (function : DeclId) (bindings : List (DeclId × Int32)) : Exec κ Unit := do
  modify fun s => { s with calls := ⟨some function, ∅⟩ :: s.calls }
  bindings.forM fun (d, value) => declare d value

/-- Ends the latest call. -/
def closeCall : Exec κ Unit := modify fun s => { s with calls := s.calls.tail }

/-- Begins a call of a function with a body, given what its arguments answered. -/
def enterBody (callee : DeclId) (params : List DeclId) (args : List ExprId)
    (values : List (Option Int32)) : Exec κ Unit := do
  checkArity (image.program.decl callee).name params.length args.length
  (params.zip args).forM fun (param, arg) =>
    checkConversion image (image.program.decl param).type arg
  let values ← (args.zip values).mapM fun (arg, v) => valueOf arg v
  if image.config.maxCallDepth < (← get).calls.length + 1 then
    fault (.recursionLimit image.config.maxCallDepth)
  openCall callee (params.zip values)

/-- Gives a variable its first value: a new array if it is one, what its initialiser answered if it
has one, zero otherwise. -/
def initialise (d : DeclId) (v : Option Int32) : Exec κ Unit := do
  match (image.program.decl d).kind with
  | .function .. => return ()
  | .variable type init _ =>
    match type.length?, init with
    | some length, _ =>
      let s ← get
      let (id, arrays) := s.arrays.create length s.calls.length
      set { s with arrays }
      declare d id
    | none, some init =>
      checkConversion image type init
      declare d (← valueOf init v)
    | none, none => declare d 0

/-! ## One level of nesting -/

/-- How the nodes inside a node are evaluated and executed. -/
structure Evaluator (κ : Type) where
  /-- The value of an expression, where it has one. -/
  expr : ExprId → Exec κ (Option Int32)
  /-- Where an assignment with the given target stores. -/
  target : ExprId → Exec κ Target
  /-- Introduces a variable. -/
  decl : DeclId → Exec κ Unit
  /-- Executes a statement. -/
  stmt : StmtId → Exec κ Flow

variable (ev : Evaluator κ)

/-- A call, given what its arguments answered. -/
def callWith (callee : DeclId) (args : List ExprId) (values : List (Option Int32)) :
    Exec κ (Option Int32) := do
  match image.builtin? callee with
  | some b => callBuiltin b args values
  | none =>
    let decl := image.program.decl callee
    match decl.kind with
    | .function _ params (some body) =>
      enterBody image callee params args values
      let flow ← ev.stmt body
      closeCall
      return some flow.value
    | _ => fault (.undefinedFunction decl.name)

/-- A call: its arguments, and the body of the function where it has one. -/
def call (callee : DeclId) (args : List ExprId) : Exec κ (Option Int32) := do
  let values ← args.mapM ev.expr
  callWith image ev callee args values

/-- The value of an expression. -/
def exprStep (e : ExprId) : Exec κ (Option Int32) := do
  match (image.program.expr e).kind with
  | .intLiteral value => return some value
  | .declRef d => return some (← reference image e d)
  | .paren inner => return some (← valueOf inner (← ev.expr inner))
  | .unary op operand =>
    let v ← ev.expr operand
    return some (← unary image e op operand v)
  | .binary op lhs rhs =>
    if op.isAssignment then
      let r ← ev.expr rhs
      let target ← ev.target lhs
      return some (← assign image e op lhs rhs r target)
    else
      let l ← ev.expr lhs
      let r ← ev.expr rhs
      return some (← binary image e op lhs rhs l r)
  | .call callee args => call image ev callee args
  | .subscript base index =>
    let b ← ev.expr base
    let i ← ev.expr index
    return some (← load (← elementPlace image base index b i))
  | .cast operand =>
    let v ← ev.expr operand
    if (image.typeOf e).isVoid then return none else return some (← valueOf operand v)
  | .sizeOf type => return some (← sizeOf type)

/-- Where an assignment stores. -/
def targetStep (target : ExprId) : Exec κ Target := do
  match (image.program.expr target).kind with
  | .paren inner => ev.target inner
  | .declRef d => return .name d
  | .unary .deref operand => return .pointee operand (← ev.expr operand)
  | .subscript base index =>
    let b ← ev.expr base
    let i ← ev.expr index
    return .element base index b i
  | _ => return .unsupported

/-- Introduces a variable, where its initialiser is evaluated. -/
def declStep (d : DeclId) : Exec κ Unit := do
  match (image.program.decl d).kind with
  | .variable _ (some init) _ => initialise image d (← ev.expr init)
  | _ => initialise image d none

/-- Whether the value of a condition is true. -/
def conditionHolds (condition : ExprId) : Exec κ Bool := do
  let v ← ev.expr condition
  return (← valueOf condition v) ≠ 0

/-- Whether a loop goes on, which it does without a condition. -/
def loopContinues : Option ExprId → Exec κ Bool
  | some condition => conditionHolds ev condition
  | none => return true

/-- One round of a `for` loop: its body and, unless that returns, its last clause. -/
def forRound (body : StmtId) (increment : Option ExprId) : Exec κ Flow := do
  match ← ev.stmt body with
  | .normal =>
    if let some increment := increment then
      let _ ← ev.expr increment
    return .normal
  | .returned value => return .returned value

/-- The value to return. A function that returns a pointer does not return an array. -/
def returnValue : Option ExprId → Exec κ Int32
  | none => return 0
  | some e => do
    let v ← ev.expr e
    if let some function := (← get).top.function then
      let expected := (image.program.decl function).type.result
      if expected.isPointer then checkConversion image expected e
    valueOf e v

/-- Executes a statement; a loop has at most the given number of rounds. -/
def stmtStep (rounds : Nat) (id : StmtId) : Exec κ Flow := do
  match (image.program.stmt id).kind with
  | .block body => untilReturn ev.stmt body
  | .declare decls =>
    decls.forM ev.decl
    return .normal
  | .expr e =>
    let _ ← ev.expr e
    return .normal
  | .ifElse condition thenBranch elseBranch =>
    if ← conditionHolds ev condition then ev.stmt thenBranch
    else match elseBranch with
      | some branch => ev.stmt branch
      | none => return .normal
  | .whileLoop condition body => whileHolds (conditionHolds ev condition) (ev.stmt body) rounds
  | .forLoop init condition increment body =>
    if let some init := init then
      let _ ← ev.stmt init
    whileHolds (loopContinues ev condition) (forRound ev body increment) rounds
  | .ret value => return .returned (← returnValue image ev value)
  | .empty => return .normal

/-! ## All levels -/

/-- Evaluates and executes nodes that nest at most as deeply as the fuel. -/
def evaluator : Nat → Evaluator κ
  | 0 => ⟨fun _ => throw .outOfFuel, fun _ => throw .outOfFuel, fun _ => throw .outOfFuel,
      fun _ => throw .outOfFuel⟩
  | fuel + 1 =>
    { expr := fun e => exprStep image (evaluator fuel) e
      target := fun target => targetStep image (evaluator fuel) target
      decl := fun d => declStep image (evaluator fuel) d
      stmt := fun id => stmtStep image (evaluator fuel) fuel id }

/-- Begins the call of the function that a run enters, whose parameters are zero; the result is its
body. -/
def enterMain : Exec κ StmtId := do
  match image.entry with
  | none => throw .noEntryFunction
  | some entry =>
    let decl := image.program.decl entry
    match decl.kind with
    | .function _ params (some body) =>
      openCall entry (params.map (·, 0))
      return body
    | _ => fault (.undefinedFunction decl.name)

/-- Runs a program once: introduces the variables of the file in order, then executes the entry
function. -/
def run (fuel : Nat) : Exec κ Int32 := do
  let ev := evaluator image fuel
  image.program.items.toList.forM fun item =>
    match item with
    | .variable d => ev.decl d
    | .function _ => return ()
  let body ← enterMain image
  let flow ← ev.stmt body
  closeCall
  return flow.value

end MiniC.Direct
