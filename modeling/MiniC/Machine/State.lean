import MiniC.Console.Basic
import MiniC.Machine.Image
import MiniC.Machine.RuntimeError
import MiniC.Memory.ArrayStore
import MiniC.Memory.CallStack
import MiniC.Memory.Heap

/-!
# The state of a run

A run changes a call stack, a heap, an array store and a console, and collects diagnostics. A `Run`
is a computation on that state; when it halts early, the state stays as it was at that moment.

A variable is read from the top frame, or from that of the file if the top frame does not have it,
and written where it would be read. The values of expressions are kept in the top frame.
-/

set_option autoImplicit false

namespace MiniC

/-- Everything that a run changes. -/
structure State (κ : Type) where
  stack : CallStack
  heap : Heap
  arrays : ArrayStore
  console : κ
  diagnostics : Array Diagnostic

/-- The state before the first run of an image. -/
def State.initial {κ : Type} (image : Image) (console : κ) : State κ where
  stack := .empty
  heap := .empty image.config.heapCapacity
  arrays := .empty
  console
  diagnostics := #[]

/-- Why a computation ends without a result. -/
inductive Halt where
  | error (e : RuntimeError)
  /-- The computation was given too little fuel. -/
  | outOfFuel
  deriving DecidableEq

/-- A computation on the state of a run. -/
abbrev Run (κ : Type) := EStateM Halt (State κ)

/-- The static type of an expression. -/
def Image.typeOf (image : Image) (e : ExprId) : CType := (image.program.expr e).type

/-- The place of the node that the top frame works on. -/
def Image.locationIn (image : Image) (stack : CallStack) : Location :=
  match stack.top.focus with
  | some (.stmt id) => (image.program.stmt id).loc
  | some (.expr id) => (image.program.expr id).loc
  | none => .nowhere

namespace Run

variable {κ : Type}

/-! ## Halting -/

/-- Halts for a reason that is reported for a place. -/
def fault {α : Type} (cause : RuntimeFault) (loc : Location) : Run κ α :=
  throw (.error (.fault cause loc))

/-- The place of the node that the top frame works on. -/
def location (image : Image) : Run κ Location := do
  return image.locationIn (← get).stack

/-- Halts for a reason that is reported for the node that the top frame works on. -/
def faultHere {α : Type} (image : Image) (cause : RuntimeFault) : Run κ α := do
  fault cause (← location image)

/-- The answer of memory; its faults are reported for the node that the top frame works on. -/
def orFault {α : Type} (image : Image) : Except MemoryFault α → Run κ α
  | .ok a => return a
  | .error f => faultHere image (.memory f)

/-! ## Frames -/

/-- Changes the call stack. -/
def modifyStack (f : CallStack → CallStack) : Run κ Unit :=
  modify fun s => { s with stack := f s.stack }

/-- Turns the top frame to a node. -/
def focusOn (focus : Focus) : Run κ Unit :=
  modifyStack fun stack => stack.modifyTop (·.focusOn focus)

/-- Gives an expression a value. -/
def bindExpr (e : ExprId) (value : Int32) : Run κ Unit :=
  modifyStack fun stack => stack.modifyTop (·.bindExpr e value)

/-- The value of an expression. -/
def valueOf (image : Image) (e : ExprId) : Run κ Int32 := do
  orFault image ((← get).stack.top.expr e)

/-- Gives a variable a value in the top frame. -/
def declare (d : DeclId) (value : Int32) : Run κ Unit :=
  modifyStack fun stack => stack.modifyTop (·.bindDecl d value)

/-- Changes the value of a variable where it would be read. -/
def assignDecl (d : DeclId) (value : Int32) : Run κ Unit :=
  modifyStack fun stack =>
    if (stack.top.decl? d).isSome then stack.modifyTop (·.bindDecl d value)
    else stack.modifyGlobal (·.bindDecl d value)

/-- The value of a variable. -/
def valueOfDecl (image : Image) (d : DeclId) : Run κ Int32 := do
  let stack := (← get).stack
  match (stack.top.decl? d).or (stack.global.decl? d) with
  | some value => return value
  | none => faultHere image (.unboundDeclaration (image.program.decl d).name)

/-! ## Diagnostics -/

/-- Meets a construct without a meaning: an error if the run is strict; otherwise the expression is
zero and a diagnostic is kept. -/
def report [Console κ] (image : Image) (e : ExprId) (construct : Unsupported) : Run κ Unit := do
  let loc := (image.program.expr e).loc
  if image.config.strict then fault (.unsupported construct) loc
  else
    modify fun s =>
      { s with
        diagnostics := s.diagnostics.push ⟨construct, loc⟩
        console := Console.notify ⟨construct, loc⟩ s.console }
    bindExpr e 0

/-! ## Conversions -/

/-- Whether a value of one type must not go where another is expected: an array where a pointer is
expected, or anything but an array where an array is. -/
def isForbiddenConversion (expected found : CType) : Bool :=
  (expected.isPointer && found.isArray) || (expected.isArray && !found.isArray)

/-- Halts if the value of an expression must not go where a type is expected. -/
def checkConversion (image : Image) (expected : CType) (source : ExprId) : Run κ Unit := do
  let found := image.program.expr source
  if isForbiddenConversion expected found.type then
    fault (.arrayConversion expected found.type) found.loc

end Run

end MiniC
