import MiniC.Machine.Operation

/-!
# Calls

A call of a provided function acts at once. A call of any other function opens a frame that holds
the arguments under the names of the parameters; when the body is done the frame is removed and the
value of the call is bound in the caller's frame. The function that a run enters is opened without
arguments.
-/

set_option autoImplicit false

namespace MiniC.Run

variable {κ : Type} [Console κ] (image : Image)

/-! ## Provided functions -/

/-- Halts unless a call has the right number of arguments. -/
def checkArity (function : String) (expected got : Nat) : Run κ Unit := do
  if expected ≠ got then faultHere image (.arityMismatch function expected got)

/-- Reads an integer as the value of a call. -/
def callGet (e : ExprId) : Run κ Unit := do
  let s ← get
  let (input, console) := Console.readInt s.console
  set { s with console }
  match input with
  | some value => bindExpr e value
  | none => faultHere image .inputUnavailable

/-- Writes the value of an argument; the call has no value. -/
def callPrint (arg : ExprId) : Run κ Unit := do
  let value ← valueOf image arg
  modify fun s => { s with console := Console.writeInt value s.console }

/-- Hands out as many bytes of the heap as an argument says; the value is their address. -/
def callMalloc (e arg : ExprId) : Run κ Unit := do
  let size ← valueOf image arg
  let s ← get
  let (address, heap) ← orFault image (s.heap.allocate size)
  set { s with heap }
  bindExpr e address

/-- Gives back the block at the address that an argument says; the call has no value. -/
def callFree (arg : ExprId) : Run κ Unit := do
  let address ← valueOf image arg
  modify fun s => { s with heap := s.heap.free address }

/-- A call of a provided function. -/
def callBuiltin (e : ExprId) (b : Builtin) (args : List ExprId) : Run κ Unit := do
  checkArity image b.name b.arity args.length
  match b, args with
  | .get, _ => callGet image e
  | .print, arg :: _ => callPrint image arg
  | .malloc, arg :: _ => callMalloc image e arg
  | .free, arg :: _ => callFree image arg
  | _, [] => return ()

/-! ## Functions of the program -/

/-- Opens a frame for a function whose parameters have the given values. -/
def openFrame (function : DeclId) (body : StmtId) (bindings : List (DeclId × Int32)) :
    Run κ Unit := do
  modifyStack (·.push function)
  bindings.forM fun (d, value) => declare d value
  focusOn (.stmt body)

/-- Opens the frame of a call of a function with a body. -/
def enterBody (callee : DeclId) (params : List DeclId) (body : StmtId) (args : List ExprId) :
    Run κ Unit := do
  checkArity image (image.program.decl callee).name params.length args.length
  (params.zip args).forM fun (param, arg) =>
    checkConversion image (image.program.decl param).type arg
  let values ← args.mapM (valueOf image)
  if image.config.maxCallDepth < (← get).stack.depth then
    faultHere image (.recursionLimit image.config.maxCallDepth)
  openFrame callee body (params.zip values)

/-- Begins a call whose arguments have values; the result is what is to be executed in the new
frame, where a frame was opened. -/
def enterCall (e : ExprId) (callee : DeclId) (args : List ExprId) : Run κ (Option StmtId) := do
  match image.builtin? callee with
  | some b =>
    callBuiltin image e b args
    return none
  | none =>
    let decl := image.program.decl callee
    match decl.kind with
    | .function _ params (some body) =>
      enterBody image callee params body args
      return some body
    | _ => faultHere image (.undefinedFunction decl.name)

/-- Ends a call; its value goes to the caller's frame. -/
def leaveCall (e : ExprId) (value : Int32) : Run κ Unit := do
  modifyStack fun stack => stack.pop.2
  bindExpr e value

/-- Opens the frame of the function that a run enters, whose parameters are zero; the result is the
body to be executed. -/
def enterMain : Run κ StmtId := do
  match image.entry with
  | none => throw (.error .noEntryFunction)
  | some entry =>
    let decl := image.program.decl entry
    match decl.kind with
    | .function _ params (some body) =>
      openFrame entry body (params.map (·, 0))
      return body
    | _ => fault (.undefinedFunction decl.name) decl.loc

end MiniC.Run
