import MiniC.Machine.Arithmetic
import MiniC.Machine.State

/-!
# Operations

What each form of expression does once its operands have values: the operands' values are read from
the top frame and the result is bound there. An operation that fails has changed nothing, except
that a failed assignment may have given values to its own node and that of its target.
-/

set_option autoImplicit false

namespace MiniC.Run

variable {κ : Type} [Console κ] (image : Image)

/-! ## Values -/

/-- A name used as a value. -/
def reference (e : ExprId) (d : DeclId) : Run κ Unit := do
  let decl := image.program.decl d
  match decl.kind with
  | .variable type _ _ =>
    if type.isInteger || type.isPointer || type.isArray then bindExpr e (← valueOfDecl image d)
    else report image e (.reference decl.name type)
  | .function .. =>
    if (image.builtin? d).isSome then bindExpr e 0
    else report image e (.functionReference decl.name)

/-- A conversion, which keeps the value; one to `void` has none. -/
def cast (e operand : ExprId) : Run κ Unit := do
  unless (image.typeOf e).isVoid do bindExpr e (← valueOf image operand)

/-- The size in bytes of a number or an address. -/
def sizeOf (e : ExprId) (type : CType) : Run κ Unit := do
  if type.isPointer then bindExpr e Heap.addressSize
  else if type.isInteger then bindExpr e (.ofNat Word.size)
  else fault (.unsupportedSizeOf type) (image.program.expr e).loc

/-! ## Elements -/

/-- Where a value lies outside the frames. -/
inductive Place where
  | heap (address : Int32)
  | array (id index : Int32)

/-- The value at a place. -/
def load (place : Place) : Run κ Int32 := do
  let s ← get
  match place with
  | .heap address => orFault image (s.heap.read address)
  | .array id index => orFault image (s.arrays.get id index)

/-- Changes the value at a place. -/
def store (place : Place) (value : Int32) : Run κ Unit := do
  let s ← get
  match place with
  | .heap address =>
    let heap ← orFault image (s.heap.write address value)
    set { s with heap }
  | .array id index =>
    let arrays ← orFault image (s.arrays.set id index value)
    set { s with arrays }

/-- The place of an element: in the heap if the base is a pointer, in an array otherwise. -/
def elementPlace (base index : ExprId) : Run κ Place := do
  let start ← valueOf image base
  let i ← valueOf image index
  return if (image.typeOf base).isPointer then .heap (start + Heap.stepSize i) else .array start i

/-- The value of an element. -/
def subscript (e base index : ExprId) : Run κ Unit := do
  let place ← elementPlace image base index
  bindExpr e (← load image place)

/-! ## Operators -/

/-- A unary operator. -/
def unary (e : ExprId) (op : UnaryOp) (operand : ExprId) : Run κ Unit := do
  match op, op.function? with
  | .deref, _ =>
    let address ← valueOf image operand
    bindExpr e (← load image (.heap address))
  | _, some f =>
    let v ← valueOf image operand
    bindExpr e (f v)
  | _, none => report image e (.unaryOperator op)

/-- An arithmetic operator. -/
def arith (e : ExprId) (op : ArithOp) (lhs rhs : ExprId) : Run κ Unit := do
  let l ← valueOf image lhs
  let r ← valueOf image rhs
  match op with
  | .additive op =>
    match op.value? (image.typeOf lhs).isPointer (image.typeOf rhs).isPointer l r with
    | some v => bindExpr e v
    | none => fault (.invalidPointerArithmetic op) (image.program.expr lhs).loc
  | .multiplicative op =>
    match op.value? l r with
    | some v => bindExpr e v
    | none => fault (.divisionByZero op) (image.program.expr rhs).loc

/-- A comparison. -/
def compare (e : ExprId) (op : Comparison) (lhs rhs : ExprId) : Run κ Unit := do
  let l ← valueOf image lhs
  let r ← valueOf image rhs
  bindExpr e (truthValue (op.holds l r))

/-- Puts a value where an assignment's target lies, which is given without parentheses. -/
def assignTarget (e target : ExprId) (value : Int32) : Run κ Unit := do
  match (image.program.expr target).kind with
  | .declRef d =>
    match (image.program.decl d).kind with
    | .variable type _ _ =>
      if type.isArray then report image e .assignmentTarget else assignDecl d value
    | .function .. => report image e .assignmentTarget
  | .unary .deref operand =>
    let address ← valueOf image operand
    store image (.heap address) value
  | .subscript base index =>
    let place ← elementPlace image base index
    store image place value
  | _ => report image e .assignmentTarget

/-- An assignment. Its target's node gets the value too. -/
def assign (e lhs rhs : ExprId) : Run κ Unit := do
  let type := image.typeOf lhs
  if type.isPointer then checkConversion image type rhs
  let value ← valueOf image rhs
  bindExpr lhs value
  bindExpr e value
  assignTarget image e (image.program.stripParens lhs) value

/-- A binary operator. -/
def binary (e : ExprId) (op : BinaryOp) (lhs rhs : ExprId) : Run κ Unit :=
  match op with
  | .assign => assign image e lhs rhs
  | .arith op => arith image e op lhs rhs
  | .comparison op => compare image e op lhs rhs
  | .logical _ | .bitwise _ | .compoundAssign _ => report image e (.binaryOperator op)

/-! ## Declarations -/

/-- Gives a variable its first value in the top frame: a new array if it is one, the value of its
initialiser if it has one, zero otherwise. -/
def initialise (d : DeclId) : Run κ Unit := do
  match (image.program.decl d).kind with
  | .function .. => return ()
  | .variable type init _ =>
    match type.length?, init with
    | some length, _ =>
      let s ← get
      let (id, arrays) := s.arrays.create length s.stack.calls.length
      set { s with arrays }
      declare d id
    | none, some init =>
      checkConversion image type init
      declare d (← valueOf image init)
    | none, none => declare d 0

end MiniC.Run
