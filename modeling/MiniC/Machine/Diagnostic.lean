import MiniC.Program.Basic

/-!
# Constructs that are not carried out

Some constructs are part of the grammar but have no meaning for the machine. A `Diagnostic` names
such a construct and its place.
-/

set_option autoImplicit false

namespace MiniC

/-- A construct without a meaning. -/
inductive Unsupported where
  | binaryOperator (op : BinaryOp)
  | unaryOperator (op : UnaryOp)
  /-- An assignment to something that is neither a variable, nor what a pointer points to, nor an
  element. -/
  | assignmentTarget
  /-- A function that is named without being called. -/
  | functionReference (name : String)
  /-- A variable of a type that has no values. -/
  | reference (name : String) (type : CType)
  deriving DecidableEq

/-- The wording for a construct without a meaning. -/
def Unsupported.message : Unsupported → String
  | binaryOperator op => s!"unsupported binary operator '{op.symbol}'"
  | unaryOperator op => s!"unsupported unary operator '{op.symbol}'"
  | assignmentTarget => "unsupported assignment target"
  | functionReference name => s!"function '{name}' used as a value"
  | reference name type => s!"unsupported reference to '{name}' of type '{type.describe}'"

/-- A construct without a meaning, and its place. -/
structure Diagnostic where
  construct : Unsupported
  loc : Location
  deriving DecidableEq

/-- The wording of a diagnostic. -/
def Diagnostic.message (d : Diagnostic) : String :=
  s!"{d.construct.message} at line {d.loc.line}, column {d.loc.column}"

end MiniC
