import MiniC.Machine.Diagnostic
import MiniC.Memory.Fault

/-!
# Faults of a run

A `RuntimeFault` is a reason why a run cannot go on. Every reason but one is reported for a place of
the program; a program without an entry function has no such place.
-/

set_option autoImplicit false

namespace MiniC

/-- Why a run cannot go on at some place. -/
inductive RuntimeFault where
  | memory (fault : MemoryFault)
  /-- A call has the wrong number of arguments. -/
  | arityMismatch (function : String) (expected got : Nat)
  /-- An array stands where none may stand, or something else where only an array may. -/
  | arrayConversion (expected found : CType)
  /-- More calls are active than a run may have. -/
  | recursionLimit (limit : Nat)
  | unsupportedSizeOf (type : CType)
  | divisionByZero (op : MulOp)
  /-- Two pointers are added, or a pointer is subtracted from a number. -/
  | invalidPointerArithmetic (op : AddOp)
  /-- A function without a body is called. -/
  | undefinedFunction (name : String)
  /-- A variable is read before it has a value. -/
  | unboundDeclaration (name : String)
  /-- No integer can be read. -/
  | inputUnavailable
  /-- A construct without a meaning is met where such constructs are errors. -/
  | unsupported (construct : Unsupported)
  deriving DecidableEq

/-- The wording of a fault. -/
def RuntimeFault.message : RuntimeFault → String
  | memory fault => fault.message
  | arityMismatch function expected got =>
    let plural := if expected = 1 then "" else "s"
    s!"Function '{function}' expects {expected} argument{plural}, got {got}"
  | arrayConversion expected found =>
    s!"Cannot use a value of type '{found.describe}' as '{expected.describe}'"
  | recursionLimit limit => s!"Call depth limit of {limit} exceeded"
  | unsupportedSizeOf type => s!"sizeof is not supported for type '{type.describe}'"
  | divisionByZero op => s!"Division by zero in '{op.symbol}'"
  | invalidPointerArithmetic op => s!"Invalid pointer arithmetic '{op.symbol}'"
  | undefinedFunction name => s!"Call to undefined function '{name}'"
  | unboundDeclaration name => s!"'{name}' has no value in the current or global frame"
  | inputUnavailable => "No input available for GET"
  | unsupported construct => construct.message

/-- A fault at a place, or the lack of an entry function. -/
inductive RuntimeError where
  | fault (cause : RuntimeFault) (loc : Location)
  | noEntryFunction
  deriving DecidableEq

namespace RuntimeError

/-- The place that an error is reported for. -/
def loc? : RuntimeError → Option Location
  | fault _ loc => some loc
  | noEntryFunction => none

/-- The wording of an error, with the line of its place. -/
def message : RuntimeError → String
  | fault cause loc => s!"{cause.message} at line {loc.line}"
  | noEntryFunction => "No main() function found"

end RuntimeError

end MiniC
