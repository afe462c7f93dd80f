import MiniC.Command.Basic

/-!
# The program

Reads the source file and, if the program looks at it, the standard input; then writes the answer of
the command.
-/

set_option autoImplicit false

namespace MiniC

/-- Why reading a file failed. -/
def ReadFailure.ofError : IO.Error → ReadFailure
  | .noFileOrDirectory .. => .notFound
  | .permissionDenied .. => .permissionDenied
  | .inappropriateType _ code _ => if code = 21 then .isDirectory else .notDirectory
  | e => .other (toString e)

/-- Reads a file. -/
def readSource (file : String) : IO (Except ReadFailure ByteArray) := do
  try
    return .ok (← IO.FS.readBinFile file)
  catch e => return .error (.ofError e)

/-- Reads the standard input to its end. -/
def readInput : IO ByteArray := do
  (← IO.getStdin).readBinToEnd

/-- Writes an answer; the result is its exit code. -/
def Answer.deliver (answer : Answer) : IO UInt32 := do
  IO.print answer.output
  IO.eprint answer.messages
  return answer.exitCode.toUInt32

/-- Carries out what arguments ask for. -/
def Request.carryOut : Request → IO UInt32
  | .run file config => do
    match Answer.load file config (← readSource file) with
    | .ok image =>
      let input ← if image.readsInput then readInput else pure .empty
      (Answer.ofImage image input).deliver
    | .error answer => answer.deliver
  | request => (Answer.ofRequest request (fun _ => .error .notFound) .empty).deliver

end MiniC

/-- The command with its arguments. -/
def main (args : List String) : IO UInt32 :=
  (MiniC.Request.ofArgs args).carryOut
