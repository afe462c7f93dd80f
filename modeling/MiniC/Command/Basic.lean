import MiniC.Command.Options
import MiniC.Console.Terminal
import MiniC.Grammar.TranslationUnit
import MiniC.Machine.Interpreter

/-!
# The command

The command reads a source file, runs it with the standard input as its console, and answers with an
exit code, what it writes to the standard output, and what it writes to the standard error. The
value that the entry function returns is not the exit code: a run that comes to its end is a
success.
-/

set_option autoImplicit false

namespace MiniC

/-! ## Running a text -/

/-- Why a text cannot be run to its end. -/
inductive SourceError where
  | parse (e : ParseError)
  | runtime (e : RuntimeError)

/-- The wording of an error. -/
def SourceError.message : SourceError → String
  | parse e => e.message
  | runtime e => e.message

/-- How a run ended: with a value, with an error, or not within its fuel. -/
inductive Outcome where
  | returned (value : Int32)
  | failed (e : RuntimeError)
  | outOfFuel
  deriving DecidableEq

/-- Runs a program once from a state; the second component is the state afterwards. -/
def Image.runFrom {κ : Type} [Console κ] (image : Image) (fuel : Nat) (s : State κ) :
    Outcome × State κ :=
  match Run.run image fuel s with
  | .ok value s => (.returned value, s)
  | .error (.error e) s => (.failed e, s)
  | .error .outOfFuel s => (.outOfFuel, s)

/-- Runs a text once with a console; the console is handed back if the run comes to its end. Too
little fuel answers nothing. -/
def runSource {κ : Type} [Console κ] (source : String) (config : Config)
    (console : κ) (fuel : Nat) :
    Option (Except SourceError (Int32 × κ)) :=
  match Program.parse source with
  | .error e => some (.error (.parse e))
  | .ok program =>
    let image := Image.load program config
    match image.runFrom fuel (.initial image console) with
    | (.returned value, s) => some (.ok (value, s.console))
    | (.failed e, _) => some (.error (.runtime e))
    | (.outOfFuel, _) => none

/-! ## The answer of the command -/

/-- Why a file cannot be read. -/
inductive ReadFailure where
  | notFound | permissionDenied | notDirectory | isDirectory | notText
  | other (reason : String)
  deriving DecidableEq

/-- The wording for a file that cannot be read. -/
def ReadFailure.message : ReadFailure → String
  | notFound => "No such file or directory (os error 2)"
  | permissionDenied => "Permission denied (os error 13)"
  | notDirectory => "Not a directory (os error 20)"
  | isDirectory => "Is a directory (os error 21)"
  | notText => "stream did not contain valid UTF-8"
  | other reason => reason

/-- An exit code and the texts for the standard output and the standard error. -/
structure Answer where
  exitCode : UInt8
  output : String
  messages : String
  deriving DecidableEq

namespace Answer

/-- The answer to a demand for the version. -/
def version : Answer := ⟨0, "cwalk 0.1.0\n", ""⟩

/-- One line on how to use the command. -/
def usage : String := "Usage: cwalk [OPTIONS] <FILE>\n"

/-- The answer to a demand for help. -/
def help : Answer where
  exitCode := 0
  output := "Tree-walking interpreter for a minimal C subset\n\n" ++ usage ++
    "\nArguments:\n" ++
    "  <FILE>  C source file to run\n" ++
    "\nOptions:\n" ++
    "      --heap-size <BYTES>   Capacity of the simulated heap in bytes [default: 4096]\n" ++
    "      --max-call-depth <N>  Maximum nesting of user function calls [default: 10000]\n" ++
    "      --strict              Abort on unsupported constructs instead of reporting them\n" ++
    "  -v, --verbose...          Ask for more messages\n" ++
    "  -h, --help                Print help\n" ++
    "  -V, --version             Print version\n"
  messages := ""

/-- The answer to arguments that are refused. -/
def refusal (fault : UsageFault) : Answer :=
  ⟨2, "", s!"error: {fault.message}\n\n" ++ usage ++ "\nFor more information, try '--help'.\n"⟩

/-- The answer to a file that cannot be read. -/
def unreadable (file : String) (failure : ReadFailure) : Answer :=
  ⟨1, "", s!"Error: cannot read '{file}': {failure.message}\n"⟩

/-- The answer to a run that ended. -/
def ofRun (outcome : Outcome) (terminal : Terminal) : Answer :=
  match outcome with
  | .returned value =>
    let terminal :=
      if value = 0 then terminal
      else terminal.warn s!"main exited with a non-zero code return_value={value}"
    ⟨0, terminal.written, terminal.messages⟩
  | .failed e => ⟨1, terminal.written, terminal.messages ++ s!"Runtime error: {e.message}\n"⟩
  | .outOfFuel => ⟨1, terminal.written, terminal.messages⟩

/-- The answer of running an image with some bytes as the standard input. -/
def ofImage (image : Image) (input : ByteArray) : Answer :=
  let (outcome, s) := image.runFrom Run.ampleFuel (.initial image (Terminal.ofBytes input))
  ofRun outcome s.console

/-- The image of a file, given its contents or why it cannot be read; without an image, the
answer. -/
def load (file : String) (config : Config) (contents : Except ReadFailure ByteArray) :
    Except Answer Image := do
  let bytes ← contents.mapError (unreadable file)
  match String.fromUTF8? bytes with
  | none => throw (unreadable file .notText)
  | some source =>
    match Program.parse source with
    | .error e => throw ⟨1, "", s!"Error: {e.message}\n"⟩
    | .ok program => pure (Image.load program config)

/-- The answer to a request, given what reading a file yields. -/
def ofRequest (request : Request) (read : String → Except ReadFailure ByteArray)
    (input : ByteArray) : Answer :=
  match request with
  | .version => version
  | .help => help
  | .refuse fault => refusal fault
  | .run file config =>
    match load file config (read file) with
    | .ok image => ofImage image input
    | .error answer => answer

end Answer

end MiniC
