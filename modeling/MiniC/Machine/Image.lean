import MiniC.Program.Basic

/-!
# Programs ready to run

An image is a program together with what stays fixed while it runs: the limits of the run, the
functions that the machine provides itself, and the function that the run enters.
-/

set_option autoImplicit false

namespace MiniC

/-- The limits of a run, and whether constructs without a meaning are errors. -/
structure Config where
  heapCapacity : Nat := 4096
  maxCallDepth : Nat := 10000
  strict : Bool := false

/-- The functions that the machine provides. -/
inductive Builtin where
  /-- Reads an integer. -/
  | get
  /-- Writes an integer. -/
  | print
  /-- Hands out a block of the heap. -/
  | malloc
  /-- Gives a block of the heap back. -/
  | free
  deriving DecidableEq

namespace Builtin

/-- Every provided function, each once. -/
def all : List Builtin := [.get, .print, .malloc, .free]

/-- The name under which a program declares a provided function. -/
def name : Builtin → String
  | get => "GET"
  | print => "PRINT"
  | malloc => "MALLOC"
  | free => "FREE"

/-- The number of arguments of a provided function. -/
def arity : Builtin → Nat
  | get => 0
  | print | malloc | free => 1

end Builtin

/-- The name of the function that a run enters. -/
def entryName : String := "main"

/-- The first function of a file with a name. -/
def Program.functionNamed? (p : Program) (name : String) : Option DeclId :=
  p.items.toList.findSome? fun item =>
    match item with
    | .function d => if (p.decl d).name = name then some d else none
    | .variable _ => none

/-- A program with the limits of its runs and the functions that have a special part in them. -/
structure Image where
  program : Program
  config : Config
  builtins : List (DeclId × Builtin)
  entry : Option DeclId

namespace Image

/-- The image of a program: functions get their parts by their names. -/
def load (program : Program) (config : Config) : Image where
  program
  config
  builtins := Builtin.all.filterMap fun b => (program.functionNamed? b.name).map (·, b)
  entry := program.functionNamed? entryName

/-- The provided function that a declaration stands for. -/
def builtin? (image : Image) (d : DeclId) : Option Builtin := image.builtins.lookup d

/-- Whether a program declares the function that reads; no other program looks at its input. -/
def readsInput (image : Image) : Bool :=
  image.builtins.any fun (_, b) => b = .get

end Image

end MiniC
