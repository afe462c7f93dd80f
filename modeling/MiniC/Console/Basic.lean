import MiniC.Machine.Diagnostic

/-!
# Consoles

A console is where a running program gets integers from and puts integers to. `Scripted` holds all
its input from the beginning and collects the output.
-/

set_option autoImplicit false

namespace MiniC

/-- A source and sink of integers whose states are the values of a type. -/
class Console (κ : Type) where
  /-- Takes the next integer, if there is one. -/
  readInt : κ → Option Int32 × κ
  /-- Puts out an integer. -/
  writeInt : Int32 → κ → κ
  /-- Takes notice of a diagnostic. -/
  notify : Diagnostic → κ → κ

/-- The integers that are still to be read, and those that were put out. -/
structure Scripted where
  input : List Int32
  output : Array Int32

namespace Scripted

/-- The console with a given input. -/
def ofInput (input : List Int32) : Scripted := ⟨input, #[]⟩

instance : Console Scripted where
  readInt console := (console.input.head?, { console with input := console.input.tail })
  writeInt value console := { console with output := console.output.push value }
  notify _ console := console

end Scripted

end MiniC
