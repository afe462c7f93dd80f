import MiniC.Program.Basic

/-!
# Scopes

A scope is a region of a program in which names are declared. The scopes around a reading position
are nested, with that of the whole file outermost; a name means the declaration of the innermost
scope that has it (`Scopes.resolve?`).
-/

set_option autoImplicit false

namespace MiniC

/-- The names that a region declares, the latest first. -/
abbrev Scope := List (String × DeclId)

/-- The scopes around a reading position: those inside the file, the innermost first, and the
file. -/
structure Scopes where
  inner : List Scope
  file : Scope

namespace Scopes

/-- The scope of a file that declares nothing yet. -/
def empty : Scopes := ⟨[], []⟩

/-- Opens a scope inside all others. -/
def enter (scopes : Scopes) : Scopes := { scopes with inner := [] :: scopes.inner }

/-- Closes the innermost scope; that of the file stays open. -/
def leave (scopes : Scopes) : Scopes := { scopes with inner := scopes.inner.tail }

/-- The innermost scope. -/
def innermost (scopes : Scopes) : Scope := scopes.inner.head?.getD scopes.file

/-- Adds a name to the innermost scope. -/
def declare (scopes : Scopes) (name : String) (d : DeclId) : Scopes :=
  match scopes.inner with
  | scope :: outer => { scopes with inner := ((name, d) :: scope) :: outer }
  | [] => { scopes with file := (name, d) :: scopes.file }

/-- Adds a name to the scope of the file. -/
def declareInFile (scopes : Scopes) (name : String) (d : DeclId) : Scopes :=
  { scopes with file := (name, d) :: scopes.file }

/-- What a name means: its declaration in the innermost scope that has one. -/
def resolve? (scopes : Scopes) (name : String) : Option DeclId :=
  (scopes.inner ++ [scopes.file]).findSome? (List.lookup name)

end Scopes

end MiniC
