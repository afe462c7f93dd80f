import Mathlib.Logic.Equiv.Basic
import MiniC.Grammar.TranslationUnit
import MiniC.Machine.Interpreter

/-!
# Other names and other places

A `Renaming` gives identifiers other names, keeps different ones apart, and leaves the reserved ones
alone. A `Relabelling` gives other places as well. Both act on all data that names and places are
part of: tokens, programs, the state of a parser, errors, and the state of a run.
-/

set_option autoImplicit false

namespace MiniC

/-- The names that have a part of their own: the empty text, which is no identifier and stands for
the missing name of a parameter, that of the function that a run enters, and those of the functions
that the machine provides. -/
def reservedNames : List String := "" :: entryName :: Builtin.all.map Builtin.name

/-- Other names for identifiers. Different identifiers get different names, and reserved names
stay. -/
structure Renaming where
  name : String → String
  injective : Function.Injective name
  fixed : ∀ x ∈ reservedNames, name x = x

/-- Other names for identifiers, and other places. -/
structure Relabelling extends Renaming where
  place : Location → Location

namespace Renaming

/-- The same names. -/
protected def id : Renaming := ⟨fun x => x, fun _ _ h => h, fun _ _ => rfl⟩

/-- Two names are exchanged. -/
def swap (x y : String) (hx : x ∉ reservedNames) (hy : y ∉ reservedNames) : Renaming where
  name := Equiv.swap x y
  injective := (Equiv.swap x y).injective
  fixed _ hz :=
    Equiv.swap_apply_of_ne_of_ne (ne_of_mem_of_not_mem hz hx) (ne_of_mem_of_not_mem hz hy)

variable (σ : Renaming)

/-- No name is given to what has none. -/
theorem empty : σ.name "" = "" := σ.fixed _ (by simp [reservedNames])

/-- The name of the entry function is reserved. -/
theorem entry : σ.name entryName = entryName := σ.fixed _ (by simp [reservedNames])

/-- The names of the built-in functions are reserved. -/
theorem builtin (b : Builtin) : σ.name b.name = b.name := by
  apply σ.fixed
  cases b <;> simp [reservedNames, Builtin.all]

/-- The renaming together with other places. -/
def withPlaces (place : Location → Location) : Relabelling := { σ with place }

/-- The renaming that forgets places. -/
def placeless : Relabelling := σ.withPlaces fun _ => .nowhere

/-- What has a name keeps having one. -/
theorem name_eq_empty_iff {x : String} : σ.name x = "" ↔ x = "" := by
  constructor
  · intro h
    exact σ.injective (h.trans σ.empty.symm)
  · rintro rfl
    exact σ.empty

theorem isEmpty_name (x : String) : (σ.name x).isEmpty = x.isEmpty := by
  rw [Bool.eq_iff_iff, String.isEmpty_iff, String.isEmpty_iff, name_eq_empty_iff]

end Renaming

/-! ## Tokens -/

/-- The lexeme with another name, if it is an identifier. -/
def Lexeme.rename (σ : Renaming) : Lexeme → Lexeme
  | .identifier name => .identifier (σ.name name)
  | lexeme => lexeme

/-- The token with another name and another place. -/
def Token.relabel (ρ : Relabelling) (token : Token) : Token :=
  ⟨token.lexeme.rename ρ.toRenaming, ρ.place token.loc⟩

/-- The tokens with other names and places. -/
def TokenStream.relabel (ρ : Relabelling) (stream : TokenStream) : TokenStream :=
  ⟨stream.tokens.map (Token.relabel ρ), ρ.place stream.endLoc⟩

/-- The fault with other names. -/
def ParseFault.rename (σ : Renaming) : ParseFault → ParseFault
  | .expectedDelimiter delimiter found => .expectedDelimiter delimiter (found.map (Lexeme.rename σ))
  | .expectedIdentifier found => .expectedIdentifier (found.map (Lexeme.rename σ))
  | .expectedType found => .expectedType (found.map (Lexeme.rename σ))
  | .unexpectedToken found => .unexpectedToken (found.map (Lexeme.rename σ))
  | .undeclared name => .undeclared (σ.name name)
  | .notAFunction name => .notAFunction (σ.name name)
  | .redefinition name => .redefinition (σ.name name)
  | .differentKind name => .differentKind (σ.name name)
  | .functionRedefinition name => .functionRedefinition (σ.name name)
  | .voidVariable name => .voidVariable (σ.name name)
  | fault => fault

/-- The error with other names and another place. -/
def ParseError.relabel (ρ : Relabelling) (e : ParseError) : ParseError :=
  ⟨e.fault.rename ρ.toRenaming, ρ.place e.loc⟩

/-! ## Programs -/

section Programs

variable (ρ : Relabelling)

/-- The expression at another place. -/
def Expr.relabel (e : Expr) : Expr := { e with loc := ρ.place e.loc }

/-- The statement at another place. -/
def Stmt.relabel (s : Stmt) : Stmt := { s with loc := ρ.place s.loc }

/-- The declaration with another name and another place. -/
def Decl.relabel (d : Decl) : Decl := { d with name := ρ.name d.name, loc := ρ.place d.loc }

/-- The program with other names and places. -/
def Program.relabel (p : Program) : Program :=
  { p with
    exprs := p.exprs.map (Expr.relabel ρ)
    stmts := p.stmts.map (Stmt.relabel ρ)
    decls := p.decls.map (Decl.relabel ρ) }

/-- The image of the program with other names and places. -/
def Image.relabel (image : Image) : Image := { image with program := image.program.relabel ρ }

/-- The scope with other names. -/
def Scope.rename (σ : Renaming) (scope : Scope) : Scope :=
  scope.map fun entry => (σ.name entry.1, entry.2)

/-- The scopes with other names. -/
def Scopes.rename (σ : Renaming) (scopes : Scopes) : Scopes :=
  ⟨scopes.inner.map (Scope.rename σ), scopes.file.rename σ⟩

/-- The state of a parser with other names and places. -/
def ParserState.relabel (s : ParserState) : ParserState :=
  ⟨s.rest.map (Token.relabel ρ), ρ.place s.endLoc, s.program.relabel ρ,
    s.scopes.rename ρ.toRenaming⟩

end Programs

/-! ## Runs -/

/-- The construct with another name. -/
def Unsupported.rename (σ : Renaming) : Unsupported → Unsupported
  | .functionReference name => .functionReference (σ.name name)
  | .reference name type => .reference (σ.name name) type
  | construct => construct

/-- The fault with another name. -/
def RuntimeFault.rename (σ : Renaming) : RuntimeFault → RuntimeFault
  | .arityMismatch function expected got => .arityMismatch (σ.name function) expected got
  | .undefinedFunction name => .undefinedFunction (σ.name name)
  | .unboundDeclaration name => .unboundDeclaration (σ.name name)
  | .unsupported construct => .unsupported (construct.rename σ)
  | fault => fault

section Runs

variable (ρ : Relabelling)

/-- The diagnostic with another name and another place. -/
def Diagnostic.relabel (d : Diagnostic) : Diagnostic :=
  ⟨d.construct.rename ρ.toRenaming, ρ.place d.loc⟩

/-- The error with another name and another place. -/
def RuntimeError.relabel : RuntimeError → RuntimeError
  | .fault cause loc => .fault (cause.rename ρ.toRenaming) (ρ.place loc)
  | .noEntryFunction => .noEntryFunction

/-- The reason to halt with another name and another place. -/
def Halt.relabel : Halt → Halt
  | .error e => .error (e.relabel ρ)
  | .outOfFuel => .outOfFuel

/-- The state with other names and places in its diagnostics; nothing else in a state has names or
places. -/
def State.relabel {κ : Type} (s : State κ) : State κ :=
  { s with diagnostics := s.diagnostics.map (Diagnostic.relabel ρ) }

/-- The outcome of a run with other names and places. -/
def Run.relabelOutcome {κ α : Type} :
    EStateM.Result Halt (State κ) α → EStateM.Result Halt (State κ) α
  | .ok a s => .ok a (s.relabel ρ)
  | .error h s => .error (h.relabel ρ) (s.relabel ρ)

end Runs

/-! ## What stays the same -/

section Nodes

variable {ρ : Relabelling} {p : Program}

@[simp] theorem Decl.kind_relabel (d : Decl) : (d.relabel ρ).kind = d.kind := rfl

@[simp] theorem Decl.name_relabel (d : Decl) : (d.relabel ρ).name = ρ.name d.name := rfl

@[simp] theorem Expr.kind_relabel (e : Expr) : (e.relabel ρ).kind = e.kind := rfl

@[simp] theorem Expr.type_relabel (e : Expr) : (e.relabel ρ).type = e.type := rfl

/-- The type of a declaration is part of its kind. -/
theorem Decl.type_congr {d d' : Decl} (h : d'.kind = d.kind) : d'.type = d.type := by
  unfold type
  rw [h]

theorem Decl.isFunction_congr {d d' : Decl} (h : d'.kind = d.kind) :
    d'.isFunction = d.isFunction := by
  unfold isFunction
  rw [h]

theorem Decl.hasBody_congr {d d' : Decl} (h : d'.kind = d.kind) : d'.hasBody = d.hasBody := by
  unfold hasBody
  rw [h]

/-- A declaration that is there has the other name and place. -/
theorem Program.decl_relabel_of_lt {d : DeclId} (h : d.index < p.decls.size) :
    (p.relabel ρ).decl d = (p.decl d).relabel ρ := by
  simp [decl, relabel, Array.getD, h]

/-- A declaration is of the same kind under its new name. -/
theorem Program.kind_decl_relabel (d : DeclId) : ((p.relabel ρ).decl d).kind = (p.decl d).kind := by
  by_cases h : d.index < p.decls.size
  · rw [decl_relabel_of_lt h, Decl.kind_relabel]
  · simp [decl, relabel, Array.getD, h]

/-- An expression of the relabelled program is the relabelled one. -/
theorem Program.expr_relabel_of_lt {e : ExprId} (h : e.index < p.exprs.size) :
    (p.relabel ρ).expr e = (p.expr e).relabel ρ := by
  simp [expr, relabel, Array.getD, h]

/-- Types have no names. -/
theorem Program.type_expr_relabel (e : ExprId) : ((p.relabel ρ).expr e).type = (p.expr e).type := by
  by_cases h : e.index < p.exprs.size
  · rw [expr_relabel_of_lt h, Expr.type_relabel]
  · simp [expr, relabel, Array.getD, h]

end Nodes

end MiniC
