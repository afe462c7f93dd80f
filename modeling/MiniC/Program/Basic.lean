import MiniC.Program.CType
import MiniC.Program.Operator
import MiniC.Source.Location

/-!
# Programs

A program keeps its expressions, statements and declarations in three tables and refers to them by
their positions there, its `ExprId`, `StmtId` and `DeclId`. Nodes are only ever added at the end of
a table, so an id keeps its meaning while a program is built (`Program.expr_pushExpr_self` and the
lemmas beside it). Names are resolved: a reference carries the declaration that it refers to.
-/

set_option autoImplicit false

namespace MiniC

/-! ## Ids -/

/-- The position of an expression in its program. -/
structure ExprId where
  index : Nat
  deriving DecidableEq, Inhabited

/-- The position of a statement in its program. -/
structure StmtId where
  index : Nat
  deriving DecidableEq, Inhabited

/-- The position of a declaration in its program. -/
structure DeclId where
  index : Nat
  deriving DecidableEq, Inhabited

/-! ## Nodes -/

/-- The forms of expressions. -/
inductive ExprKind where
  | intLiteral (value : Int32)
  | declRef (decl : DeclId)
  | unary (op : UnaryOp) (operand : ExprId)
  | binary (op : BinaryOp) (lhs rhs : ExprId)
  | call (callee : DeclId) (args : List ExprId)
  | subscript (base index : ExprId)
  | cast (operand : ExprId)
  | paren (inner : ExprId)
  /-- The size of a type; an operand that is an expression counts by its type alone. -/
  | sizeOf (type : CType)

/-- An expression with its static type and the place of the token that introduces it. -/
structure Expr where
  kind : ExprKind
  type : CType
  loc : Location

instance : Inhabited Expr := ⟨⟨.intLiteral 0, .int, .nowhere⟩⟩

/-- The forms of statements. -/
inductive StmtKind where
  | block (body : List StmtId)
  | declare (decls : List DeclId)
  | expr (e : ExprId)
  | ifElse (condition : ExprId) (thenBranch : StmtId) (elseBranch : Option StmtId)
  | whileLoop (condition : ExprId) (body : StmtId)
  | forLoop (init : Option StmtId) (condition increment : Option ExprId) (body : StmtId)
  | ret (value : Option ExprId)
  | empty

/-- A statement and the place of its first token. -/
structure Stmt where
  kind : StmtKind
  loc : Location

instance : Inhabited Stmt := ⟨⟨.empty, .nowhere⟩⟩

/-- Where a variable lives: for the whole run, during a call of the function that declares it, or as
one of its parameters. -/
inductive Storage where
  | global | local | param
  deriving DecidableEq

/-- The forms of declarations. -/
inductive DeclKind where
  | variable (type : CType) (init : Option ExprId) (storage : Storage)
  | function (returnType : CType) (params : List DeclId) (body : Option StmtId)

/-- A named variable, parameter or function, and the place of its name. -/
structure Decl where
  name : String
  kind : DeclKind
  loc : Location

instance : Inhabited Decl := ⟨⟨"", .variable .int none .global, .nowhere⟩⟩

namespace Decl

/-- The static type of a reference to a declaration. -/
def type (d : Decl) : CType :=
  match d.kind with
  | .variable type _ _ => type
  | .function returnType _ _ => .function returnType

/-- Whether a declaration declares a function. -/
def isFunction (d : Decl) : Bool :=
  match d.kind with
  | .function .. => true
  | .variable .. => false

end Decl

/-- A declaration of the file, in the order of first declaration. -/
inductive Item where
  | function (decl : DeclId)
  | variable (decl : DeclId)
  deriving DecidableEq

/-! ## Programs -/

/-- The tables of nodes, and the declarations of the file in order. -/
structure Program where
  exprs : Array Expr
  stmts : Array Stmt
  decls : Array Decl
  items : Array Item

namespace Program

/-- The program without declarations. -/
def empty : Program := ⟨#[], #[], #[], #[]⟩

/-- The expression with an id. -/
def expr (p : Program) (id : ExprId) : Expr := p.exprs.getD id.index default

/-- The statement with an id. -/
def stmt (p : Program) (id : StmtId) : Stmt := p.stmts.getD id.index default

/-- The declaration with an id. -/
def decl (p : Program) (id : DeclId) : Decl := p.decls.getD id.index default

/-- Adds an expression; its id is the second component. -/
def pushExpr (p : Program) (e : Expr) : Program × ExprId :=
  let id := ⟨p.exprs.size⟩
  ({ p with exprs := p.exprs.push e }, id)

/-- Adds a statement; its id is the second component. -/
def pushStmt (p : Program) (s : Stmt) : Program × StmtId :=
  let id := ⟨p.stmts.size⟩
  ({ p with stmts := p.stmts.push s }, id)

/-- Adds a declaration; its id is the second component. -/
def pushDecl (p : Program) (d : Decl) : Program × DeclId :=
  let id := ⟨p.decls.size⟩
  ({ p with decls := p.decls.push d }, id)

/-- Adds a declaration to those of the file. -/
def pushItem (p : Program) (item : Item) : Program :=
  { p with items := p.items.push item }

/-- Changes the declaration with an id. -/
def modifyDecl (p : Program) (id : DeclId) (f : Decl → Decl) : Program :=
  { p with decls := p.decls.modify id.index f }

theorem expr_pushExpr_self (p : Program) (e : Expr) :
    (p.pushExpr e).1.expr (p.pushExpr e).2 = e := by
  simp [expr, pushExpr, Array.getD]

theorem expr_pushExpr_of_lt (p : Program) (e : Expr) {id : ExprId} (h : id.index < p.exprs.size) :
    (p.pushExpr e).1.expr id = p.expr id := by
  simp [expr, pushExpr, Array.getD, h, Nat.lt_succ_of_lt h, Array.getElem_push_lt]

/-- The first expression inside at most `bound` pairs of parentheses that is not parenthesised. -/
def stripParensWithin (p : Program) : Nat → ExprId → ExprId
  | 0, id => id
  | bound + 1, id =>
    match (p.expr id).kind with
    | .paren inner => p.stripParensWithin bound inner
    | _ => id

/-- The expression inside all parentheses around it. -/
def stripParens (p : Program) (id : ExprId) : ExprId :=
  p.stripParensWithin p.exprs.size id

end Program

end MiniC
