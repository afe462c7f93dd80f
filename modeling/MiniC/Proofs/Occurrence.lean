import MiniC.Program.Basic

/-!
# Occurrences of expressions

Nodes refer to each other by their ids, so what lies inside a node is a relation: `Program.Contains`
for expressions inside an expression and `Program.StmtContains` for expressions inside a statement,
its inner statements and the initialisers of the variables it declares included. The relations are
defined for every program, also one whose nodes refer to each other in circles.
-/

set_option autoImplicit false

namespace MiniC

/-! ## Direct parts -/

/-- The expressions that an expression refers to. -/
def ExprKind.operands : ExprKind → List ExprId
  | .intLiteral _ | .declRef _ | .sizeOf _ => []
  | .unary _ operand | .cast operand | .paren operand => [operand]
  | .binary _ lhs rhs => [lhs, rhs]
  | .call _ args => args
  | .subscript base index => [base, index]

/-- The initialiser of a variable that has one. -/
def Decl.init? (d : Decl) : Option ExprId :=
  match d.kind with
  | .variable _ init _ => init
  | .function .. => none

/-- The statements that a statement refers to. -/
def StmtKind.inner : StmtKind → List StmtId
  | .block body => body
  | .ifElse _ thenBranch elseBranch => thenBranch :: elseBranch.toList
  | .whileLoop _ body => [body]
  | .forLoop init _ _ body => init.toList ++ [body]
  | .declare _ | .expr _ | .ret _ | .empty => []

/-- The expressions that a statement refers to. -/
def StmtKind.exprs : StmtKind → List ExprId
  | .expr e => [e]
  | .ifElse condition _ _ | .whileLoop condition _ => [condition]
  | .forLoop _ condition increment _ => condition.toList ++ increment.toList
  | .ret value => value.toList
  | .block _ | .declare _ | .empty => []

/-- The variables that a statement declares. -/
def StmtKind.declared : StmtKind → List DeclId
  | .declare decls => decls
  | _ => []

namespace Program

variable (p : Program)

/-- The expressions that an expression refers to. -/
def operands (e : ExprId) : List ExprId := (p.expr e).kind.operands

/-- What the kind of a node refers to are the operands of the node. -/
theorem mem_operands {p : Program} {e c : ExprId} {kind : ExprKind} (hk : (p.expr e).kind = kind)
    (hc : c ∈ kind.operands) : c ∈ p.operands e := by
  rw [operands, hk]
  exact hc

/-- The expressions that a statement refers to, the initialisers of its variables included. -/
def roots (id : StmtId) : List ExprId :=
  let kind := (p.stmt id).kind
  kind.exprs ++ kind.declared.filterMap fun d => (p.decl d).init?

/-! ## Occurrences -/

/-- The expression `q` is `e` or lies inside it. -/
inductive Contains : ExprId → ExprId → Prop
  | self (e : ExprId) : Contains e e
  | operand {e c q : ExprId} : c ∈ p.operands e → Contains c q → Contains e q

/-- The expression `q` lies inside a statement. -/
inductive StmtContains : StmtId → ExprId → Prop
  | root {id : StmtId} {e q : ExprId} : e ∈ p.roots id → p.Contains e q → StmtContains id q
  | inner {id i : StmtId} {q : ExprId} :
      i ∈ (p.stmt id).kind.inner → StmtContains i q → StmtContains id q

/-- The expression `q` lies inside the initialiser of a variable. -/
def DeclContains (d : DeclId) (q : ExprId) : Prop :=
  ∃ init, (p.decl d).init? = some init ∧ p.Contains init q

variable {p}

theorem Contains.trans {e f q : ExprId} (h : p.Contains e f) (h' : p.Contains f q) :
    p.Contains e q := by
  induction h with
  | self => exact h'
  | operand hc _ ih => exact .operand hc (ih h')

end Program

end MiniC
