import MiniC.Proofs.WellFormed

/-!
# Names in scope

The names that a statement may mention are those of the file and the local variables that come
before it in the same function, in enclosing scopes. `Program.Scoped p V ids W` says that the
statements `ids` mention no other names, when the local variables `V` are in scope before them, and
that `W` are in scope after them. Branches of `if` and bodies of `while` do not open a scope, so a
variable declared there is in scope after the statement, executed or not; where none is declared
directly, executing a statement introduces all variables that it brings into scope
(`Program.Scoped.eq_of_not_declares`).
-/

set_option autoImplicit false

namespace MiniC

/-- Functions and variables of the file. -/
def Decl.isFileLevel (d : Decl) : Bool :=
  match d.kind with
  | .function .. => true
  | .variable _ _ storage => storage = .global

/-- Whether a statement declares variables. -/
def StmtKind.isDeclaration : StmtKind → Bool
  | .declare _ => true
  | _ => false

/-- The branches of an `if` and the body of a `while`, which do not open a scope. -/
def StmtKind.branches : StmtKind → List StmtId
  | .ifElse _ thenBranch elseBranch => thenBranch :: elseBranch.toList
  | .whileLoop _ body => [body]
  | _ => []

namespace Program

variable {p q : Program} {V W X : List DeclId}

/-- A declaration of the program that the whole file can refer to. -/
structure FileLevel (p : Program) (d : DeclId) : Prop where
  lt : d.index < p.decls.size
  isFileLevel : (p.decl d).isFileLevel = true

theorem FileLevel.extends {d : DeclId} (h : p.FileLevel d) (hpq : p.Extends q) : q.FileLevel d := by
  refine ⟨Nat.lt_of_lt_of_le h.lt hpq.decls, ?_⟩
  cases hf : (p.decl d).isFunction with
  | false => rw [hpq.nonFunctions h.lt hf, h.isFileLevel]
  | true =>
    have hq := hpq.functions h.lt hf
    unfold Decl.isFunction at hq
    unfold Decl.isFileLevel
    split at hq <;> simp_all

/-! ## The judgement -/

variable (p)

/-- An expression mentions the given local variables and names of the file only. -/
def InScope (V : List DeclId) (e : ExprId) : Prop :=
  ∀ {q d}, p.Contains e q → (p.expr q).kind = .declRef d → d ∈ V ∨ p.FileLevel d

/-- Variables that are declared in order, each in scope from its own initialiser on. -/
def DeclaresInScope : List DeclId → List DeclId → Prop
  | _, [] => True
  | V, d :: ds =>
    (p.decl d).isFunction = false ∧
      (∀ init, (p.decl d).init? = some init → p.InScope (d :: V) init) ∧ DeclaresInScope (d :: V) ds

/-- Statements that are executed in order, with the local variables in scope before and after
them. -/
inductive Scoped : List DeclId → List StmtId → List DeclId → Prop
  | nil {V : List DeclId} : Scoped V [] V
  | block {V V' W : List DeclId} {id : StmtId} {body ids : List StmtId} :
      (p.stmt id).kind = .block body → Scoped V body V' → Scoped V ids W → Scoped V (id :: ids) W
  | declare {V W : List DeclId} {id : StmtId} {ds : List DeclId} {ids : List StmtId} :
      (p.stmt id).kind = .declare ds → p.DeclaresInScope V ds → Scoped (ds.reverse ++ V) ids W →
      Scoped V (id :: ids) W
  | expr {V W : List DeclId} {id : StmtId} {e : ExprId} {ids : List StmtId} :
      (p.stmt id).kind = .expr e → p.InScope V e → Scoped V ids W → Scoped V (id :: ids) W
  | ifElse {V V' W : List DeclId} {id thenBranch : StmtId} {c : ExprId} {elseBranch : Option StmtId}
      {ids : List StmtId} :
      (p.stmt id).kind = .ifElse c thenBranch elseBranch → p.InScope V c →
      Scoped V (thenBranch :: elseBranch.toList) V' → Scoped V' ids W → Scoped V (id :: ids) W
  | whileLoop {V V' W : List DeclId} {id body : StmtId} {c : ExprId} {ids : List StmtId} :
      (p.stmt id).kind = .whileLoop c body → p.InScope V c → Scoped V [body] V' → Scoped V' ids W →
      Scoped V (id :: ids) W
  | forLoop {V V' V'' W : List DeclId} {id body : StmtId} {init : Option StmtId}
      {c increment : Option ExprId} {ids : List StmtId} :
      (p.stmt id).kind = .forLoop init c increment body → Scoped V init.toList V' →
      (∀ e ∈ c, p.InScope V' e) → (∀ e ∈ increment, p.InScope V' e) → Scoped V' [body] V'' →
      Scoped V ids W → Scoped V (id :: ids) W
  | ret {V W : List DeclId} {id : StmtId} {value : Option ExprId} {ids : List StmtId} :
      (p.stmt id).kind = .ret value → (∀ e ∈ value, p.InScope V e) → Scoped V ids W →
      Scoped V (id :: ids) W
  | empty {V W : List DeclId} {id : StmtId} {ids : List StmtId} :
      (p.stmt id).kind = .empty → Scoped V ids W → Scoped V (id :: ids) W

variable {p}

/-- What follows a statement is in scope of what it declares. -/
theorem Scoped.cons {id : StmtId} {ids : List StmtId} (h : p.Scoped V [id] W)
    (h' : p.Scoped W ids X) : p.Scoped V (id :: ids) X := by
  cases h with
  | block hk hbody hrest => cases hrest; exact .block hk hbody h'
  | declare hk hds hrest => cases hrest; exact .declare hk hds h'
  | expr hk he hrest => cases hrest; exact .expr hk he h'
  | ifElse hk hc hbranches hrest => cases hrest; exact .ifElse hk hc hbranches h'
  | whileLoop hk hc hbody hrest => cases hrest; exact .whileLoop hk hc hbody h'
  | forLoop hk hinit hc hincrement hbody hrest =>
    cases hrest
    exact .forLoop hk hinit hc hincrement hbody h'
  | ret hk hvalue hrest => cases hrest; exact .ret hk hvalue h'
  | empty hk hrest => cases hrest; exact .empty hk h'

/-- No branch of `if` and no body of `while` is itself a declaration. -/
def BranchesDeclareNothing (p : Program) : Prop :=
  ∀ id, ∀ i ∈ (p.stmt id).kind.branches, (p.stmt i).kind.isDeclaration = false

theorem branchesDeclareNothing_iff :
    p.BranchesDeclareNothing ↔ ∀ k < p.stmts.size, ∀ i ∈ (p.stmt ⟨k⟩).kind.branches,
      (p.stmt i).kind.isDeclaration = false := by
  refine ⟨fun h k _ => h ⟨k⟩, fun h id i hi => ?_⟩
  by_cases hlt : id.index < p.stmts.size
  · exact h id.index hlt i hi
  · simp [stmt, Array.getD, hlt, default, StmtKind.branches] at hi

instance : Decidable p.BranchesDeclareNothing := decidable_of_iff _ branchesDeclareNothing_iff.symm

/-- Statements that are no declarations bring nothing into scope. -/
theorem Scoped.eq_of_not_declares (hp : p.BranchesDeclareNothing) {ids : List StmtId}
    (h : p.Scoped V ids W) (hids : ∀ id ∈ ids, (p.stmt id).kind.isDeclaration = false) : W = V := by
  induction h with
  | nil => rfl
  | block _ _ _ _ ih => exact ih fun i hi => hids i (List.mem_cons_of_mem _ hi)
  | declare hk _ _ _ => simp [hk, StmtKind.isDeclaration] at hids
  | expr _ _ _ ih => exact ih fun i hi => hids i (List.mem_cons_of_mem _ hi)
  | @ifElse _ _ _ id _ _ _ _ hk _ _ _ ihb ih =>
    have hb := ihb fun i hi => hp id i (by rw [hk]; exact hi)
    rw [ih fun i hi => hids i (List.mem_cons_of_mem _ hi), hb]
  | @whileLoop _ _ _ id body _ _ hk _ _ _ ihb ih =>
    have hb := ihb fun i hi => hp id i (by rw [hk]; exact hi)
    rw [ih fun i hi => hids i (List.mem_cons_of_mem _ hi), hb]
  | forLoop _ _ _ _ _ _ _ _ ih => exact ih fun i hi => hids i (List.mem_cons_of_mem _ hi)
  | ret _ _ _ ih => exact ih fun i hi => hids i (List.mem_cons_of_mem _ hi)
  | empty _ _ ih => exact ih fun i hi => hids i (List.mem_cons_of_mem _ hi)

end Program

end MiniC
