import Mathlib.Data.Multiset.AddSub
import Mathlib.Data.Multiset.Count
import Mathlib.Logic.Relation
import MiniC.Proofs.TypeRules
import MiniC.Proofs.WellFormed

/-!
# Programs under construction

While a program is read it is a draft: a program together with the parts that are still loose, that
is, that nothing refers to yet and something will refer to (`Draft`). `Draft.Step` says what a
single step of the construction can do: add a node that takes up loose parts and is loose itself,
give a variable its initialiser or a function its parameters or its body, or add a declaration to
those of the file. What every step preserves holds of every draft that can be reached
(`Draft.Reachable`).
-/

set_option autoImplicit false

namespace MiniC

/-! ## Parts and references -/

/-- A part of a program that the rest refers to: an expression, a statement, a variable of a
function or a variable of the file. -/
inductive Part where
  | expr (e : ExprId)
  | stmt (id : StmtId)
  | localVar (d : DeclId)
  | globalVar (d : DeclId)
  deriving DecidableEq

/-- The declarations that an expression names. -/
def ExprKind.names : ExprKind → List DeclId
  | .declRef d => [d]
  | .call callee _ => [callee]
  | _ => []

/-- Where a variable lives. -/
def Decl.storage? (d : Decl) : Option Storage :=
  match d.kind with
  | .variable _ _ storage => some storage
  | .function .. => none

/-- The parameters of a function. -/
def Decl.params (d : Decl) : List DeclId :=
  match d.kind with
  | .function _ params _ => params
  | .variable .. => []

/-- The declaration that stands in a file. -/
def Item.decl : Item → DeclId
  | .function d => d
  | .variable d => d

/-- The parts that an expression refers to. -/
def ExprKind.parts (kind : ExprKind) : List Part := kind.operands.map .expr

/-- The parts that a statement refers to. -/
def StmtKind.parts (kind : StmtKind) : List Part :=
  kind.inner.map .stmt ++ kind.exprs.map .expr ++ kind.declared.map .localVar

namespace StmtKind

@[simp] theorem parts_block (body : List StmtId) : (block body).parts = body.map .stmt := by
  simp [parts, inner, exprs, declared]

@[simp] theorem parts_declare (decls : List DeclId) :
    (declare decls).parts = decls.map .localVar := by
  simp [parts, inner, exprs, declared]

@[simp] theorem parts_expr (e : ExprId) : (expr e).parts = [.expr e] := rfl

@[simp] theorem parts_ifElse (condition : ExprId) (thenBranch : StmtId)
    (elseBranch : Option StmtId) :
    (ifElse condition thenBranch elseBranch).parts =
      [.stmt thenBranch] ++ elseBranch.toList.map .stmt ++ [.expr condition] := by
  simp [parts, inner, exprs, declared]

@[simp] theorem parts_whileLoop (condition : ExprId) (body : StmtId) :
    (whileLoop condition body).parts = [.stmt body, .expr condition] := rfl

@[simp] theorem parts_forLoop (init : Option StmtId)
    (condition increment : Option ExprId) (body : StmtId) :
    (forLoop init condition increment body).parts =
      init.toList.map .stmt ++ [.stmt body] ++
        (condition.toList.map .expr ++ increment.toList.map .expr) := by
  simp [parts, inner, exprs, declared]

@[simp] theorem parts_ret (value : Option ExprId) : (ret value).parts = value.toList.map .expr := by
  simp [parts, inner, exprs, declared]

@[simp] theorem parts_empty : empty.parts = [] := rfl

end StmtKind

/-- The parts that a declaration refers to. -/
def Decl.parts (d : Decl) : List Part :=
  match d.kind with
  | .variable _ init _ => init.toList.map .expr
  | .function _ _ body => body.toList.map .stmt

/-- The parts that a declaration of the file refers to. -/
def Item.parts : Item → List Part
  | .variable d => [.globalVar d]
  | .function _ => []

/-- A variable as a part of its function or of the file. -/
def Storage.parts : Storage → DeclId → List Part
  | .local, d => [.localVar d]
  | .global, d => [.globalVar d]
  | .param, _ => []

/-- Changing an element of a list changes a count over the list by what it changes at the
element. -/
theorem count_flatMap_modify {α β : Type} [DecidableEq β] (x : β) (g : α → List β)
    (f : α → α) (as : List α) {i : Nat} (h : i < as.length) :
    ((as.modify i f).flatMap g).count x + (g as[i]).count x =
      (as.flatMap g).count x + (g (f as[i])).count x := by
  induction as generalizing i with
  | nil => exact absurd h (Nat.not_lt_zero i)
  | cons a as ih =>
    cases i with
    | zero =>
      simp only [List.modify_zero_cons, List.flatMap_cons, List.count_append,
        List.getElem_cons_zero]
      omega
    | succ i =>
      have hrest := ih (Nat.lt_of_succ_lt_succ h)
      simp only [List.modify_succ_cons, List.flatMap_cons, List.count_append,
        List.getElem_cons_succ]
      omega

/-- One more loose part is counted once. -/
theorem count_cons_parts (x y : Part) (P : Multiset Part) :
    (x ::ₘ P).count y = [x].count y + P.count y := by
  rw [← Multiset.singleton_add, Multiset.count_add, ← Multiset.coe_singleton, Multiset.coe_count]

namespace Program

variable (p : Program)

/-- Every reference to a part, as often as it is stored in the program. -/
def references : List Part :=
  p.exprs.toList.flatMap (·.kind.parts) ++ p.stmts.toList.flatMap (·.kind.parts) ++
    p.decls.toList.flatMap Decl.parts ++ p.items.toList.flatMap Item.parts

/-- A parameter of the program. -/
structure IsParameter (d : DeclId) : Prop where
  lt : d.index < p.decls.size
  storage : (p.decl d).storage? = some .param

/-- A part is in the program. -/
def Has : Part → Prop
  | .expr e => e.index < p.exprs.size
  | .stmt id => id.index < p.stmts.size
  | .localVar d => d.index < p.decls.size ∧ (p.decl d).storage? = some .local
  | .globalVar d => d.index < p.decls.size ∧ (p.decl d).storage? = some .global

variable {p}

/-- A parameter is no function. -/
theorem IsParameter.isFunction {d : DeclId} (h : p.IsParameter d) :
    (p.decl d).isFunction = false := by
  have hstorage := h.storage
  unfold Decl.storage? at hstorage
  unfold Decl.isFunction
  split at hstorage
  · next hk => rw [hk]
  · cases hstorage

/-- A parameter stays one when nodes are added. -/
theorem IsParameter.extends {q : Program} {d : DeclId} (h : p.IsParameter d) (hpq : p.Extends q) :
    q.IsParameter d :=
  ⟨Nat.lt_of_lt_of_le h.lt hpq.decls, by rw [hpq.nonFunctions h.lt h.isFunction, h.storage]⟩

/-- Changes of declarations that keep where variables live. -/
theorem IsParameter.modifyDecl {d d' : DeclId} {f : Decl → Decl} (h : p.IsParameter d)
    (hf : (f (p.decl d')).storage? = (p.decl d').storage?) : (p.modifyDecl d' f).IsParameter d := by
  refine ⟨by rw [size_modifyDecl]; exact h.lt, ?_⟩
  by_cases heq : d = d'
  · subst heq
    rw [decl_modifyDecl_self p f h.lt, hf, h.storage]
  · rw [decl_modifyDecl_of_ne p f heq, h.storage]

variable (x : Part)

/-- A new expression adds the references to its operands. -/
theorem count_references_pushExpr (node : Expr) :
    (p.pushExpr node).1.references.count x = p.references.count x + node.kind.parts.count x := by
  simp only [references, pushExpr, Array.toList_push, List.flatMap_append, List.flatMap_singleton,
    List.count_append]
  omega

/-- A new statement adds the references to its parts. -/
theorem count_references_pushStmt (node : Stmt) :
    (p.pushStmt node).1.references.count x = p.references.count x + node.kind.parts.count x := by
  simp only [references, pushStmt, Array.toList_push, List.flatMap_append, List.flatMap_singleton,
    List.count_append]
  omega

/-- A new declaration adds the references to its parts. -/
theorem count_references_pushDecl (d : Decl) :
    (p.pushDecl d).1.references.count x = p.references.count x + d.parts.count x := by
  simp only [references, pushDecl, Array.toList_push, List.flatMap_append, List.flatMap_singleton,
    List.count_append]
  omega

/-- A new item adds the reference to its declaration, if that is a variable. -/
theorem count_references_pushItem (item : Item) :
    (p.pushItem item).references.count x = p.references.count x + item.parts.count x := by
  simp only [references, pushItem, Array.toList_push, List.flatMap_append, List.flatMap_singleton,
    List.count_append]
  omega

/-- Changing a declaration takes its old references away and adds the new ones. -/
theorem count_references_modifyDecl {d : DeclId} (f : Decl → Decl) (h : d.index < p.decls.size) :
    (p.modifyDecl d f).references.count x + (p.decl d).parts.count x =
      p.references.count x + (f (p.decl d)).parts.count x := by
  have hlt : d.index < p.decls.toList.length := by simpa using h
  have hcount := count_flatMap_modify x Decl.parts f p.decls.toList hlt
  have hdecl : p.decl d = p.decls.toList[d.index] := by simp [decl, Array.getD, h]
  rw [← hdecl] at hcount
  simp only [references, modifyDecl, Array.toList_modify, List.count_append]
  omega

end Program

/-! ## Drafts -/

/-- A program under construction, with the parts that nothing refers to yet. -/
structure Draft where
  program : Program
  loose : Multiset Part

namespace Draft

/-- One step of the construction of a program from a text with the given tokens. A part that a new
node refers to was loose before the step. An expression whose size is asked for is taken up as well,
though the new node does not refer to it. -/
inductive Step (tokens : List Token) : Draft → Draft → Prop
  | expr {p : Program} {loose : Multiset Part} (node : Expr)
      (names : ∀ d ∈ node.kind.names, d.index < p.decls.size) (gives : p.Gives tokens node)
      (type : ∀ type, node.kind = .sizeOf type → ¬ SizesExpression tokens node.loc) :
      Step tokens ⟨p, ↑node.kind.parts + loose⟩
        ⟨(p.pushExpr node).1, .expr (p.pushExpr node).2 ::ₘ loose⟩
  | sizeOf {p : Program} {loose : Multiset Part} {e : ExprId} {loc : Location}
      (last : e.index + 1 = p.exprs.size) (sizes : SizesExpression tokens loc) :
      Step tokens ⟨p, .expr e ::ₘ loose⟩
        ⟨(p.pushExpr ⟨.sizeOf (p.expr e).type, .int, loc⟩).1, .expr ⟨p.exprs.size⟩ ::ₘ loose⟩
  | stmt {p : Program} {loose : Multiset Part} (node : Stmt) :
      Step tokens ⟨p, ↑node.kind.parts + loose⟩
        ⟨(p.pushStmt node).1, .stmt (p.pushStmt node).2 ::ₘ loose⟩
  | newVariable {p : Program} {loose : Multiset Part} (name : String) (type : CType)
    (storage : Storage)
      (loc : Location) :
      Step tokens ⟨p, loose⟩
        ⟨(p.pushDecl ⟨name, .variable type none storage, loc⟩).1,
          ↑(storage.parts ⟨p.decls.size⟩) + loose⟩
  | init {p : Program} {loose : Multiset Part} {d : DeclId} {type : CType}
    {storage : Storage} (e : ExprId)
      (lt : d.index < p.decls.size) (kind : (p.decl d).kind = .variable type none storage) :
      Step tokens ⟨p, .expr e ::ₘ loose⟩ ⟨p.modifyDecl d (Decl.withInit e), loose⟩
  | newFunction {p : Program} {loose : Multiset Part} (name : String) (returnType : CType)
      {params : List DeclId} (loc : Location) (plain : returnType.isArray = false)
      (declared : ∀ q ∈ params, p.IsParameter q) :
      Step tokens ⟨p, loose⟩
        ⟨(p.pushDecl ⟨name, .function returnType params none, loc⟩).1.pushItem
          (.function ⟨p.decls.size⟩), loose⟩
  | params {p : Program} {loose : Multiset Part} {d : DeclId} {returnType : CType}
      {old params : List DeclId} (loc : Location) (lt : d.index < p.decls.size)
      (kind : (p.decl d).kind = .function returnType old none)
      (declared : ∀ q ∈ params, p.IsParameter q) :
      Step tokens ⟨p, loose⟩ ⟨p.modifyDecl d (Decl.withParams params loc), loose⟩
  | body {p : Program} {loose : Multiset Part} {d : DeclId} {returnType : CType}
    {params : List DeclId}
      (id : StmtId) (lt : d.index < p.decls.size)
        (kind : (p.decl d).kind = .function returnType params none) :
      Step tokens ⟨p, .stmt id ::ₘ loose⟩ ⟨p.modifyDecl d (Decl.withBody id), loose⟩
  | item {p : Program} {loose : Multiset Part} (d : DeclId) :
      Step tokens ⟨p, .globalVar d ::ₘ loose⟩ ⟨p.pushItem (.variable d), loose⟩

/-- Drafts that come about when a program is read from a text with the given tokens. -/
def Reachable (tokens : List Token) (draft : Draft) : Prop :=
  Relation.ReflTransGen (Step tokens) ⟨.empty, 0⟩ draft

/-- What holds of the empty program and is preserved by every step holds of every draft. -/
theorem Reachable.induction {tokens : List Token} {draft : Draft} (h : Reachable tokens draft)
    {P : Draft → Prop} (empty : P ⟨.empty, 0⟩) (step : ∀ {s t}, Step tokens s t → P s → P t) :
    P draft := by
  induction h with
  | refl => exact empty
  | tail _ hstep ih => exact step hstep ih

/-! ## Parameters of functions -/

variable {tokens : List Token} {s t : Draft}

/-- Every step of the construction gives functions parameters of the program only. -/
theorem Step.parameters (h : Step tokens s t)
    (hs : ∀ f, ∀ q ∈ (s.program.decl f).params, s.program.IsParameter q) :
    ∀ f, ∀ q ∈ (t.program.decl f).params, t.program.IsParameter q := by
  -- a declaration that is changed or added has parameters of the program; the others keep theirs
  have hpush {p : Program} {new : Decl} (hp : ∀ f, ∀ q ∈ (p.decl f).params, p.IsParameter q)
      (hnew : ∀ q ∈ new.params, p.IsParameter q) :
      ∀ f, ∀ q ∈ ((p.pushDecl new).1.decl f).params, (p.pushDecl new).1.IsParameter q := by
    intro f q hq
    refine Program.IsParameter.extends ?_ (Program.extends_pushDecl p new)
    by_cases heq : f = (p.pushDecl new).2
    · rw [heq, Program.decl_pushDecl_self] at hq
      exact hnew q hq
    · rw [Program.decl_pushDecl_of_ne p new heq] at hq
      exact hp f q hq
  have hmodify {p : Program} {d : DeclId} {g : Decl → Decl}
      (hp : ∀ f, ∀ q ∈ (p.decl f).params, p.IsParameter q) (lt : d.index < p.decls.size)
      (hg : (g (p.decl d)).storage? = (p.decl d).storage?)
      (hnew : ∀ q ∈ (g (p.decl d)).params, p.IsParameter q) :
      ∀ f, ∀ q ∈ ((p.modifyDecl d g).decl f).params, (p.modifyDecl d g).IsParameter q := by
    intro f q hq
    refine Program.IsParameter.modifyDecl ?_ hg
    by_cases heq : f = d
    · rw [heq, Program.decl_modifyDecl_self p g lt] at hq
      exact hnew q hq
    · rw [Program.decl_modifyDecl_of_ne p g heq] at hq
      exact hp f q hq
  cases h with
  | expr node names gives type => exact fun f q hq => ⟨(hs f q hq).lt, (hs f q hq).storage⟩
  | sizeOf last sizes => exact fun f q hq => ⟨(hs f q hq).lt, (hs f q hq).storage⟩
  | stmt node => exact fun f q hq => ⟨(hs f q hq).lt, (hs f q hq).storage⟩
  | newVariable name type storage loc => exact hpush hs nofun
  | @init p _ d type storage e lt kind =>
    have hwith : ((p.decl d).withInit e).kind = .variable type (some e) storage := by
      rw [Decl.withInit, kind]
    refine hmodify hs lt ?_ ?_
    · simp only [Decl.storage?, hwith, kind]
    · simp [Decl.params, hwith]
  | @newFunction p _ name returnType params loc plain declared =>
    have hnew :
      ∀ f, ∀ q ∈ ((p.pushDecl ⟨name, .function returnType params none, loc⟩).1.decl f).params,
        (p.pushDecl ⟨name, .function returnType params none, loc⟩).1.IsParameter q :=
          hpush hs declared
    exact fun f q hq => ⟨(hnew f q hq).lt, (hnew f q hq).storage⟩
  | @params p _ d returnType old params loc lt kind declared =>
    have hwith : ((p.decl d).withParams params loc).kind = .function returnType params none := by
      rw [Decl.withParams, kind]
    refine hmodify hs lt ?_ ?_
    · simp only [Decl.storage?, hwith, kind]
    · simpa [Decl.params, hwith] using declared
  | @body p _ d returnType params id lt kind =>
    have hwith : ((p.decl d).withBody id).kind = .function returnType params (some id) := by
      rw [Decl.withBody, kind]
    refine hmodify hs lt ?_ fun q hq => hs d q ?_
    · simp only [Decl.storage?, hwith, kind]
    · simpa only [Decl.params, hwith, kind] using hq
  | item d => exact fun f q hq => ⟨(hs f q hq).lt, (hs f q hq).storage⟩

/-- The parameters of a function are parameters in every draft. -/
theorem Reachable.parameters (h : Reachable tokens s) :
    ∀ f, ∀ q ∈ (s.program.decl f).params, s.program.IsParameter q := by
  refine h.induction (P := fun draft => ∀ f, ∀ q ∈ (draft.program.decl f).params,
    draft.program.IsParameter q) (fun f q hq => ?_) Step.parameters
  simp [Program.decl, Program.empty, Array.getD, default, Decl.params] at hq

end Draft

end MiniC
