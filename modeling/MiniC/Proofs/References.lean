import MiniC.Proofs.Construction

/-!
# References in drafts

In every draft the references are balanced (`Draft.Balanced`): each part of the program is either
loose or referred to, and exactly once, apart from the roots of expressions whose size is asked for,
which are neither. Ids are in bounds, and nodes come after the nodes that they refer to
(`Program.Bounded`).
-/

set_option autoImplicit false

namespace MiniC

namespace Program

/-- The root of an expression whose size is asked for: the node that asks comes next and has taken
its type. -/
def IsSizeofOperand (p : Program) (tokens : List Token) (e : ExprId) : Prop :=
  (p.expr ⟨e.index + 1⟩).kind = .sizeOf (p.expr e).type ∧
    SizesExpression tokens (p.expr ⟨e.index + 1⟩).loc

/-- A part of the program that is to be referred to once. -/
def Due (p : Program) (tokens : List Token) (x : Part) : Prop :=
  p.Has x ∧ ∀ e, x = .expr e → ¬ p.IsSizeofOperand tokens e

variable {p q : Program} {tokens : List Token} {x : Part}

/-- A new expression leaves the others. -/
theorem expr_pushExpr_of_ne (node : Expr) {e : ExprId} (h : e ≠ (p.pushExpr node).2) :
    (p.pushExpr node).1.expr e = p.expr e := by
  have hne : e.index ≠ p.exprs.size := fun heq => h (congrArg ExprId.mk heq)
  by_cases hlt : e.index < p.exprs.size
  · exact expr_pushExpr_of_lt p node hlt
  · simp [expr, pushExpr, Array.getD, hlt, show ¬ e.index < p.exprs.size + 1 by omega]

/-- Behind the last expression there are only default ones. -/
theorem expr_of_size_le {e : ExprId} (h : p.exprs.size ≤ e.index) : p.expr e = default := by
  simp [expr, Array.getD, Nat.not_lt.2 h]

/-- The last expression is asked for its size by none so far. -/
theorem not_isSizeofOperand_of_size_le {e : ExprId} (h : p.exprs.size ≤ e.index + 1) :
    ¬ p.IsSizeofOperand tokens e := by
  rintro ⟨hkind, -⟩
  rw [expr_of_size_le h] at hkind
  cases hkind

/-! ## What is due after a step -/

/-- A new expression is the only new part. -/
theorem has_pushExpr (node : Expr) :
    (p.pushExpr node).1.Has x ↔ p.Has x ∨ x = .expr (p.pushExpr node).2 := by
  cases x with
  | expr e =>
    rw [Part.expr.injEq]
    have heq : e = (p.pushExpr node).2 ↔ e.index = p.exprs.size :=
      ⟨congrArg ExprId.index, congrArg ExprId.mk⟩
    have hsize : (p.pushExpr node).1.exprs.size = p.exprs.size + 1 := Array.size_push _
    change e.index < (p.pushExpr node).1.exprs.size ↔ e.index < p.exprs.size ∨
      e = (p.pushExpr node).2
    rw [hsize, heq]
    omega
  | stmt id => simp [Has, pushExpr]
  | localVar d => simp [Has, pushExpr, decl]
  | globalVar d => simp [Has, pushExpr, decl]

/-- A new expression may ask for the size of the one before it. -/
theorem isSizeofOperand_pushExpr (node : Expr) {e : ExprId} :
    (p.pushExpr node).1.IsSizeofOperand tokens e ↔
      p.IsSizeofOperand tokens e ∨ e.index + 1 = p.exprs.size ∧
        node.kind = .sizeOf (p.expr e).type ∧ SizesExpression tokens node.loc := by
  have hsize : (p.pushExpr node).1.exprs.size = p.exprs.size + 1 := Array.size_push _
  by_cases hlt : e.index + 1 < p.exprs.size
  · have hself : (p.pushExpr node).1.expr e = p.expr e :=
      expr_pushExpr_of_lt p node (Nat.lt_of_succ_lt hlt)
    have hnext : (p.pushExpr node).1.expr ⟨e.index + 1⟩ = p.expr ⟨e.index + 1⟩ :=
      expr_pushExpr_of_lt p node hlt
    have hne : e.index + 1 ≠ p.exprs.size := Nat.ne_of_lt hlt
    simp only [IsSizeofOperand, hself, hnext, hne, false_and, or_false]
  · have hold : ¬ p.IsSizeofOperand tokens e :=
      not_isSizeofOperand_of_size_le (Nat.le_of_not_lt hlt)
    by_cases heq : e.index + 1 = p.exprs.size
    · have hself : (p.pushExpr node).1.expr e = p.expr e := expr_pushExpr_of_lt p node (by omega)
      have hnext : (p.pushExpr node).1.expr ⟨e.index + 1⟩ = node := by
        rw [heq]
        exact expr_pushExpr_self p node
      simp only [hold, false_or, heq, true_and]
      rw [IsSizeofOperand, hself, hnext]
    · have hnew : ¬ (p.pushExpr node).1.IsSizeofOperand tokens e :=
        not_isSizeofOperand_of_size_le (by omega)
      simp only [hold, hnew, heq, false_and, or_false]

/-- After a node was added, it is due; the node before it no longer is if its size is asked for. -/
theorem due_pushExpr (node : Expr) :
    (p.pushExpr node).1.Due tokens x ↔
      (p.Due tokens x ∧ ∀ e, x = .expr e → ¬ (e.index + 1 = p.exprs.size ∧
        node.kind = .sizeOf (p.expr e).type ∧ SizesExpression tokens node.loc)) ∨
      x = .expr (p.pushExpr node).2 := by
  simp only [Due, has_pushExpr, isSizeofOperand_pushExpr, not_or]
  constructor
  · rintro ⟨hx | hx, hsizes⟩
    · exact .inl ⟨⟨hx, fun e he => (hsizes e he).1⟩, fun e he => (hsizes e he).2⟩
    · exact .inr hx
  · rintro (⟨⟨hx, hold⟩, hnew⟩ | rfl)
    · exact ⟨.inl hx, fun e he => ⟨hold e he, hnew e he⟩⟩
    · refine ⟨.inr rfl, fun e he => ?_⟩
      cases he
      exact ⟨not_isSizeofOperand_of_size_le (Nat.le_succ _), fun h => Nat.succ_ne_self _ h.1⟩

/-- Where the expressions stay as they are, the same parts are due as far as the program has
them. -/
theorem due_of_has {added : List Part} (hhas : ∀ x, q.Has x ↔ p.Has x ∨ x ∈ added)
    (hexprs : q.exprs = p.exprs) (hadded : ∀ e, .expr e ∉ added) :
    q.Due tokens x ↔ p.Due tokens x ∨ x ∈ added := by
  have hsizes : ∀ e, q.IsSizeofOperand tokens e ↔ p.IsSizeofOperand tokens e := by
    intro e
    unfold IsSizeofOperand expr
    rw [hexprs]
  simp only [Due, hhas, hsizes]
  constructor
  · rintro ⟨hx | hx, hold⟩
    · exact .inl ⟨hx, hold⟩
    · exact .inr hx
  · rintro (⟨hx, hold⟩ | hx)
    · exact ⟨.inl hx, hold⟩
    · refine ⟨.inr hx, ?_⟩
      rintro e rfl
      exact absurd hx (hadded e)

/-- Whether a part is due depends on the parts and the expressions. -/
theorem due_congr (hhas : ∀ x, q.Has x ↔ p.Has x) (hexprs : q.exprs = p.exprs) :
    q.Due tokens x ↔ p.Due tokens x := by
  have hnone : ∀ x, q.Has x ↔ p.Has x ∨ x ∈ ([] : List Part) := by simpa using hhas
  simpa using due_of_has hnone hexprs (by simp)

/-- A new statement is the only new part. -/
theorem has_pushStmt (node : Stmt) :
    (p.pushStmt node).1.Has x ↔ p.Has x ∨ x ∈ [Part.stmt (p.pushStmt node).2] := by
  rw [List.mem_singleton]
  cases x with
  | stmt id =>
    rw [Part.stmt.injEq]
    have heq : id = (p.pushStmt node).2 ↔ id.index = p.stmts.size :=
      ⟨congrArg StmtId.index, congrArg StmtId.mk⟩
    have hsize : (p.pushStmt node).1.stmts.size = p.stmts.size + 1 := Array.size_push _
    change id.index < (p.pushStmt node).1.stmts.size ↔ id.index < p.stmts.size ∨
      id = (p.pushStmt node).2
    rw [hsize, heq]
    omega
  | expr e => simp [Has, pushStmt]
  | localVar d => simp [Has, pushStmt, decl]
  | globalVar d => simp [Has, pushStmt, decl]

theorem hasVariable_pushDecl (new : Decl) (storage : Storage) {d : DeclId} :
    (d.index < (p.pushDecl new).1.decls.size ∧
      ((p.pushDecl new).1.decl d).storage? = some storage) ↔
      (d.index < p.decls.size ∧ (p.decl d).storage? = some storage) ∨
        d = (p.pushDecl new).2 ∧ new.storage? = some storage := by
  have hsize : (p.pushDecl new).1.decls.size = p.decls.size + 1 := Array.size_push _
  by_cases heq : d = (p.pushDecl new).2
  · subst heq
    have hin : (p.pushDecl new).2.index < p.decls.size + 1 := Nat.lt_succ_self _
    have hout : ¬ (p.pushDecl new).2.index < p.decls.size := Nat.lt_irrefl _
    rw [hsize, decl_pushDecl_self]
    simp only [hin, hout, true_and, false_and, false_or]
  · have hindex : d.index ≠ p.decls.size := fun h => heq (congrArg DeclId.mk h)
    have hlt : d.index < p.decls.size + 1 ↔ d.index < p.decls.size := by omega
    rw [hsize, decl_pushDecl_of_ne p new heq, hlt]
    simp only [heq, false_and, or_false]

/-- A new variable is a part of its function or of the file. -/
theorem has_pushVariable (name : String) (type : CType) (storage : Storage) (loc : Location) :
    (p.pushDecl ⟨name, .variable type none storage, loc⟩).1.Has x ↔
      p.Has x ∨ x ∈ storage.parts (p.pushDecl ⟨name, .variable type none storage, loc⟩).2 := by
  cases x with
  | expr e => cases storage <;> simp [Has, pushDecl, Storage.parts]
  | stmt id => cases storage <;> simp [Has, pushDecl, Storage.parts]
  | localVar d =>
    have h := hasVariable_pushDecl (p := p) ⟨name, .variable type none storage, loc⟩ .local (d := d)
    cases storage <;> simpa [Has, Storage.parts, Decl.storage?] using h
  | globalVar d =>
    have h :=
      hasVariable_pushDecl (p := p) ⟨name, .variable type none storage, loc⟩ .global (d := d)
    cases storage <;> simpa [Has, Storage.parts, Decl.storage?] using h

/-- A function is no part that is referred to once. -/
theorem has_pushFunction (name : String) (returnType : CType) (params : List DeclId)
    (loc : Location) :
    (p.pushDecl ⟨name, .function returnType params none, loc⟩).1.Has x ↔ p.Has x := by
  cases x with
  | expr e => exact Iff.rfl
  | stmt id => exact Iff.rfl
  | localVar d =>
    have h :=
      hasVariable_pushDecl (p := p) ⟨name, .function returnType params none, loc⟩ .local (d := d)
    simpa [Has, Decl.storage?] using h
  | globalVar d =>
    have h :=
      hasVariable_pushDecl (p := p) ⟨name, .function returnType params none, loc⟩ .global (d := d)
    simpa [Has, Decl.storage?] using h

/-- An item adds no part. -/
theorem has_pushItem (item : Item) : (p.pushItem item).Has x ↔ p.Has x := by
  cases x <;> exact Iff.rfl

/-- A declaration that is changed is the same part, if its storage stays. -/
theorem has_modifyDecl {d : DeclId} {f : Decl → Decl} (hlt : d.index < p.decls.size)
    (hf : (f (p.decl d)).storage? = (p.decl d).storage?) : (p.modifyDecl d f).Has x ↔ p.Has x := by
  have hstorage (id : DeclId) : ((p.modifyDecl d f).decl id).storage? = (p.decl id).storage? := by
    by_cases heq : id = d
    · rw [heq, decl_modifyDecl_self p f hlt, hf]
    · rw [decl_modifyDecl_of_ne p f heq]
  cases x with
  | expr e => exact Iff.rfl
  | stmt id => exact Iff.rfl
  | localVar id => simp only [Has, size_modifyDecl, hstorage]
  | globalVar id => simp only [Has, size_modifyDecl, hstorage]

/-! ## Ids in bounds -/

/-- The ids of expressions and statements that a node refers to are smaller than its own, and those
of declarations are in bounds. -/
structure Bounded (p : Program) : Prop where
  operands : ∀ {e c : ExprId}, c ∈ p.operands e → c.index < e.index
  inner : ∀ {id i : StmtId}, i ∈ (p.stmt id).kind.inner → i.index < id.index
  names : ∀ {e : ExprId} {d : DeclId}, d ∈ (p.expr e).kind.names → d.index < p.decls.size
  params : ∀ {f d : DeclId}, d ∈ (p.decl f).params → d.index < p.decls.size
  items : ∀ {item : Item}, item ∈ p.items → item.decl.index < p.decls.size

theorem bounded_empty : empty.Bounded where
  operands h := by simp [operands, expr, empty, Array.getD, default, ExprKind.operands] at h
  inner h := by simp [stmt, empty, Array.getD, default, StmtKind.inner] at h
  names h := by simp [expr, empty, Array.getD, default, ExprKind.names] at h
  params h := by simp [decl, empty, Array.getD, default, Decl.params] at h
  items h := by simp [empty] at h

namespace Bounded

variable (h : p.Bounded)
include h

/-- A new expression may refer to what is there. -/
theorem pushExpr {node : Expr} (hoperands : ∀ c ∈ node.kind.operands, c.index < p.exprs.size)
    (hnames : ∀ d ∈ node.kind.names, d.index < p.decls.size) : (p.pushExpr node).1.Bounded where
  operands {e c} hc := by
    by_cases heq : e = (p.pushExpr node).2
    · rw [heq, operands_pushExpr_self] at hc
      rw [heq]
      exact hoperands c hc
    · rw [operands_pushExpr_of_ne node heq] at hc
      exact h.operands hc
  inner := h.inner
  names {e d} hd := by
    by_cases heq : e = (p.pushExpr node).2
    · rw [heq, expr_pushExpr_self] at hd
      exact hnames d hd
    · rw [expr_pushExpr_of_ne node heq] at hd
      exact h.names hd
  params := h.params
  items := h.items

/-- A new statement may refer to what is there. -/
theorem pushStmt {node : Stmt} (hinner : ∀ i ∈ node.kind.inner, i.index < p.stmts.size) :
    (p.pushStmt node).1.Bounded where
  operands := h.operands
  inner {id i} hi := by
    by_cases heq : id = (p.pushStmt node).2
    · rw [heq, stmt_pushStmt_self] at hi
      rw [heq]
      exact hinner i hi
    · rw [stmt_pushStmt_of_ne p node heq] at hi
      exact h.inner hi
  names := h.names
  params := h.params
  items := h.items

/-- A new function may have the parameters that are there. -/
theorem pushDecl {new : Decl} (hparams : ∀ d ∈ new.params, d.index < p.decls.size) :
    (p.pushDecl new).1.Bounded := by
  have hlater {d : DeclId} (hd : d.index < p.decls.size) :
      d.index < (p.pushDecl new).1.decls.size :=
    Nat.lt_of_lt_of_le hd (extends_pushDecl p new).decls
  refine ⟨h.operands, h.inner, fun hd => hlater (h.names hd), fun {f d} hd => ?_,
    fun hmem => hlater (h.items hmem)⟩
  by_cases heq : f = (p.pushDecl new).2
  · rw [heq, decl_pushDecl_self] at hd
    exact hlater (hparams d hd)
  · rw [decl_pushDecl_of_ne p new heq] at hd
    exact hlater (h.params hd)

/-- A function may get the parameters that are there. -/
theorem modifyDecl {d : DeclId} {f : Decl → Decl} (hlt : d.index < p.decls.size)
    (hparams : ∀ q ∈ (f (p.decl d)).params, q.index < p.decls.size) :
    (p.modifyDecl d f).Bounded := by
  have hsize : (p.modifyDecl d f).decls.size = p.decls.size := size_modifyDecl p d f
  refine ⟨h.operands, h.inner, fun hd => hsize ▸ h.names hd, fun {g q} hq => ?_,
    fun hmem => hsize ▸ h.items hmem⟩
  rw [hsize]
  by_cases heq : g = d
  · rw [heq, decl_modifyDecl_self p f hlt] at hq
    exact hparams q hq
  · rw [decl_modifyDecl_of_ne p f heq] at hq
    exact h.params hq

/-- An item may be of a declaration that is there. -/
theorem pushItem {item : Item} (hitem : item.decl.index < p.decls.size) :
    (p.pushItem item).Bounded where
  operands := h.operands
  inner := h.inner
  names := h.names
  params := h.params
  items {item'} hmem := by
    rcases Array.mem_push.1 hmem with hmem | rfl
    · exact h.items hmem
    · exact hitem

end Bounded

end Program

/-! ## Balanced references -/

namespace Draft

variable {tokens : List Token} {s t : Draft}

/-- How often a part is referred to or loose. -/
def count (draft : Draft) (x : Part) : Nat := draft.program.references.count x + draft.loose.count x

/-- Every part that is due is either loose or referred to, exactly once; all others are neither. -/
structure Balanced (tokens : List Token) (draft : Draft) : Prop where
  once : ∀ {x}, draft.program.Due tokens x → draft.count x = 1
  never : ∀ {x}, ¬ draft.program.Due tokens x → draft.count x = 0

/-- What is loose is due. -/
theorem Balanced.due (h : s.Balanced tokens) {x : Part} (hx : x ∈ s.loose) :
    s.program.Due tokens x := by
  by_contra hnot
  have hpos : 0 < s.loose.count x := Multiset.count_pos.2 hx
  have hzero := h.never hnot
  unfold count at hzero
  omega

/-- Where there are no parts, none is missing. -/
theorem balanced_empty : Balanced tokens ⟨.empty, 0⟩ where
  once {x} hx := by
    cases x <;> simp [Program.Due, Program.Has, Program.empty] at hx
  never _ := rfl

/-- A step that adds some parts to what is due and drops others keeps the balance if it changes the
counts accordingly. -/
theorem Balanced.change (h : s.Balanced tokens) (added dropped : List Part)
    (hadded : added.Nodup) (hnew : ∀ x ∈ added, ¬ s.program.Due tokens x)
    (hdropped : dropped.Nodup) (hold : ∀ x ∈ dropped, s.program.Due tokens x)
    (hdue : ∀ x, t.program.Due tokens x ↔ (s.program.Due tokens x ∧ x ∉ dropped) ∨ x ∈ added)
    (hcount : ∀ x, t.count x + dropped.count x = s.count x + added.count x) :
    t.Balanced tokens := by
  constructor
  · intro x hx
    have hx' := hcount x
    -- what is due now was due before and was not dropped, or was added
    rcases (hdue x).1 hx with ⟨hs, hnotdropped⟩ | hadd
    · have hnotadded : x ∉ added := fun hadd => hnew x hadd hs
      rw [h.once hs, List.count_eq_zero.2 hnotdropped, List.count_eq_zero.2 hnotadded] at hx'
      exact hx'
    · have hs := hnew x hadd
      have hnotdropped : x ∉ dropped := fun hdrop => hs (hold x hdrop)
      rw [h.never hs, List.count_eq_zero.2 hnotdropped, List.count_eq_one_of_mem hadded hadd] at hx'
      exact hx'
  · intro x hx
    have hx' := hcount x
    have hnotadded : x ∉ added := fun hadd => hx ((hdue x).2 (.inr hadd))
    rw [List.count_eq_zero.2 hnotadded] at hx'
    -- what is not due now was not due before either, or was dropped
    by_cases hs : s.program.Due tokens x
    · have hdrop : x ∈ dropped := by
        by_contra hnotdropped
        exact hx ((hdue x).2 (.inl ⟨hs, hnotdropped⟩))
      rw [h.once hs, List.count_eq_one_of_mem hdropped hdrop] at hx'
      omega
    · rw [h.never hs] at hx'
      omega

/-- A step that adds parts to what is due. -/
theorem Balanced.add (h : s.Balanced tokens) (added : List Part) (hadded : added.Nodup)
    (hnew : ∀ x ∈ added, ¬ s.program.Due tokens x)
    (hdue : ∀ x, t.program.Due tokens x ↔ s.program.Due tokens x ∨ x ∈ added)
    (hcount : ∀ x, t.count x = s.count x + added.count x) : t.Balanced tokens :=
  h.change added [] hadded hnew .nil (by simp) (by simpa using hdue) (by simpa using hcount)

/-- A step that changes nothing about what is due. -/
theorem Balanced.same (h : s.Balanced tokens)
    (hdue : ∀ x, t.program.Due tokens x ↔ s.program.Due tokens x)
    (hcount : ∀ x, t.count x = s.count x) : t.Balanced tokens :=
  h.add [] .nil (by simp) (by simpa using hdue) (by simpa using hcount)

/-- The references of a draft are balanced and its ids are in bounds. -/
structure Sound (tokens : List Token) (draft : Draft) : Prop where
  balanced : draft.Balanced tokens
  bounded : draft.program.Bounded

section Steps

variable {p : Program} {loose : Multiset Part}

/-- A loose part is one that is to be referred to. -/
theorem Sound.due {x : Part} (h : Sound tokens s) (hx : x ∈ s.loose) : s.program.Due tokens x :=
  h.balanced.due hx

/-- A node that takes up its operands. -/
theorem Sound.expr {node : Expr} (h : Sound tokens ⟨p, ↑node.kind.parts + loose⟩)
    (names : ∀ d ∈ node.kind.names, d.index < p.decls.size)
    (type : ∀ type, node.kind = .sizeOf type → ¬ SizesExpression tokens node.loc) :
    Sound tokens ⟨(p.pushExpr node).1, .expr (p.pushExpr node).2 ::ₘ loose⟩ := by
  constructor
  · apply h.balanced.add [.expr (p.pushExpr node).2] (List.nodup_singleton _)
    · rw [List.forall_mem_singleton]
      exact fun hdue => Nat.lt_irrefl _ hdue.1
    · intro x
      rw [Program.due_pushExpr, List.mem_singleton]
      have hplain : ∀ e, x = .expr e → ¬ (e.index + 1 = p.exprs.size ∧
          node.kind = .sizeOf (p.expr e).type ∧ SizesExpression tokens node.loc) :=
        fun e _ hsizes => type _ hsizes.2.1 hsizes.2.2
      rw [and_iff_left hplain]
    · intro x
      simp only [count, Program.count_references_pushExpr, count_cons_parts, Multiset.count_add,
        Multiset.coe_count]
      omega
  · refine h.bounded.pushExpr (fun c hc => ?_) names
    have hmem : Part.expr c ∈ (↑node.kind.parts + loose : Multiset Part) := by
      rw [Multiset.mem_add, Multiset.mem_coe]
      exact .inl (List.mem_map_of_mem hc)
    exact (h.due hmem).1

/-- A node that asks for the size of the expression before it. -/
theorem Sound.sizeOf {e : ExprId} {loc : Location} (h : Sound tokens ⟨p, .expr e ::ₘ loose⟩)
    (last : e.index + 1 = p.exprs.size) (sizes : SizesExpression tokens loc) :
    Sound tokens
      ⟨(p.pushExpr ⟨.sizeOf (p.expr e).type, .int, loc⟩).1, .expr ⟨p.exprs.size⟩ ::ₘ loose⟩ := by
  have hdue : p.Due tokens (.expr e) := h.due (Multiset.mem_cons_self _ _)
  constructor
  · apply h.balanced.change [.expr ⟨p.exprs.size⟩] [.expr e] (List.nodup_singleton _)
    · rw [List.forall_mem_singleton]
      exact fun hnew => Nat.lt_irrefl _ hnew.1
    · exact List.nodup_singleton _
    · rw [List.forall_mem_singleton]
      exact hdue
    · intro x
      rw [Program.due_pushExpr, List.mem_singleton, List.mem_singleton]
      have hplain : (∀ e', x = .expr e' → ¬ (e'.index + 1 = p.exprs.size ∧
          ExprKind.sizeOf (p.expr e).type = .sizeOf (p.expr e').type ∧
            SizesExpression tokens loc)) ↔
          x ≠ .expr e := by
        constructor
        · rintro hall rfl
          exact hall e rfl ⟨last, rfl, sizes⟩
        -- the operand is the last node, so its position identifies it
        · intro hne e' he' hsizes
          have hindex : e'.index = e.index := Nat.succ.inj (hsizes.1.trans last.symm)
          exact hne (he'.trans (congrArg (Part.expr ⟨·⟩) hindex))
      exact or_congr (and_congr_right fun _ => hplain) Iff.rfl
    · intro x
      simp only [count, Program.count_references_pushExpr, count_cons_parts, ExprKind.parts,
        ExprKind.operands, List.map_nil, List.count_nil]
      omega
  · exact h.bounded.pushExpr (by simp [ExprKind.operands]) (by simp [ExprKind.names])

/-- A statement that takes up its parts. -/
theorem Sound.stmt {node : Stmt} (h : Sound tokens ⟨p, ↑node.kind.parts + loose⟩) :
    Sound tokens ⟨(p.pushStmt node).1, .stmt (p.pushStmt node).2 ::ₘ loose⟩ := by
  constructor
  · apply h.balanced.add [.stmt (p.pushStmt node).2] (List.nodup_singleton _)
    · rw [List.forall_mem_singleton]
      exact fun hdue => Nat.lt_irrefl _ hdue.1
    · intro x
      exact Program.due_of_has (fun _ => Program.has_pushStmt node) rfl (by simp)
    · intro x
      simp only [count, Program.count_references_pushStmt, count_cons_parts, Multiset.count_add,
        Multiset.coe_count]
      omega
  · refine h.bounded.pushStmt fun i hi => ?_
    have hmem : Part.stmt i ∈ (↑node.kind.parts + loose : Multiset Part) := by
      rw [Multiset.mem_add, Multiset.mem_coe, StmtKind.parts, List.mem_append, List.mem_append]
      exact .inl (.inl (.inl (List.mem_map_of_mem hi)))
    exact (h.due hmem).1

/-- A variable that a function or the file is to take up. -/
theorem Sound.newVariable (h : Sound tokens ⟨p, loose⟩) (name : String) (type : CType)
    (storage : Storage) (loc : Location) :
    Sound tokens ⟨(p.pushDecl ⟨name, .variable type none storage, loc⟩).1,
      ↑(storage.parts ⟨p.decls.size⟩) + loose⟩ := by
  constructor
  · apply h.balanced.add (storage.parts ⟨p.decls.size⟩)
    · cases storage <;> simp [Storage.parts]
    · rintro x hx ⟨hhas, -⟩
      cases storage <;> simp only [Storage.parts, List.mem_singleton, List.not_mem_nil] at hx
      · subst hx
        exact Nat.lt_irrefl _ hhas.1
      · subst hx
        exact Nat.lt_irrefl _ hhas.1
    · intro x
      refine Program.due_of_has (fun _ => Program.has_pushVariable name type storage loc)
        rfl fun e he => ?_
      cases storage <;> simp [Storage.parts] at he
    · intro x
      simp only [count, Program.count_references_pushDecl, Decl.parts,
        Option.toList_none, List.map_nil, List.count_nil, Multiset.count_add, Multiset.coe_count]
      omega
  · exact h.bounded.pushDecl (by simp [Decl.params])

/-- A declaration that is changed to refer to further parts. -/
theorem Sound.modifyDecl {d : DeclId} {f : Decl → Decl} (parts : List Part)
    (h : Sound tokens ⟨p, ↑parts + loose⟩) (lt : d.index < p.decls.size)
    (hstorage : (f (p.decl d)).storage? = (p.decl d).storage?)
    (hparts : (f (p.decl d)).parts = parts ++ (p.decl d).parts)
    (hparams : ∀ q ∈ (f (p.decl d)).params, q.index < p.decls.size) :
    Sound tokens ⟨p.modifyDecl d f, loose⟩ := by
  constructor
  · apply h.balanced.same
    · intro x
      exact Program.due_congr (fun _ => Program.has_modifyDecl lt hstorage) rfl
    · intro x
      have hcount := Program.count_references_modifyDecl x f lt
      rw [hparts, List.count_append] at hcount
      simp only [count, Multiset.count_add, Multiset.coe_count]
      omega
  · exact h.bounded.modifyDecl lt hparams

/-- A variable without an initialiser is given one. -/
theorem Sound.init {d : DeclId} {type : CType} {storage : Storage} {e : ExprId}
    (h : Sound tokens ⟨p, .expr e ::ₘ loose⟩) (lt : d.index < p.decls.size)
    (kind : (p.decl d).kind = .variable type none storage) :
    Sound tokens ⟨p.modifyDecl d (Decl.withInit e), loose⟩ := by
  have hwith : ((p.decl d).withInit e).kind = .variable type (some e) storage := by
    rw [Decl.withInit, kind]
  apply Sound.modifyDecl [.expr e] h lt
  · simp only [Decl.storage?, hwith, kind]
  · simp [Decl.parts, hwith, kind]
  · simp [Decl.params, hwith]

/-- A function without a body takes over other parameters. -/
theorem Sound.params {d : DeclId} {returnType : CType} {old params : List DeclId}
    (h : Sound tokens ⟨p, loose⟩) (loc : Location) (lt : d.index < p.decls.size)
    (kind : (p.decl d).kind = .function returnType old none)
    (bounds : ∀ q ∈ params, q.index < p.decls.size) :
    Sound tokens ⟨p.modifyDecl d (Decl.withParams params loc), loose⟩ := by
  have hwith : ((p.decl d).withParams params loc).kind = .function returnType params none := by
    rw [Decl.withParams, kind]
  apply Sound.modifyDecl [] (by simpa using h) lt
  · simp only [Decl.storage?, hwith, kind]
  · simp [Decl.parts, hwith, kind]
  · simpa [Decl.params, hwith] using bounds

/-- A function without a body is given one. -/
theorem Sound.body {d : DeclId} {returnType : CType} {params : List DeclId} {id : StmtId}
    (h : Sound tokens ⟨p, .stmt id ::ₘ loose⟩) (lt : d.index < p.decls.size)
    (kind : (p.decl d).kind = .function returnType params none) :
    Sound tokens ⟨p.modifyDecl d (Decl.withBody id), loose⟩ := by
  have hwith : ((p.decl d).withBody id).kind = .function returnType params (some id) := by
    rw [Decl.withBody, kind]
  apply Sound.modifyDecl [.stmt id] h lt
  · simp only [Decl.storage?, hwith, kind]
  · simp [Decl.parts, hwith, kind]
  · intro q hq
    have hold : q ∈ (p.decl d).params := by
      simp only [Decl.params, hwith] at hq
      simpa only [Decl.params, kind] using hq
    exact h.bounded.params hold

/-- A declaration that is added to those of the file. -/
theorem Sound.pushItem (item : Item) (h : Sound tokens ⟨p, ↑item.parts + loose⟩)
    (lt : item.decl.index < p.decls.size) : Sound tokens ⟨p.pushItem item, loose⟩ := by
  constructor
  · apply h.balanced.same
    · intro x
      exact Program.due_congr (fun _ => Program.has_pushItem item) rfl
    · intro x
      simp only [count, Program.count_references_pushItem, Multiset.count_add, Multiset.coe_count]
      omega
  · exact h.bounded.pushItem lt

/-- A function is added, with an item of its own. -/
theorem Sound.newFunction (h : Sound tokens ⟨p, loose⟩) (name : String) (returnType : CType)
    {params : List DeclId} (loc : Location) (bounds : ∀ q ∈ params, q.index < p.decls.size) :
    Sound tokens ⟨(p.pushDecl ⟨name, .function returnType params none, loc⟩).1.pushItem
      (.function ⟨p.decls.size⟩), loose⟩ := by
  have hpush :
      Sound tokens ⟨(p.pushDecl ⟨name, .function returnType params none, loc⟩).1, loose⟩ := by
    constructor
    · apply h.balanced.same
      · intro x
        exact Program.due_congr (fun _ => Program.has_pushFunction name returnType params loc) rfl
      · intro x
        simp [count, Program.count_references_pushDecl, Decl.parts]
    · exact h.bounded.pushDecl bounds
  apply Sound.pushItem (.function ⟨p.decls.size⟩) (by simpa [Item.parts] using hpush)
  exact Program.index_pushDecl_lt p _

end Steps

/-- Every step of the construction keeps the references balanced and the ids in bounds. -/
theorem Step.sound (h : Step tokens s t) (hs : s.Sound tokens) : t.Sound tokens := by
  cases h with
  | expr node names gives type => exact hs.expr names type
  | sizeOf last sizes => exact hs.sizeOf last sizes
  | stmt node => exact hs.stmt
  | newVariable name type storage loc => exact hs.newVariable name type storage loc
  | init e lt kind => exact hs.init lt kind
  | newFunction name returnType loc plain declared =>
    exact hs.newFunction name returnType loc fun q hq => (declared q hq).lt
  | params loc lt kind declared => exact hs.params loc lt kind fun q hq => (declared q hq).lt
  | body id lt kind => exact hs.body lt kind
  | item d => exact Sound.pushItem (.variable d) hs (hs.due (Multiset.mem_cons_self _ _)).1.1

/-- Every draft that can be reached is sound. -/
theorem Reachable.sound (h : Reachable tokens s) : s.Sound tokens :=
  h.induction ⟨balanced_empty, Program.bounded_empty⟩ Step.sound

end Draft

end MiniC
