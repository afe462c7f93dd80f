import MiniC.Proofs.ExpressionTree

/-!
# Well-formed programs

In a well-formed program the expressions form trees, and what a statement or an initialiser refers
to is the root of one (`Program.WellFormed`). Adding a node keeps this, as long as a new statement
or a new initialiser refers to roots. What can be said of a node in every extension of a program
(`Program.Settled`) stays true while the rest of the program is read.
-/

set_option autoImplicit false

namespace MiniC

namespace Program

variable {p q r : Program}

/-! ## Nodes of changed tables -/

/-- A statement that is added is found under its id. -/
theorem stmt_pushStmt_self (p : Program) (s : Stmt) :
    (p.pushStmt s).1.stmt (p.pushStmt s).2 = s := by
  simp [stmt, pushStmt, Array.getD]

/-- The other statements are found as before. -/
theorem stmt_pushStmt_of_ne (p : Program) (s : Stmt) {id : StmtId} (h : id ≠ (p.pushStmt s).2) :
    (p.pushStmt s).1.stmt id = p.stmt id := by
  have hne : id.index ≠ p.stmts.size := fun heq => h (congrArg StmtId.mk heq)
  by_cases hlt : id.index < p.stmts.size
  · simp [stmt, pushStmt, Array.getD, hlt, Nat.lt_succ_of_lt hlt, Array.getElem_push_lt]
  · simp [stmt, pushStmt, Array.getD, hlt, show ¬ id.index < p.stmts.size + 1 by omega]

/-- A declaration that is added is found under its id. -/
theorem decl_pushDecl_self (p : Program) (d : Decl) :
    (p.pushDecl d).1.decl (p.pushDecl d).2 = d := by
  simp [decl, pushDecl, Array.getD]

theorem index_pushDecl_lt (p : Program) (d : Decl) :
    (p.pushDecl d).2.index < (p.pushDecl d).1.decls.size := by
  simp [pushDecl]

/-- The other declarations are found as before. -/
theorem decl_pushDecl_of_ne (p : Program) (d : Decl) {id : DeclId} (h : id ≠ (p.pushDecl d).2) :
    (p.pushDecl d).1.decl id = p.decl id := by
  have hne : id.index ≠ p.decls.size := fun heq => h (congrArg DeclId.mk heq)
  by_cases hlt : id.index < p.decls.size
  · simp [decl, pushDecl, Array.getD, hlt, Nat.lt_succ_of_lt hlt, Array.getElem_push_lt]
  · simp [decl, pushDecl, Array.getD, hlt, show ¬ id.index < p.decls.size + 1 by omega]

theorem decl_pushDecl_of_lt (p : Program) (d : Decl) {id : DeclId} (h : id.index < p.decls.size) :
    (p.pushDecl d).1.decl id = p.decl id :=
  decl_pushDecl_of_ne p d fun heq => Nat.lt_irrefl _ (heq ▸ h)

theorem size_modifyDecl (p : Program) (d : DeclId) (f : Decl → Decl) :
    (p.modifyDecl d f).decls.size = p.decls.size := Array.size_modify

/-- A declaration that is changed is found changed. -/
theorem decl_modifyDecl_self (p : Program) {d : DeclId} (f : Decl → Decl)
    (h : d.index < p.decls.size) : (p.modifyDecl d f).decl d = f (p.decl d) := by
  simp [decl, modifyDecl, Array.getD, h, Array.getElem_modify]

/-- The other declarations are not changed. -/
theorem decl_modifyDecl_of_ne (p : Program) {d id : DeclId} (f : Decl → Decl) (h : id ≠ d) :
    (p.modifyDecl d f).decl id = p.decl id := by
  have hne : d.index ≠ id.index := fun heq => h (congrArg DeclId.mk heq.symm)
  by_cases hlt : id.index < p.decls.size
  · simp [decl, modifyDecl, Array.getD, hlt, Array.getElem_modify, hne]
  · simp [decl, modifyDecl, Array.getD, hlt]

/-- What is no declaration of the program is no function. -/
theorem lt_size_of_isFunction {d : DeclId} (h : (p.decl d).isFunction = true) :
    d.index < p.decls.size := by
  refine Nat.lt_of_not_le fun hle => ?_
  simp [decl, Array.getD, Nat.not_lt.2 hle, default, Decl.isFunction] at h

/-! ## Extensions -/

/-- A program with one more statement extends it. -/
theorem extends_pushStmt (p : Program) (s : Stmt) : p.Extends (p.pushStmt s).1 where
  exprs := Nat.le_refl _
  expr _ := rfl
  operands he hc := (Extends.refl p).operands he hc
  stmts := by simp [pushStmt]
  stmt {id} hid := by
    refine stmt_pushStmt_of_ne p s fun heq => ?_
    rw [heq] at hid
    exact Nat.lt_irrefl _ hid
  decls := Nat.le_refl _
  nonFunctions _ _ := rfl
  functions _ h := h

/-- A program with one more declaration extends it. -/
theorem extends_pushDecl (p : Program) (d : Decl) : p.Extends (p.pushDecl d).1 where
  exprs := Nat.le_refl _
  expr _ := rfl
  operands he hc := (Extends.refl p).operands he hc
  stmts := Nat.le_refl _
  stmt _ := rfl
  decls := by simp [pushDecl]
  nonFunctions hid _ := decl_pushDecl_of_lt p d hid
  functions hid h := by
    rw [decl_pushDecl_of_lt p d hid]
    exact h

theorem extends_pushItem (p : Program) (item : Item) : p.Extends (p.pushItem item) :=
  { Extends.refl p with }

/-- Changing a declaration that is not one of `p`. -/
theorem Extends.modifyDecl (h : p.Extends q) {d : DeclId} (hd : p.decls.size ≤ d.index)
    (f : Decl → Decl) : p.Extends (q.modifyDecl d f) := by
  have hne {id : DeclId} (hid : id.index < p.decls.size) : id ≠ d := by
    rintro rfl
    exact Nat.not_lt.2 hd hid
  refine { h with
    decls := ?_
    nonFunctions := fun {id} hid hv => ?_
    functions := fun {id} hid hf => ?_ }
  · rw [size_modifyDecl]
    exact h.decls
  · rw [decl_modifyDecl_of_ne q f (hne hid), h.nonFunctions hid hv]
  · rw [decl_modifyDecl_of_ne q f (hne hid)]
    exact h.functions hid hf

/-- Changing a function so that it stays one. -/
theorem extends_modifyDecl (p : Program) {d : DeclId} {f : Decl → Decl}
    (hd : (p.decl d).isFunction = true) (hf : (f (p.decl d)).isFunction = true) :
    p.Extends (p.modifyDecl d f) := by
  refine { Extends.refl p with
    decls := Nat.le_of_eq (size_modifyDecl p d f).symm, nonFunctions := fun {id} _ hv => ?_,
    functions := fun {id} hid hid' => ?_ }
  · refine decl_modifyDecl_of_ne p f ?_
    rintro rfl
    rw [hd] at hv
    cases hv
  · by_cases heq : id = d
    · rw [heq, decl_modifyDecl_self p f (heq ▸ hid)]
      exact hf
    · rw [decl_modifyDecl_of_ne p f heq]
      exact hid'

/-- The program and all its extensions satisfy `P`. -/
def Settled (p : Program) (P : Program → Prop) : Prop := ∀ r, p.Extends r → P r

/-- What is settled stays so. -/
theorem Settled.extends {P : Program → Prop} (h : p.Settled P) (hpq : p.Extends q) : q.Settled P :=
  fun r hqr => h r (hpq.trans hqr)

/-! ## Roots -/

/-- An expression of the program that no expression refers to. -/
structure IsRoot (p : Program) (e : ExprId) : Prop where
  lt : e.index < p.exprs.size
  free : p.Free e

/-- A root stays one, since what is added refers to nothing that was there. -/
theorem IsRoot.extends {e : ExprId} (h : p.IsRoot e) (hpq : p.Extends q) : q.IsRoot e :=
  ⟨Nat.lt_of_lt_of_le h.lt hpq.exprs, h.free.extends hpq h.lt⟩

/-- Expressions form trees, and statements and initialisers refer to the roots of trees. -/
structure WellFormed (p : Program) : Prop where
  tree : p.Tree
  stmts : ∀ {id : StmtId} {e : ExprId}, e ∈ (p.stmt id).kind.exprs → p.IsRoot e
  inits : ∀ {d : DeclId} {e : ExprId}, (p.decl d).init? = some e → p.IsRoot e

/-- A program without nodes is well formed. -/
theorem wellFormed_empty : empty.WellFormed where
  tree := tree_empty
  stmts {id e} h := by simp [stmt, empty, Array.getD, default, StmtKind.exprs] at h
  inits {d e} h := by simp [decl, empty, Array.getD, default, Decl.init?] at h

/-- The expressions of a statement are roots. -/
theorem WellFormed.roots (h : p.WellFormed) {id : StmtId} {e : ExprId} (he : e ∈ p.roots id) :
    p.IsRoot e := by
  rcases List.mem_append.1 he with he | he
  · exact h.stmts he
  · obtain ⟨d, -, hd⟩ := List.mem_filterMap.1 he
    exact h.inits hd

/-- What is added to the expressions leaves statements and declarations as they are. -/
theorem WellFormed.grown {scopes : Scopes} (h : p.WellFormed) (hq : Parser.Grown scopes p q) :
    q.WellFormed where
  tree := hq.tree
  stmts {id e} he := by
    rw [stmt, hq.stmts] at he
    exact (h.stmts he).extends hq.extension
  inits {d e} hd := by
    rw [decl, hq.decls] at hd
    exact (h.inits hd).extends hq.extension

/-- A statement whose expressions are roots may be added. -/
theorem WellFormed.pushStmt (h : p.WellFormed) {s : Stmt} (hs : ∀ e ∈ s.kind.exprs, p.IsRoot e) :
    (p.pushStmt s).1.WellFormed where
  tree := ⟨h.tree.lt, h.tree.unique, h.tree.nodup⟩
  stmts {id e} he := by
    by_cases hid : id = (p.pushStmt s).2
    · rw [hid, stmt_pushStmt_self] at he
      exact (hs e he).extends (extends_pushStmt p s)
    · rw [stmt_pushStmt_of_ne p s hid] at he
      exact (h.stmts he).extends (extends_pushStmt p s)
  inits hd := (h.inits hd).extends (extends_pushStmt p s)

/-- A declaration is added without an initialiser. -/
theorem WellFormed.pushDecl (h : p.WellFormed) {d : Decl} (hd : d.init? = none) :
    (p.pushDecl d).1.WellFormed where
  tree := ⟨h.tree.lt, h.tree.unique, h.tree.nodup⟩
  stmts he := (h.stmts he).extends (extends_pushDecl p d)
  inits {id e} he := by
    by_cases hid : id = (p.pushDecl d).2
    · rw [hid, decl_pushDecl_self, hd] at he
      cases he
    · rw [decl_pushDecl_of_ne p d hid] at he
      exact (h.inits he).extends (extends_pushDecl p d)

/-- A declaration may be changed if its initialiser is a root. -/
theorem WellFormed.modifyDecl (h : p.WellFormed) {d : DeclId} {f : Decl → Decl}
    (hf : ∀ e, (f (p.decl d)).init? = some e → p.IsRoot e) : (p.modifyDecl d f).WellFormed where
  tree := ⟨h.tree.lt, h.tree.unique, h.tree.nodup⟩
  stmts he := ⟨(h.stmts he).lt, (h.stmts he).free⟩
  inits {id e} he := by
    by_cases hid : id = d ∧ d.index < p.decls.size
    · rw [hid.1, decl_modifyDecl_self p f hid.2] at he
      exact ⟨(hf e he).lt, (hf e he).free⟩
    · have hsame : (p.modifyDecl d f).decl id = p.decl id := by
        by_cases hne : id = d
        · have hge : ¬ id.index < p.decls.size := fun hlt => hid ⟨hne, hne ▸ hlt⟩
          simp [decl, Array.getD, size_modifyDecl, hge]
        · exact decl_modifyDecl_of_ne p f hne
      rw [hsame] at he
      exact ⟨(h.inits he).lt, (h.inits he).free⟩

end Program

end MiniC
