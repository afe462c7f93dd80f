import MiniC.Proofs.Occurrence

/-!
# Programs that grow

A parser only adds nodes. `Program.Extends p q` says that `q` is `p` with nodes added, where no
added expression refers to an expression of `p`. A program is a tree (`Program.Tree`) if operands
come before the expression that refers to them and no expression is referred to twice. Adding an
expression keeps this, as long as its operands were free (`Program.Free`), that is, referred to by
nothing so far. In a tree the parentheses around an expression can all be stripped
(`Program.Tree.stripParens_paren`).
-/

set_option autoImplicit false

namespace MiniC.Program

variable {p q r : Program}

/-! ## Nodes of extended tables -/

theorem operands_of_size_le {e : ExprId} (h : p.exprs.size ≤ e.index) : p.operands e = [] := by
  simp [operands, expr, Array.getD, Nat.not_lt.2 h, default, ExprKind.operands]

/-- What has operands is an expression of the program. -/
theorem lt_size_of_mem_operands {e c : ExprId} (h : c ∈ p.operands e) :
    e.index < p.exprs.size := by
  refine Nat.lt_of_not_le fun hle => ?_
  rw [operands_of_size_le hle] at h
  simp at h

/-- A new expression has the operands that it was given. -/
theorem operands_pushExpr_self (node : Expr) :
    (p.pushExpr node).1.operands (p.pushExpr node).2 = node.kind.operands := by
  rw [operands, expr_pushExpr_self]

/-- The other expressions have their operands. -/
theorem operands_pushExpr_of_ne (node : Expr) {e : ExprId} (h : e ≠ (p.pushExpr node).2) :
    (p.pushExpr node).1.operands e = p.operands e := by
  by_cases hlt : e.index < p.exprs.size
  · rw [operands, expr_pushExpr_of_lt p node hlt, operands]
  · have hsize : (p.pushExpr node).1.exprs.size = p.exprs.size + 1 := Array.size_push _
    have hne : e.index ≠ p.exprs.size := fun heq => h (congrArg ExprId.mk heq)
    rw [operands_of_size_le (by omega), operands_of_size_le (by omega)]

/-! ## Extensions -/

/-- `q` is `p` with nodes added. Variables of `p` are kept as they are and functions stay functions;
added expressions do not refer to those of `p`. -/
structure Extends (p q : Program) : Prop where
  exprs : p.exprs.size ≤ q.exprs.size
  expr : ∀ {e : ExprId}, e.index < p.exprs.size → q.expr e = p.expr e
  operands : ∀ {e c : ExprId}, p.exprs.size ≤ e.index → c ∈ q.operands e → p.exprs.size ≤ c.index
  stmts : p.stmts.size ≤ q.stmts.size
  stmt : ∀ {id : StmtId}, id.index < p.stmts.size → q.stmt id = p.stmt id
  decls : p.decls.size ≤ q.decls.size
  nonFunctions : ∀ {d : DeclId}, d.index < p.decls.size → (p.decl d).isFunction = false →
    q.decl d = p.decl d
  functions : ∀ {d : DeclId}, d.index < p.decls.size → (p.decl d).isFunction = true →
    (q.decl d).isFunction = true

theorem Extends.refl (p : Program) : p.Extends p where
  exprs := Nat.le_refl _
  expr _ := rfl
  operands he hc := absurd (lt_size_of_mem_operands hc) (Nat.not_lt.2 he)
  stmts := Nat.le_refl _
  stmt _ := rfl
  decls := Nat.le_refl _
  nonFunctions _ _ := rfl
  functions _ h := h

/-- Programs may be extended in two steps. -/
theorem Extends.trans (hpq : p.Extends q) (hqr : q.Extends r) : p.Extends r where
  exprs := Nat.le_trans hpq.exprs hqr.exprs
  expr he := (hqr.expr (Nat.lt_of_lt_of_le he hpq.exprs)).trans (hpq.expr he)
  operands {e c} he hc := by
    by_cases hlt : e.index < q.exprs.size
    · rw [Program.operands, hqr.expr hlt] at hc
      exact hpq.operands he hc
    · exact Nat.le_trans hpq.exprs (hqr.operands (Nat.le_of_not_lt hlt) hc)
  stmts := Nat.le_trans hpq.stmts hqr.stmts
  stmt hid := (hqr.stmt (Nat.lt_of_lt_of_le hid hpq.stmts)).trans (hpq.stmt hid)
  decls := Nat.le_trans hpq.decls hqr.decls
  nonFunctions {d} hd hv := by
    have h := hpq.nonFunctions hd hv
    exact (hqr.nonFunctions (Nat.lt_of_lt_of_le hd hpq.decls) (h ▸ hv)).trans h
  functions hd hf := hqr.functions (Nat.lt_of_lt_of_le hd hpq.decls) (hpq.functions hd hf)

/-- Old expressions keep their operands. -/
theorem Extends.operands_eq (h : p.Extends q) {e : ExprId} (he : e.index < p.exprs.size) :
    q.operands e = p.operands e := by
  rw [Program.operands, h.expr he, Program.operands]

/-! ## Trees -/

/-- No expression refers to `e`. -/
def Free (p : Program) (e : ExprId) : Prop := ∀ f, e ∉ p.operands f

/-- Operands come before the expression that refers to them, and are referred to once. -/
structure Tree (p : Program) : Prop where
  lt : ∀ {e c : ExprId}, c ∈ p.operands e → c.index < e.index
  unique : ∀ {e f c : ExprId}, c ∈ p.operands e → c ∈ p.operands f → e = f
  nodup : ∀ e, (p.operands e).Nodup

/-- A program without nodes is a tree. -/
theorem tree_empty : empty.Tree := by
  have hnil : ∀ e, empty.operands e = [] := fun e => operands_of_size_le (Nat.zero_le _)
  constructor <;> simp [hnil]

/-- What is inside an expression comes before it, or is the expression. -/
theorem Tree.index_le (h : p.Tree) {e f : ExprId} (hc : p.Contains e f) : f.index ≤ e.index := by
  induction hc with
  | self => exact Nat.le_refl _
  | operand ho _ ih => exact Nat.le_trans ih (Nat.le_of_lt (h.lt ho))

/-- Whatever contains an operand of `e` and is not that operand contains `e`. -/
theorem Tree.contains_parent (h : p.Tree) {e f c : ExprId} (hf : p.Contains f c)
    (hc : c ∈ p.operands e) (hne : f ≠ c) : p.Contains f e := by
  induction hf with
  | self => exact absurd rfl hne
  | @operand f g c ho hg ih =>
    by_cases hgc : g = c
    · subst hgc
      rw [h.unique ho hc]
      exact .self e
    · exact .operand ho (ih hc hgc)

/-- An operand does not contain another operand of the same expression. -/
theorem Tree.not_contains_sibling (h : p.Tree) {e c d : ExprId} (hc : c ∈ p.operands e)
    (hd : d ∈ p.operands e) (hne : c ≠ d) : ¬ p.Contains c d := by
  intro hcd
  have hle := h.index_le (h.contains_parent hcd hd hne)
  have hlt := h.lt hc
  omega

/-- What nothing refers to is referred to by nothing that is added. -/
theorem Free.extends (h : p.Extends q) {e : ExprId} (he : e.index < p.exprs.size) (hf : p.Free e) :
    q.Free e := by
  intro f hmem
  by_cases hlt : f.index < p.exprs.size
  · exact hf f (h.operands_eq hlt ▸ hmem)
  · exact absurd (h.operands (Nat.le_of_not_lt hlt) hmem) (Nat.not_le.2 he)

/-- A program that keeps the expressions of a tree keeps what lies inside them. -/
theorem Tree.contains_of_expr_eq (ht : p.Tree)
    (hpq : ∀ {e : ExprId}, e.index < p.exprs.size → q.expr e = p.expr e) {e f : ExprId}
    (hc : q.Contains e f) (he : e.index < p.exprs.size) : p.Contains e f := by
  induction hc with
  | self => exact .self _
  | operand ho _ ih =>
    rw [operands, hpq he] at ho
    exact .operand ho (ih (Nat.lt_trans (ht.lt ho) he))

/-- What lies inside an added expression is added. -/
theorem Extends.size_le_of_contains (h : p.Extends q) {e f : ExprId} (hc : q.Contains e f)
    (he : p.exprs.size ≤ e.index) : p.exprs.size ≤ f.index := by
  induction hc with
  | self => exact he
  | operand ho _ ih => exact ih (h.operands he ho)

/-! ## Parentheses -/

variable {e : ExprId}

theorem stripParensWithin_eq_self (h : ∀ inner, (p.expr e).kind ≠ .paren inner) (bound : Nat) :
    p.stripParensWithin bound e = e := by
  cases bound with
  | zero => rfl
  | succ bound =>
    unfold stripParensWithin
    split
    · next inner hk => exact absurd hk (h inner)
    · rfl

/-- Any bound from the position of an expression on strips all parentheses. -/
theorem Tree.stripParensWithin_eq (hp : p.Tree) {m n : Nat} (hm : e.index ≤ m) (hn : e.index ≤ n) :
    p.stripParensWithin m e = p.stripParensWithin n e := by
  induction m generalizing e n with
  | zero =>
    rw [stripParensWithin_eq_self, stripParensWithin_eq_self] <;>
    · intro inner hk
      have hlt : inner.index < e.index := hp.lt (mem_operands hk List.mem_cons_self)
      omega
  | succ m ih =>
    by_cases hparen : ∃ inner, (p.expr e).kind = .paren inner
    · obtain ⟨inner, hk⟩ := hparen
      have hlt : inner.index < e.index := hp.lt (mem_operands hk List.mem_cons_self)
      obtain ⟨n, rfl⟩ := Nat.exists_eq_succ_of_ne_zero (show n ≠ 0 by omega)
      simp only [stripParensWithin, hk]
      exact ih (by omega) (by omega)
    · have hself := stripParensWithin_eq_self fun inner hk => hparen ⟨inner, hk⟩
      rw [hself, hself]

/-- Parentheses around an expression are stripped. -/
theorem Tree.stripParens_paren (hp : p.Tree) {inner : ExprId}
    (hk : (p.expr e).kind = .paren inner) :
    p.stripParens e = p.stripParens inner := by
  have hmem : inner ∈ p.operands e := mem_operands hk List.mem_cons_self
  have hsize := lt_size_of_mem_operands hmem
  have hlt := hp.lt hmem
  obtain ⟨n, hn⟩ := Nat.exists_eq_succ_of_ne_zero (show p.exprs.size ≠ 0 by omega)
  calc p.stripParens e = p.stripParensWithin (n + 1) e := by rw [stripParens, hn]
    _ = p.stripParensWithin n inner := by simp only [stripParensWithin, hk]
    _ = p.stripParens inner := hp.stripParensWithin_eq (by omega) (by omega)

/-- An expression that is no pair of parentheses has none to be stripped. -/
theorem stripParens_eq_self (h : ∀ inner, (p.expr e).kind ≠ .paren inner) : p.stripParens e = e :=
  stripParensWithin_eq_self h _

theorem Tree.stripParensWithin_index_le (hp : p.Tree) (bound : Nat) :
    (p.stripParensWithin bound e).index ≤ e.index := by
  induction bound generalizing e with
  | zero => exact Nat.le_refl _
  | succ bound ih =>
    unfold stripParensWithin
    split
    · next inner hk =>
      have hlt : inner.index < e.index := hp.lt (mem_operands hk List.mem_cons_self)
      exact Nat.le_trans ih (Nat.le_of_lt hlt)
    · exact Nat.le_refl _

/-- What is left without parentheses is inside the expression. -/
theorem contains_stripParensWithin (bound : Nat) : p.Contains e (p.stripParensWithin bound e) := by
  induction bound generalizing e with
  | zero => exact .self e
  | succ bound ih =>
    unfold stripParensWithin
    split
    · next inner hk => exact .operand (mem_operands hk List.mem_cons_self) ih
    · exact .self e

end MiniC.Program
