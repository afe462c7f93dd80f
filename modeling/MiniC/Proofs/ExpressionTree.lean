import MiniC.Proofs.Arena
import MiniC.Proofs.ParserOutcome

/-!
# Reading an expression adds a tree

A parser for expressions adds nodes to the program and changes nothing else. The added nodes form
trees: each refers to earlier added nodes that nothing referred to before (`Parser.Grown`), the node
that the parser answers with is itself free (`Parser.Pending`), and every name refers to a
declaration that some scope around the reading position has (`Scopes.Has`). The levels of precedence
are parsers over the levels that operands lead back to, so each has one lemma, and
`expressionWithin` closes the circle by induction on its bound.
-/

set_option autoImplicit false

namespace MiniC

/-- Some scope around the reading position has the declaration. -/
def Scopes.Has (scopes : Scopes) (d : DeclId) : Prop :=
  ∃ scope ∈ scopes.inner ++ [scopes.file], ∃ name, (name, d) ∈ scope

/-- A name that is resolved is one of some scope. -/
theorem Scopes.has_of_resolve? {scopes : Scopes} {name : String} {d : DeclId}
    (h : scopes.resolve? name = some d) : scopes.Has d := by
  obtain ⟨scope, hmem, hlookup⟩ := List.exists_of_findSome?_eq_some h
  obtain ⟨l₁, l₂, rfl, -⟩ := List.lookup_eq_some_iff.1 hlookup
  exact ⟨_, hmem, name, by simp⟩

namespace Parser

variable {α : Type}

/-- `q` is `p` with expressions added that form trees and whose names are in scope. -/
structure Grown (scopes : Scopes) (p q : Program) : Prop where
  stmts : q.stmts = p.stmts
  decls : q.decls = p.decls
  items : q.items = p.items
  extension : p.Extends q
  tree : q.Tree
  names : ∀ {e : ExprId} {d : DeclId}, p.exprs.size ≤ e.index → (q.expr e).kind = .declRef d →
    scopes.Has d

/-- An added expression that nothing refers to. -/
structure Pending (p q : Program) (e : ExprId) : Prop where
  added : p.exprs.size ≤ e.index
  lt : e.index < q.exprs.size
  free : q.Free e

variable {scopes : Scopes} {p q r : Program} {s t : ParserState}

theorem Grown.refl (h : p.Tree) : Grown scopes p p where
  stmts := rfl
  decls := rfl
  items := rfl
  extension := .refl p
  tree := h
  names he hk := by
    simp [Program.expr, Array.getD, Nat.not_lt.2 he, default] at hk

/-- Trees may be added in two steps. -/
theorem Grown.trans (hpq : Grown scopes p q) (hqr : Grown scopes q r) : Grown scopes p r where
  stmts := hqr.stmts.trans hpq.stmts
  decls := hqr.decls.trans hpq.decls
  items := hqr.items.trans hpq.items
  extension := hpq.extension.trans hqr.extension
  tree := hqr.tree
  names {e d} he hk := by
    by_cases hlt : e.index < q.exprs.size
    · rw [hqr.extension.expr hlt] at hk
      exact hpq.names he hk
    · exact hqr.names (Nat.le_of_not_lt hlt) hk

/-- Nothing that is added later refers to an expression that is pending. -/
theorem Pending.later {e : ExprId} (h : Pending p q e) (hqr : q.Extends r) : Pending p r e :=
  ⟨h.added, Nat.lt_of_lt_of_le h.lt hqr.exprs, h.free.extends hqr h.lt⟩

/-- What was added in the second of two steps was added in both together. -/
theorem Pending.from_earlier {e : ExprId} (h : Pending q r e) (hpq : p.Extends q) : Pending p r e :=
  ⟨Nat.le_trans hpq.exprs h.added, h.lt, h.free⟩

/-! ## Adding an expression -/

/-- Adding an expression whose operands are pending keeps the tree; the new expression is
pending. -/
theorem Grown.pushExpr (h : Grown scopes p q) (node : Expr)
    (hops : ∀ c ∈ node.kind.operands, Pending p q c) (hnodup : node.kind.operands.Nodup)
    (hname : ∀ d, node.kind = .declRef d → scopes.Has d) :
    Grown scopes p (q.pushExpr node).1 ∧ Pending p (q.pushExpr node).1 (q.pushExpr node).2 := by
  have hsize : (q.pushExpr node).1.exprs.size = q.exprs.size + 1 := Array.size_push _
  have hself : (q.pushExpr node).1.operands (q.pushExpr node).2 = node.kind.operands :=
    Program.operands_pushExpr_self node
  have hother {e : ExprId} (he : e ≠ (q.pushExpr node).2) :
      (q.pushExpr node).1.operands e = q.operands e := Program.operands_pushExpr_of_ne node he
  have hle : p.exprs.size ≤ q.exprs.size := h.extension.exprs
  -- only the new node has the operands, which had no parent before
  refine ⟨⟨h.stmts, h.decls, h.items, ?_, ?_, ?_⟩, ⟨hle, ?_, ?_⟩⟩
  · refine { h.extension with
      exprs := by omega
      expr := fun {e} he => ?_
      operands := fun {e c} he hc => ?_ }
    · rw [Program.expr_pushExpr_of_lt q node (Nat.lt_of_lt_of_le he hle), h.extension.expr he]
    · by_cases hid : e = (q.pushExpr node).2
      · rw [hid, hself] at hc
        exact (hops c hc).added
      · rw [hother hid] at hc
        exact h.extension.operands he hc
  · refine ⟨fun {e c} hc => ?_, fun {e f c} he hf => ?_, fun e => ?_⟩
    · by_cases hid : e = (q.pushExpr node).2
      · rw [hid, hself] at hc
        exact hid ▸ (hops c hc).lt
      · rw [hother hid] at hc
        exact h.tree.lt hc
    -- of two parents of one node none can be new, since the node would have been free
    · by_cases hid : e = (q.pushExpr node).2 <;> by_cases hid' : f = (q.pushExpr node).2
      · rw [hid, hid']
      · rw [hid, hself] at he
        rw [hother hid'] at hf
        exact absurd hf ((hops c he).free f)
      · rw [hid', hself] at hf
        rw [hother hid] at he
        exact absurd he ((hops c hf).free e)
      · rw [hother hid] at he
        rw [hother hid'] at hf
        exact h.tree.unique he hf
    · by_cases hid : e = (q.pushExpr node).2
      · rw [hid, hself]
        exact hnodup
      · rw [hother hid]
        exact h.tree.nodup e
  · intro e d he hk
    by_cases hid : e = (q.pushExpr node).2
    · rw [hid, Program.expr_pushExpr_self] at hk
      exact hname d hk
    · by_cases hlt : e.index < q.exprs.size
      · rw [Program.expr_pushExpr_of_lt q node hlt] at hk
        exact h.names he hk
      · have hne : e.index ≠ q.exprs.size := fun heq => hid (congrArg ExprId.mk heq)
        simp [Program.expr, Array.getD,
          show ¬ e.index < (q.pushExpr node).1.exprs.size by omega, default] at hk
  · show q.exprs.size < (q.pushExpr node).1.exprs.size
    omega
  · intro f hmem
    by_cases hid : f = (q.pushExpr node).2
    · rw [hid, hself] at hmem
      exact Nat.lt_irrefl _ (hops _ hmem).lt
    · rw [hother hid] at hmem
      have hlt : q.exprs.size < f.index := h.tree.lt hmem
      have hlt' := Program.lt_size_of_mem_operands hmem
      omega

/-! ## Parsers of expressions -/

/-- What the parser of an expression has done when it answers with `e`. -/
structure ReadExpr (s : Built) (e : ExprId) (t : Built) : Prop where
  scopes : t.scopes = s.scopes
  grown : Grown s.scopes s.program t.program
  pending : Pending s.program t.program e

/-- The same for the parser of several expressions. -/
structure ReadExprs (s : Built) (es : List ExprId) (t : Built) : Prop where
  scopes : t.scopes = s.scopes
  grown : Grown s.scopes s.program t.program
  pending : ∀ e ∈ es, Pending s.program t.program e
  nodup : es.Nodup

/-- A parser that reads an expression into a tree. -/
abbrev ReadsExpr (x : Parser ExprId) : Prop := Reads (·.program.Tree) ReadExpr x

variable {b c d : Built} {e lhs rhs : ExprId}

/-- An expression that is read after others is pending beside them. -/
theorem ReadExpr.after (h : ReadExpr b lhs c) (h' : ReadExpr c rhs d) :
    ReadExpr b lhs d ∧ ReadExpr b rhs d ∧ lhs ≠ rhs := by
  have hgrown := h.grown.trans (h.scopes ▸ h'.grown)
  have hscopes := h'.scopes.trans h.scopes
  refine ⟨⟨hscopes, hgrown, h.pending.later h'.grown.extension⟩,
    ⟨hscopes, hgrown, h'.pending.from_earlier h.grown.extension⟩, ?_⟩
  rintro rfl
  exact Nat.not_lt.2 h'.pending.added h.pending.lt

/-- Expressions may be read one after the other. -/
theorem sequence_readExpr : Sequence (·.program.Tree) ReadExpr ReadExprs where
  keeps _ h := h.grown.tree
  nil hs := ⟨rfl, .refl hs, by simp, .nil⟩
  cons {s a t as u} h h' := by
    refine ⟨h'.scopes.trans h.scopes, h.grown.trans (h.scopes ▸ h'.grown), fun c hc => ?_, ?_⟩
    · rcases List.mem_cons.1 hc with rfl | hc
      · exact h.pending.later h'.grown.extension
      · exact (h'.pending c hc).from_earlier h.grown.extension
    · refine List.nodup_cons.2 ⟨fun hmem => ?_, h'.nodup⟩
      exact Nat.not_lt.2 (h'.pending a hmem).added h.pending.lt

/-- The names in an expression that was read were in scope, also after other nodes were added. -/
theorem ReadExpr.names (h : ReadExpr b e c) {r : Program}
    (hr : ∀ {f : ExprId}, f.index < c.program.exprs.size → r.expr f = c.program.expr f)
    {f : ExprId} (hf : r.Contains e f) {d : DeclId} (hk : (r.expr f).kind = .declRef d) :
    b.scopes.Has d := by
  have hin := h.grown.tree.contains_of_expr_eq hr hf h.pending.lt
  have hlt := Nat.lt_of_le_of_lt (h.grown.tree.index_le hin) h.pending.lt
  rw [hr hlt] at hk
  exact h.grown.names (h.grown.extension.size_le_of_contains hin h.pending.added) hk

/-! ## Nodes -/

/-- An expression may be added whose operands are pending and different. -/
theorem ensures_addExpr {kind : ExprKind} {type : CType} {loc : Location}
    (hscopes : s.scopes = b.scopes) (hgrown : Grown b.scopes b.program s.program)
    (hops : ∀ c ∈ kind.operands, Pending b.program s.program c) (hnodup : kind.operands.Nodup)
    (hname : ∀ d, kind = .declRef d → b.scopes.Has d) :
    Ensures (addExpr kind type loc) s fun e t => ReadExpr b e t.built :=
  have h := hgrown.pushExpr ⟨kind, type, loc⟩ hops hnodup hname
  ⟨hscopes, h.1, h.2⟩

/-- A node without operands that is not a name. -/
theorem ensures_addExpr_leaf {kind : ExprKind} {type : CType} {loc : Location}
    (hs : s.program.Tree) (hops : kind.operands = []) (hname : ∀ d, kind ≠ .declRef d) :
    Ensures (addExpr kind type loc) s fun e t => ReadExpr s.built e t.built :=
  ensures_addExpr rfl (.refl hs) (by simp [hops]) (by simp [hops]) fun d h => absurd h (hname d)

/-- A node with one operand. -/
theorem ensures_addExpr_one {kind : ExprKind} {type : CType} {loc : Location}
    (h : ReadExpr b e s.built) (hops : kind.operands = [e]) (hname : ∀ d, kind ≠ .declRef d) :
    Ensures (addExpr kind type loc) s fun e t => ReadExpr b e t.built := by
  refine ensures_addExpr h.scopes h.grown ?_ (by simp [hops]) fun d hd => absurd hd (hname d)
  rw [hops]
  exact List.forall_mem_singleton.2 h.pending

/-- A node with two operands. -/
theorem ensures_addExpr_two {kind : ExprKind} {type : CType} {loc : Location}
    (h : ReadExpr b lhs c) (h' : ReadExpr c rhs s.built) (hops : kind.operands = [lhs, rhs])
    (hname : ∀ d, kind ≠ .declRef d) :
    Ensures (addExpr kind type loc) s fun e t => ReadExpr b e t.built := by
  obtain ⟨hl, hr, hne⟩ := h.after h'
  refine ensures_addExpr hl.scopes hl.grown ?_ (by simp [hops, hne]) fun d hd => absurd hd (hname d)
  rw [hops]
  exact List.forall_mem_cons.2 ⟨hl.pending, List.forall_mem_singleton.2 hr.pending⟩

/-- An operator takes up its operand. -/
theorem ensures_addUnary {op : UnaryOp} {loc : Location} (h : ReadExpr b e s.built) :
    Ensures (addUnary op e loc) s fun e t => ReadExpr b e t.built :=
  (tokensOnly_typeOf e).ensures_bind fun _ _ => ensures_addExpr_one h rfl nofun

/-- An operator takes up both operands. -/
theorem ensures_addBinary {op : BinaryOp} {loc : Location} (h : ReadExpr b lhs c)
    (h' : ReadExpr c rhs s.built) :
    Ensures (addBinary op lhs rhs loc) s fun e t => ReadExpr b e t.built :=
  (tokensOnly_typeOf lhs).ensures_bind fun _ _ => (tokensOnly_typeOf rhs).ensures_bind fun _ _ =>
    ensures_addExpr_two h h' rfl nofun

/-! ## Levels -/

section Levels

variable {operandAt : OperandLevel → Parser ExprId} (h : ∀ level, ReadsExpr (operandAt level))
include h

/-- Arguments are read one after the other. -/
theorem reads_arguments : Reads (·.program.Tree) ReadExprs (arguments operandAt) := by
  refine .of_tokens (tokensOnly_check _) fun found s hs => ?_
  dsimp only
  split
  · rw [ensures_bind]
    exact (tokensOnly_expect _).ensures_bind fun _ _ => sequence_readExpr.nil hs
  · refine ((h .assignment).commaSeparated sequence_readExpr).ensures_bind hs fun es t hes => ?_
    exact (tokensOnly_expect _).ensures_bind fun _ _ => hes

omit h in
/-- Resolving a name finds a declaration in scope, and adds nothing. -/
theorem ensures_resolve {name : String} {loc : Location} :
    Ensures (resolve name loc) s fun d t => t = s ∧ s.scopes.Has d := by
  unfold resolve
  rw [ensures_bind, ensures_get]
  split
  · next d hd => exact ⟨rfl, Scopes.has_of_resolve? hd⟩
  · exact ensures_fail

/-- A name that is used or called is in scope. -/
theorem readsExpr_reference (name : String) (loc : Location) :
    ReadsExpr (reference operandAt name loc) := by
  intro s hs
  unfold reference
  rw [ensures_bind]
  refine ensures_resolve.mono fun d t ht => ?_
  obtain ⟨rfl, hd⟩ := ht
  refine (tokensOnly_check _).ensures_bind fun found _ => ?_
  split
  · refine (tokensOnly_declOf d).ensures_bind fun decl _ => ?_
    dsimp only
    split
    · refine tokensOnly_advance.ensures_bind fun _ _ => ?_
      refine (reads_arguments h).ensures_bind hs fun es u hes => ?_
      refine (tokensOnly_declOf d).ensures_bind fun _ _ => ?_
      exact ensures_addExpr hes.scopes hes.grown hes.pending hes.nodup nofun
    · exact ensures_bind.2 ensures_fail
  · refine (tokensOnly_declOf d).ensures_bind fun _ _ => ?_
    exact ensures_addExpr rfl (.refl hs) (by simp [ExprKind.operands]) .nil fun d' hd' => by
      cases hd'
      exact hd

/-- A primary expression is a tree. -/
theorem readsExpr_primary : ReadsExpr (primary operandAt) := by
  refine .of_tokens tokensOnly_here fun loc => .of_tokens tokensOnly_peek fun found => ?_
  split
  · exact .of_tokens tokensOnly_advance fun _ s hs => ensures_addExpr_leaf hs rfl nofun
  · exact .of_tokens tokensOnly_advance fun _ => readsExpr_reference h _ loc
  · refine .of_tokens tokensOnly_advance fun _ s hs => ?_
    refine (h .assignment).ensures_bind hs fun e t he => ?_
    refine (tokensOnly_expect _).ensures_bind fun _ _ => ?_
    exact (tokensOnly_typeOf e).ensures_bind fun _ _ => ensures_addExpr_one he rfl nofun
  · exact reads_unexpected

/-- Every suffix takes up what it goes on from. -/
theorem ensures_suffixes (bound : Nat) {b : Built} {s : ParserState} {e : ExprId}
    (he : ReadExpr b e s.built) :
    Ensures (suffixes operandAt bound e) s fun e t => ReadExpr b e t.built := by
  induction bound generalizing s e with
  | zero => exact ensures_pure.2 he
  | succ bound ih =>
    refine tokensOnly_here.ensures_bind fun loc _ => ?_
    refine (tokensOnly_accept _).ensures_bind fun bracket _ => ?_
    split
    · refine (h .assignment).ensures_bind he.grown.tree fun index t hindex => ?_
      refine (tokensOnly_expect _).ensures_bind fun _ _ => ?_
      refine (tokensOnly_typeOf e).ensures_bind fun _ _ => ensures_bind.2 (.mono ?_ fun _ _ => ih)
      exact ensures_addExpr_two he hindex rfl nofun
    · refine (tokensOnly_accept _).ensures_bind fun _ _ => ?_
      split
      · refine ensures_bind.2 (.mono ?_ fun _ _ => ih)
        exact ensures_addUnary he
      · refine (tokensOnly_accept _).ensures_bind fun _ _ => ?_
        split
        · refine ensures_bind.2 (.mono ?_ fun _ _ => ih)
          exact ensures_addUnary he
        · exact he

/-- So an expression with suffixes is a tree. -/
theorem readsExpr_suffixed : ReadsExpr (suffixed operandAt) := by
  intro s hs
  refine (readsExpr_primary h).ensures_bind hs fun e t he => ?_
  exact tokensOnly_remaining.ensures_bind fun bound _ => ensures_suffixes h bound he

/-- An expression whose size is asked for stays in the program, with nothing that refers to it. -/
theorem ensures_sizeofOperand (hs : s.program.Tree) :
    Ensures (sizeofOperand operandAt) s fun _ t =>
      t.scopes = s.scopes ∧ Grown s.scopes s.program t.program := by
  refine tokensOnly_startsParenthesisedType.ensures_bind fun found _ => ?_
  split
  · refine tokensOnly_advance.ensures_bind fun _ _ => tokensOnly_typeName.ensures_bind fun _ _ => ?_
    exact (tokensOnly_expect _).ensures_bind fun _ _ => ⟨rfl, .refl hs⟩
  · exact (h .unary).ensures_bind hs fun e t he => ⟨he.scopes, he.grown⟩

/-- An operator before its operand takes it up, or asks for the size of it. -/
theorem readsExpr_prefixed : ReadsExpr (prefixed operandAt) := by
  refine .of_tokens tokensOnly_here fun loc => .of_tokens tokensOnly_peek fun found => ?_
  split
  · refine .of_tokens tokensOnly_advance fun _ s hs => ensures_bind.2 ?_
    refine (ensures_sizeofOperand h hs).mono fun type t ht => ?_
    exact ensures_addExpr ht.1 ht.2 (by simp [ExprKind.operands]) .nil nofun
  · split
    · refine .of_tokens tokensOnly_advance fun _ s hs => ?_
      exact (h .cast).ensures_bind hs fun e t he => ensures_addUnary he
    · exact readsExpr_suffixed h
  · exact readsExpr_suffixed h

/-- A conversion takes up its operand. -/
theorem readsExpr_casted : ReadsExpr (casted operandAt) := by
  refine .of_tokens tokensOnly_here fun loc => ?_
  refine .of_tokens tokensOnly_startsParenthesisedType fun found => ?_
  split
  · refine .of_tokens tokensOnly_advance fun _ => .of_tokens tokensOnly_typeName fun type => ?_
    refine .of_tokens (tokensOnly_expect _) fun _ s hs => ?_
    exact (h .cast).ensures_bind hs fun e t he => ensures_addExpr_one he rfl nofun
  · exact readsExpr_prefixed h

omit h in
/-- Each operator of a chain takes up what is left of it. -/
theorem ensures_leftChain (level : BinaryLevel) {operand : Parser ExprId} (hx : ReadsExpr operand)
    (bound : Nat) {b : Built} {s : ParserState} {lhs : ExprId} (he : ReadExpr b lhs s.built) :
    Ensures (leftChain level operand bound lhs) s fun e t => ReadExpr b e t.built := by
  induction bound generalizing s lhs with
  | zero => exact ensures_pure.2 he
  | succ bound ih =>
    refine tokensOnly_here.ensures_bind fun loc _ => tokensOnly_peek.ensures_bind fun found _ => ?_
    split
    · exact he
    · refine tokensOnly_advance.ensures_bind fun _ _ => ?_
      refine hx.ensures_bind he.grown.tree fun rhs t hrhs => ensures_bind.2 (.mono ?_ fun _ _ => ih)
      exact ensures_addBinary he hrhs

/-- An expression of any level is a tree. -/
theorem readsExpr_binary (levels : List BinaryLevel) : ReadsExpr (binary operandAt levels) := by
  induction levels with
  | nil => exact readsExpr_casted h
  | cons level tighter ih =>
    intro s hs
    refine ih.ensures_bind hs fun lhs t hlhs => ?_
    exact tokensOnly_remaining.ensures_bind fun bound _ => ensures_leftChain level ih bound hlhs

/-- An assignment takes up its target and its value. -/
theorem readsExpr_assignment : ReadsExpr (assignment operandAt) := by
  intro s hs
  refine (readsExpr_binary h binaryLevels).ensures_bind hs fun lhs t hlhs => ?_
  refine tokensOnly_here.ensures_bind fun loc _ => tokensOnly_peek.ensures_bind fun found _ => ?_
  split
  · split
    · refine tokensOnly_advance.ensures_bind fun _ _ => ?_
      exact (h .assignment).ensures_bind hlhs.grown.tree fun rhs u hrhs =>
        ensures_addBinary hlhs hrhs
    · exact hlhs
  · exact hlhs

end Levels

/-- Whatever is asked for is a tree, to whatever depth it nests. -/
theorem readsExpr_expressionWithin (bound : Nat) (level : OperandLevel) :
    ReadsExpr (expressionWithin bound level) := by
  induction bound generalizing level with
  | zero => exact reads_unexpected
  | succ bound ih =>
    cases level with
    | assignment => exact readsExpr_assignment ih
    | cast => exact readsExpr_casted ih
    | unary => exact readsExpr_prefixed ih

theorem readsExpr_expression : ReadsExpr expression :=
  .of_tokens tokensOnly_remaining fun bound => readsExpr_expressionWithin bound .assignment

end Parser

end MiniC
