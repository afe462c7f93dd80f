import MiniC.Proofs.References
import MiniC.Proofs.StatementTree
import MiniC.Proofs.TreeBuilding

/-!
# Growing programs

Most of what is built from a tree only adds to a program: expressions and statements, and variables,
which may get an initialiser afterwards (`Program.Grows`). All these variables are of one storage.
What was there stays as it was, and nothing is added to the items.

Every part of a tree but a whole function is built like that (`Parser.Expands`): its expressions,
declarations and statements, and the parameters of functions. Names are declared in the scope that
is innermost, so the table of the file does not change as long as a scope inside it is open. How
parsers compose is stated for any preorder on what was built (`Parser.Carries`), since types are
built without any change and expressions without new declarations.
-/

set_option autoImplicit false

namespace MiniC

/-- The form of the first clause of a `for` loop: variables are declared, or an expression is
evaluated. -/
def StmtKind.IsClause : StmtKind → Prop
  | .declare _ | .expr _ => True
  | _ => False

/-- The statement that is the first clause of a `for` loop. -/
def StmtKind.clause? : StmtKind → Option StmtId
  | .forLoop init _ _ _ => init
  | _ => none

namespace Program

/-- Nodes were added to the program one by one, variables of one storage among them, of which some
got an initialiser. The first clause of a `for` loop that was added was there before. -/
inductive Grows (storage : Storage) (p : Program) : Program → Prop
  | refl : Grows storage p p
  | expr {q : Program} (node : Expr) : Grows storage p q → Grows storage p (q.pushExpr node).1
  | stmt {q : Program} (node : Stmt) :
    Grows storage p q → (∀ i ∈ node.kind.clause?, (q.stmt i).kind.IsClause) →
      Grows storage p (q.pushStmt node).1
  | newVariable {q : Program} (name : String) (type : CType) (loc : Location) : Grows storage p q →
      Grows storage p (q.pushDecl ⟨name, .variable type none storage, loc⟩).1
  | init {q : Program} {d : DeclId} (e : ExprId) : Grows storage p q → p.decls.size ≤ d.index →
      Grows storage p (q.modifyDecl d (Decl.withInit e))

/-- The first clause of every `for` loop declares variables or evaluates an expression. -/
def ClausesProper (p : Program) : Prop :=
  ∀ id, ∀ i ∈ (p.stmt id).kind.clause?, (p.stmt i).kind.IsClause

namespace Grows

variable {storage : Storage} {p q r : Program}

/-- No declaration is taken away. -/
theorem size (h : p.Grows storage q) : p.decls.size ≤ q.decls.size := by
  induction h with
  | refl => exact Nat.le_refl _
  | expr _ _ ih | stmt _ _ _ ih => exact ih
  | newVariable _ _ _ _ ih => exact Nat.le_trans ih (by simp [pushDecl])
  | init _ _ _ ih => rwa [size_modifyDecl]

/-- A program may grow in two steps. -/
theorem trans (hpq : p.Grows storage q) (hqr : q.Grows storage r) : p.Grows storage r := by
  induction hqr with
  | refl => exact hpq
  | expr node _ ih => exact .expr node ih
  | stmt node _ hclause ih => exact .stmt node ih hclause
  | newVariable name type loc _ ih => exact .newVariable name type loc ih
  | init e _ hd ih => exact .init e ih (Nat.le_trans hpq.size hd)

/-- Declarations that were there stay as they were. -/
theorem decl (h : p.Grows storage q) {d : DeclId} (hd : d.index < p.decls.size) :
    q.decl d = p.decl d := by
  induction h with
  | refl => rfl
  | expr _ _ ih | stmt _ _ _ ih => exact ih
  | @newVariable q name type loc h ih =>
    exact (decl_pushDecl_of_lt q _ (Nat.lt_of_lt_of_le hd h.size)).trans ih
  | init e _ hlt ih =>
    refine (decl_modifyDecl_of_ne _ _ ?_).trans ih
    rintro rfl
    exact Nat.lt_irrefl _ (Nat.lt_of_lt_of_le hd hlt)

/-- What was declared is a variable. -/
theorem exists_kind (h : p.Grows storage q) {d : DeclId} (hd : p.decls.size ≤ d.index)
    (hlt : d.index < q.decls.size) :
    ∃ type init, (q.decl d).kind = .variable type init storage := by
  induction h with
  | refl => exact absurd hlt (Nat.not_lt.2 hd)
  | expr _ _ ih | stmt _ _ _ ih => exact ih hlt
  | @newVariable q name type loc _ ih =>
    by_cases heq : d = (q.pushDecl ⟨name, .variable type none storage, loc⟩).2
    · rw [heq, decl_pushDecl_self]
      exact ⟨type, none, rfl⟩
    · rw [decl_pushDecl_of_ne q _ heq]
      refine ih (Nat.lt_of_le_of_ne (Nat.le_of_lt_succ ?_) fun hindex =>
        heq (congrArg DeclId.mk hindex))
      simpa [pushDecl] using hlt
  | @init q d' e _ _ ih =>
    rw [size_modifyDecl] at hlt
    obtain ⟨type, init, hk⟩ := ih hlt
    by_cases heq : d = d'
    · subst heq
      rw [decl_modifyDecl_self _ _ hlt, Decl.withInit, hk]
      exact ⟨type, some e, rfl⟩
    · rw [decl_modifyDecl_of_ne _ _ heq]
      exact ⟨type, init, hk⟩

/-- Nothing is added to the items. -/
theorem items (h : p.Grows storage q) : q.items = p.items := by
  induction h with
  | refl => rfl
  | expr _ _ ih | stmt _ _ _ ih | newVariable _ _ _ _ ih | init _ _ _ ih => exact ih

/-- Statements that were there stay as they were. -/
theorem stmt_eq (h : p.Grows storage q) {i : StmtId} (hi : p.stmt i ≠ default) :
    q.stmt i = p.stmt i := by
  induction h with
  | refl => rfl
  | expr _ _ ih | newVariable _ _ _ _ ih | init _ _ _ ih => exact ih
  | @stmt q node _ _ ih =>
    refine (stmt_pushStmt_of_ne q node ?_).trans ih
    -- what is not in the table yet was not there before
    rintro rfl
    rw [← ih] at hi
    simp [Program.stmt, pushStmt, Array.getD] at hi

/-- Expressions that were there stay as they were. -/
theorem expr_eq (h : p.Grows storage q) {e : ExprId} (he : p.expr e ≠ default) :
    q.expr e = p.expr e := by
  induction h with
  | refl => rfl
  | stmt _ _ _ ih | newVariable _ _ _ _ ih | init _ _ _ ih => exact ih
  | @expr q node _ ih =>
    refine (expr_pushExpr_of_ne node ?_).trans ih
    rintro rfl
    rw [← ih] at he
    simp [Program.expr, pushExpr, Array.getD] at he

/-- A statement that is a clause stays one. -/
theorem isClause (h : p.Grows storage q) {i : StmtId} (hi : (p.stmt i).kind.IsClause) :
    (q.stmt i).kind.IsClause := by
  rw [h.stmt_eq]
  · exact hi
  · intro hdefault
    rw [hdefault] at hi
    exact hi

end Grows

/-- A statement may be added if the first clause of it, if it is a loop, is a proper one. -/
theorem ClausesProper.pushStmt {p : Program} (h : p.ClausesProper) {node : Stmt}
    (hnode : ∀ i ∈ node.kind.clause?, (p.stmt i).kind.IsClause) :
    (p.pushStmt node).1.ClausesProper := by
  have hgrows : p.Grows .local (p.pushStmt node).1 := .stmt node .refl hnode
  intro id i hi
  refine hgrows.isClause ?_
  by_cases heq : id = (p.pushStmt node).2
  · rw [heq, stmt_pushStmt_self] at hi
    exact hnode i hi
  · rw [stmt_pushStmt_of_ne p node heq] at hi
    exact h id i hi

/-- First clauses stay proper while a program grows. -/
theorem ClausesProper.grows {storage : Storage} {p q : Program} (h : p.ClausesProper)
    (hq : p.Grows storage q) :
    q.ClausesProper := by
  induction hq with
  | refl => exact h
  | expr _ _ ih | newVariable _ _ _ _ ih | init _ _ _ ih => exact ih
  | stmt node _ hclause ih => exact ih.pushStmt hclause

end Program

/-! ## Building step by step -/

namespace Parser

open Written

variable {α β : Type} {R R' : Built → Built → Prop}

/-- If the parser succeeds, what was built before and what is built then are related. -/
def Carries (R : Built → Built → Prop) (x : Parser α) : Prop :=
  ∀ s, Ensures x s fun _ t => R s.built t.built

theorem Carries.mono {x : Parser α} (hx : Carries R x) (h : ∀ b b', R b b' → R' b b') :
    Carries R' x :=
  fun s => (hx s).mono fun _ _ => h _ _

namespace Carries

variable [IsPreorder Built R]

theorem of_tokens {x : Parser α} (hx : TokensOnly x) : Carries R x := by
  intro s
  refine (hx s).mono ?_
  rintro _ _ ⟨rest, -, rfl⟩
  exact Std.Refl.refl (r := R) _

theorem pure (a : α) : Carries R (pure a : Parser α) := fun _ => Std.Refl.refl (r := R) _

/-- What is built grows in two steps. -/
theorem bind {x : Parser α} {f : α → Parser β} (hx : Carries R x) (hf : ∀ a, Carries R (f a)) :
    Carries R (x >>= f) :=
  fun s => Ensures.bind (hx s) fun a t ht => (hf a t).mono fun _ _ hu =>
    IsTrans.trans (r := R) _ _ _ ht hu

theorem advance : Carries R advance := .of_tokens tokensOnly_advance

/-- The place of the next token is looked at before something is built. -/
theorem here {f : Location → Parser β} (hf : ∀ loc, Carries R (f loc)) : Carries R (here >>= f) :=
  (of_tokens tokensOnly_here).bind hf

/-- A token is taken before something is built. -/
theorem after {f : Unit → Parser β} (hf : Carries R (f ())) : Carries R (Parser.advance >>= f) :=
  advance.bind fun _ => hf

omit [IsPreorder Built R] in
theorem map {x : Parser α} (hx : Carries R x) (f : α → β) : Carries R (f <$> x) :=
  fun s => ensures_map.2 (hx s)

theorem resolve (x : String) (loc : Location) : Carries R (resolve x loc) := by
  refine .of_tokens (.of_same fun s => ?_)
  unfold Parser.resolve
  rw [ensures_bind, ensures_get]
  split
  · rfl
  · exact ensures_fail

/-- A list after commas builds what its items build. -/
theorem afterCommas (xs : List (Parser α)) (h : ∀ x ∈ xs, Carries R x) :
    Carries R (buildAfterCommas xs) := by
  induction xs with
  | nil => exact .pure _
  | cons x xs ih =>
    rw [List.forall_mem_cons] at h
    exact .after (h.1.bind fun _ => (ih h.2).bind fun _ => .pure _)

/-- A list in commas builds what its items build. -/
theorem inCommas (xs : List (Parser α)) (h : ∀ x ∈ xs, Carries R x) :
    Carries R (buildInCommas xs) := by
  cases xs with
  | nil => exact .pure _
  | cons x xs =>
    rw [List.forall_mem_cons] at h
    exact h.1.bind fun _ => (afterCommas xs h.2).bind fun _ => .pure _

theorem skip (n : Nat) : Carries R (skip n) := by
  induction n with
  | zero => exact .pure _
  | succ n ih => exact .after ih

end Carries

/-! ## Building that only adds -/

variable {storage : Storage}

/-- What is built after expressions were added to it. -/
structure WithExprs (b b' : Built) : Prop where
  program : ∀ storage, b.program.Grows storage b'.program
  decls : b'.program.decls = b.program.decls
  scopes : b'.scopes = b.scopes

/-- What is built after something was added to it, with variables of one storage. -/
structure Expanded (storage : Storage) (b b' : Built) : Prop where
  program : b.program.Grows storage b'.program
  depth : b'.scopes.inner.length = b.scopes.inner.length
  file : b.scopes.inner ≠ [] → b'.scopes.file = b.scopes.file

/-- If the parser succeeds, it only added to what was built. -/
abbrev Expands (storage : Storage) (x : Parser α) : Prop := Carries (Expanded storage) x

instance : IsPreorder Built WithExprs where
  refl _ := ⟨fun _ => .refl, rfl, rfl⟩
  trans _ _ _ h h' :=
    ⟨fun storage => (h.program storage).trans (h'.program storage), h'.decls.trans h.decls,
      h'.scopes.trans h.scopes⟩

theorem Expanded.refl (b : Built) : Expanded storage b b := ⟨.refl, rfl, fun _ => rfl⟩

/-- It is enough that the program grew, where the scopes are the same. -/
theorem Expanded.of_program {b : Built} {p : Program} (h : b.program.Grows storage p) :
    Expanded storage b ⟨p, b.scopes⟩ :=
  ⟨h, rfl, fun _ => rfl⟩

/-- What is built may be expanded in two steps. -/
theorem Expanded.trans {b b' b'' : Built} (h : Expanded storage b b')
    (h' : Expanded storage b' b'') :
    Expanded storage b b'' where
  program := h.program.trans h'.program
  depth := h'.depth.trans h.depth
  file hb := by
    -- as many scopes are open in between, so again one inside the file
    refine (h'.file ?_).trans (h.file hb)
    rwa [← List.length_pos_iff, h.depth, List.length_pos_iff]

instance : IsPreorder Built (Expanded storage) where
  refl := .refl
  trans _ _ _ h h' := h.trans h'

/-- Adding expressions is one way to expand what is built. -/
theorem WithExprs.expanded {b b' : Built} (h : WithExprs b b') : Expanded storage b b' :=
  ⟨h.program storage, by rw [h.scopes], fun _ => by rw [h.scopes]⟩

theorem Carries.addExpr (kind : ExprKind) (type : CType) (loc : Location) :
    Carries WithExprs (addExpr kind type loc) :=
  fun _ => ⟨fun _ => .expr _ .refl, rfl, rfl⟩

namespace Carries

/-- A statement that is no loop may be added. -/
theorem addStmt {kind : StmtKind} (hk : kind.clause? = none) (loc : Location) :
    Expands storage (addStmt kind loc) :=
  fun _ => .of_program (.stmt _ .refl (by simp [hk]))

/-- Giving a name to a declaration adds nothing to the program. -/
theorem declare (x : String) (d : DeclId) (loc : Location) : Expands storage (declare x d loc) := by
  refine fun s => ensures_declare ⟨.refl, ?_, fun hs => ?_⟩
  · rcases s with ⟨rest, endLoc, program, ⟨_ | _, file⟩⟩ <;> rfl
  · rcases s with ⟨rest, endLoc, program, ⟨_ | _, file⟩⟩
    · exact absurd rfl hs
    · rfl

/-- A scope only concerns names. -/
theorem inScope {x : Parser α} (hx : Expands storage x) : Expands storage (inScope x) := by
  refine fun s => ensures_inScope.2 ((hx _).mono fun _ t ht => ?_)
  have hdepth : t.scopes.inner.length = s.scopes.inner.length + 1 := ht.depth
  exact ⟨ht.program, by simp [Scopes.leave, ParserState.built, hdepth], fun _ => ht.file nofun⟩

end Carries

end Parser

/-! ## Trees -/

namespace Written

open MiniC.Parser

variable {storage : Storage}

theorem TypeName.carries_build {R : Built → Built → Prop} [IsPreorder Built R] (t : TypeName) :
    Carries R t.build :=
  .after ((Carries.skip t.stars).bind fun _ => .pure _)

/-- An expression is built of expressions alone. -/
theorem Expr.withExprs_build (e : Expr) : Carries WithExprs e.build := by
  have hdecl (d : DeclId) : Carries WithExprs (declOf d) := .of_tokens (tokensOnly_declOf d)
  have htype (e : ExprId) : Carries WithExprs (typeOf e) := .of_tokens (tokensOnly_typeOf e)
  induction e with
  | literal value => exact .here fun _ => .after (.addExpr _ _ _)
  | name x =>
    exact .here fun _ =>
      .after ((Carries.resolve _ _).bind fun _ => (hdecl _).bind fun _ => .addExpr _ _ _)
  | call f args ih =>
    refine .here fun loc =>
      .after ((Carries.resolve _ _).bind fun d => (hdecl d).bind fun decl => ?_)
    have hcall : Carries WithExprs (do
        advance
        let args ← buildInCommas (buildEach args)
        advance
        addExpr (.call d args) (← declOf d).type.result loc) := by
      rw [buildEach_eq_map]
      refine .after ((Carries.inCommas _ ?_).bind fun _ =>
        .after ((hdecl d).bind fun _ => .addExpr _ _ _))
      simpa using ih
    split
    · exact hcall
    · -- what is no function cannot be called
      exact fun _ => ensures_bind.2 ensures_fail
  | paren inner ih =>
    exact .here fun _ => .after (ih.bind fun _ => .after ((htype _).bind fun _ => .addExpr _ _ _))
  | subscript base index ihb ihi =>
    exact ihb.bind fun _ => .here fun _ =>
      .after (ihi.bind fun _ => .after ((htype _).bind fun _ => .addExpr _ _ _))
  | unary op operand ih =>
    have hadd (e : ExprId) (loc : Location) : Carries WithExprs (addUnary op e loc) :=
      (htype _).bind fun _ => .addExpr _ _ _
    rw [build]
    split
    · exact ih.bind fun _ => .here fun _ => .after (hadd _ _)
    · exact .here fun _ => .after (ih.bind fun _ => hadd _ _)
  | binary op lhs rhs ihl ihr =>
    exact ihl.bind fun _ => .here fun _ => .after (ihr.bind fun _ =>
      (htype _).bind fun _ => (htype _).bind fun _ => .addExpr _ _ _)
  | cast type operand ih =>
    exact .here fun _ =>
      .after (type.carries_build.bind fun _ => .after (ih.bind fun _ => .addExpr _ _ _))
  | sizeOfType type =>
    exact .here fun _ => .after (.after (type.carries_build.bind fun _ => .after (.addExpr _ _ _)))
  | sizeOf operand ih =>
    exact .here fun _ => .after (ih.bind fun _ => (htype _).bind fun _ => .addExpr _ _ _)

/-- An expression adds expressions only. -/
theorem Expr.expands_build (e : Expr) : Expands storage e.build :=
  e.withExprs_build.mono fun _ _ h => h.expanded

theorem expands_buildOptional (e : Option Expr) : Expands storage (buildOptional e) := by
  cases e with
  | none => exact .pure _
  | some e => exact e.expands_build.map some

/-- A variable is added and gets its name, and then perhaps an initialiser. -/
theorem Declarator.expands_buildRest (base : BaseType) (d : Declarator) (loc : Location) :
    Expands storage (d.buildRest base loc storage) := by
  refine (Carries.skip _).bind fun _ s => ensures_bind.2 (ensures_addDecl.2 ?_)
  have hadded : Expanded storage s.built
    ⟨(s.program.pushDecl ⟨d.name, .variable (d.type base) none storage, loc⟩).1,
      s.scopes⟩ := .of_program (.newVariable d.name _ loc .refl)
  have hdeclare (v : DeclId) : Expands storage (declare d.name v loc) := .declare _ _ _
  refine Ensures.bind (hdeclare _ _) fun _ t ht => ?_
  have ht := hadded.trans ht
  cases d.init with
  | none => exact ht
  | some init =>
    have hadvance : Expands storage advance := Carries.advance
    have hinit : Expands storage init.build := init.expands_build
    refine Ensures.bind (hadvance t) fun _ u hu => Ensures.bind (hinit u) fun e v hv => ?_
    -- the variable that gets the initialiser is one of those that were added
    have hv := (ht.trans hu).trans hv
    exact ⟨.init e hv.program (Nat.le_refl _), hv.depth, hv.file⟩

/-- A declarator adds a variable and its initialiser. -/
theorem Declarator.expands_build (base : BaseType) (d : Declarator) :
    Expands storage (d.build base storage) :=
  (Carries.skip _).bind fun _ => .here fun loc => .after (d.expands_buildRest base loc)

/-- A list of declarators adds one variable after the other. -/
theorem Declaration.expands_build (d : Declaration) : Expands storage (d.build storage) := by
  refine .after ((Carries.inCommas _ ?_).bind fun _ => .after (.pure _))
  simp only [List.mem_map, forall_exists_index, and_imp, forall_apply_eq_imp_iff₂]
  exact fun v _ => v.expands_build d.base

/-- The first clause of a `for` loop is built as a clause. -/
theorem ForInit.ensures_build (init : ForInit) (s : ParserState) :
    Ensures init.build s fun i t =>
      Expanded .local s.built t.built ∧ ∀ id ∈ i, (t.program.stmt id).kind.IsClause := by
  have hclause {kind : StmtKind} (hk : kind.clause? = Option.none)
    (hclause : kind.IsClause) (loc : Location)
      (s : ParserState) :
      Ensures (some <$> addStmt kind loc) s fun i t =>
        Expanded .local s.built t.built ∧ ∀ id ∈ i, (t.program.stmt id).kind.IsClause := by
    refine ensures_map.2 ⟨(Carries.addStmt hk loc s :), ?_⟩
    rintro _ ⟨⟩
    have hself := s.program.stmt_pushStmt_self ⟨kind, loc⟩
    change ((s.program.pushStmt ⟨kind, loc⟩).1.stmt
      (s.program.pushStmt ⟨kind, loc⟩).2).kind.IsClause
    rwa [hself]
  have hhere : Expands .local here := .of_tokens tokensOnly_here
  cases init with
  | none => exact ⟨.refl _, by simp⟩
  | declare d =>
    have hd : Expands .local (d.build .local) := d.expands_build
    refine Ensures.bind (hhere s) fun loc t ht => Ensures.bind (hd t) fun ds u hu => ?_
    exact (@hclause (.declare ds) rfl trivial loc u).mono fun _ _ ⟨hv, hi⟩ =>
      ⟨(ht.trans hu).trans hv, hi⟩
  | expr e =>
    have he : Expands .local e.build := e.expands_build
    have hadvance : Expands .local advance := Carries.advance
    refine Ensures.bind (hhere s) fun loc t ht => Ensures.bind (he t) fun e u hu =>
      Ensures.bind (hadvance u) fun _ v hv => ?_
    exact (@hclause (.expr e) rfl trivial loc v).mono fun _ _ ⟨hw, hi⟩ =>
      ⟨((ht.trans hu).trans hv).trans hw, hi⟩

namespace Stmt

/-- A list of statements adds what each of them adds. -/
theorem expands_buildAll {body : List Stmt} (h : ∀ stmt ∈ body, Expands .local stmt.build) :
    Expands .local (buildAll body) := by
  induction body with
  | nil => exact .pure _
  | cons stmt body ih =>
    rw [List.forall_mem_cons] at h
    exact h.1.bind fun _ => (ih h.2).bind fun _ => .pure _

/-- A statement only adds to the program, with local variables among what it adds. -/
theorem expands_build (stmt : Stmt) : Expands .local stmt.build := by
  induction stmt with
  | block body ih =>
    exact .here fun _ => .after ((Carries.inScope (expands_buildAll ih)).bind fun _ =>
      .after (.addStmt rfl _))
  | declare d => exact .here fun _ => d.expands_build.bind fun _ => .addStmt rfl _
  | expr e => exact .here fun _ => e.expands_build.bind fun _ => .after (.addStmt rfl _)
  | ifThen condition thenBranch ih =>
    exact .here fun _ => .after (.after (condition.expands_build.bind fun _ =>
      .after (ih.bind fun _ => .addStmt rfl _)))
  | ifElse condition thenBranch elseBranch iht ihe =>
    exact .here fun _ =>
      .after (.after (condition.expands_build.bind fun _ => .after (iht.bind fun _ =>
      .after (ihe.bind fun _ => .addStmt rfl _))))
  | whileLoop condition body ih =>
    exact .here fun _ => .after (.after (condition.expands_build.bind fun _ =>
      .after (ih.bind fun _ => .addStmt rfl _)))
  | forLoop init condition increment body ih =>
    have hadvance : Expands .local advance := Carries.advance
    have hoptional (e : Option Expr) : Expands .local (buildOptional e) := expands_buildOptional e
    refine .here fun loc => .after (.inScope (.after fun s => ?_))
    refine Ensures.bind (init.ensures_build s) fun i t ⟨ht, hi⟩ => ?_
    refine Ensures.bind (hoptional condition t) fun c u hu =>
      Ensures.bind (hadvance u) fun _ v hv => ?_
    refine Ensures.bind (hoptional increment v) fun n w hw =>
      Ensures.bind (hadvance w) fun _ x hx => ?_
    refine Ensures.bind (ih x) fun b y hy => ?_
    -- the clause is still one after the other parts were built
    have hty := (((hu.trans hv).trans hw).trans hx).trans hy
    have hadded := ht.trans hty
    exact ⟨.stmt _ hadded.program fun id hid => hty.program.isClause (hi id hid),
      hadded.depth, hadded.file⟩
  | ret value =>
    exact .here fun _ => .after ((expands_buildOptional value).bind fun _ =>
      .after (.addStmt rfl _))
  | empty => exact .here fun _ => .after (.addStmt rfl _)

end Stmt

/-- A parameter adds a variable of its own storage. -/
theorem Param.expands_build (v : Param) : Expands .param v.build := by
  refine v.typeName.carries_build.bind fun _ => .here fun loc => ?_
  refine (Carries.skip _).bind fun _ => (Carries.skip _).bind fun _ s =>
    ensures_bind.2 (ensures_addDecl.2 ?_)
  have hadded : Expanded .param s.built
    ⟨(s.program.pushDecl ⟨v.name.getD "", .variable v.type none .param, loc⟩).1,
      s.scopes⟩ := .of_program (.newVariable _ _ loc .refl)
  dsimp only
  split
  · exact hadded
  · have hdeclare (d : DeclId) : Expands .param (declare (v.name.getD "") d loc) := .declare _ _ _
    exact Ensures.bind (hdeclare _ _) fun _ t ht => hadded.trans ht

/-- The parameters of a function add one variable after the other. -/
theorem Params.expands_build (params : Params) : Expands .param params.build := by
  cases params with
  | void => exact .after (.pure _)
  | list params =>
    refine .inCommas _ ?_
    simp only [List.mem_map, forall_exists_index, and_imp, forall_apply_eq_imp_iff₂]
    exact fun v _ => v.expands_build

end Written

/-! ## First clauses of loops -/

namespace Parser

open Written

variable {α : Type}

/-- The first clauses of `for` loops stay proper. -/
def ClausesStay (b b' : Built) : Prop := b.program.ClausesProper → b'.program.ClausesProper

instance : IsPreorder Built ClausesStay where
  refl _ h := h
  trans _ _ _ h h' hb := h' (h hb)

/-- The parser keeps the first clauses of `for` loops proper. -/
abbrev KeepsClauses (x : Parser α) : Prop := Carries ClausesStay x

/-- What only adds to the program keeps first clauses proper. -/
theorem Carries.keepsClauses {storage : Storage} {x : Parser α} (hx : Expands storage x) :
    KeepsClauses x :=
  hx.mono fun _ _ h hb => hb.grows h.program

namespace KeepsClauses

/-- Declarations and items do not matter. -/
theorem modify {f : ParserState → ParserState} (hf : ∀ s, (f s).program.stmts = s.program.stmts) :
    KeepsClauses (modify f : Parser Unit) := by
  intro s
  change s.program.ClausesProper → (f s).program.ClausesProper
  have hstmt (id : StmtId) : (f s).program.stmt id = s.program.stmt id := by
    rw [Program.stmt, hf, Program.stmt]
  intro hs id i hi
  rw [hstmt] at hi ⊢
  exact hs id i hi

theorem forM {x : α → Parser Unit} (as : List α) (hx : ∀ a, KeepsClauses (x a)) :
    KeepsClauses (as.forM x) := by
  induction as with
  | nil => exact .pure _
  | cons a as ih => exact (hx a).bind fun _ => ih

theorem inScope {x : Parser α} (hx : KeepsClauses x) : KeepsClauses (inScope x) :=
  fun s => ensures_inScope.2 (hx { s with scopes := s.scopes.enter })

/-- Declaring a function adds no statements. -/
theorem functionDecl (returnType : CType) (name : String) (loc : Location) (params : List DeclId) :
    KeepsClauses (functionDecl returnType name loc params) := by
  have hfound : TokensOnly (resolveInFile? name) := .of_same fun _ => (rfl :)
  refine (Carries.of_tokens hfound).bind fun found => ?_
  split
  · refine (Carries.of_tokens (tokensOnly_declOf _)).bind fun decl => ?_
    split
    · exact .pure _
    · exact fun _ => ensures_bind.2 ensures_fail
  · exact fun _ hs => hs

/-- The body of a function is made of statements that keep first clauses proper. -/
theorem buildBody (d : DeclId) (name : String) (loc opening : Location) (params : List DeclId)
    (body : List Written.Stmt) : KeepsClauses (buildBody d name loc opening params body) := by
  refine (Carries.of_tokens (tokensOnly_declOf d)).bind fun decl => ?_
  have hbody : Expands .local (Stmt.buildAll body) :=
    Written.Stmt.expands_buildAll fun stmt _ => stmt.expands_build
  have hblock (ids : List StmtId) : Expands .local (addStmt (.block ids) opening) := .addStmt rfl _
  have hmodify (f : Decl → Decl) : KeepsClauses (modifyDecl d f) := modify fun _ => rfl
  dsimp only
  split
  · exact fun _ => ensures_bind.2 ensures_fail
  · exact (hmodify _).bind fun _ => hbody.keepsClauses.bind fun ids =>
      .after ((hblock ids).keepsClauses.bind fun _ => hmodify _)

end KeepsClauses

end Parser

namespace Written

open MiniC.Parser

/-- A function keeps first clauses proper, although it adds to the items. -/
theorem Function.keepsClauses_build (f : Function) : KeepsClauses f.build := by
  refine f.returnType.carries_build.bind fun _ => .here fun loc =>
    .after (.after (KeepsClauses.inScope ?_))
  refine f.params.expands_build.keepsClauses.bind fun params => .after ?_
  refine (KeepsClauses.functionDecl _ _ _ _).bind fun d => .here fun opening => .after ?_
  split
  · exact KeepsClauses.buildBody _ _ _ _ _ _
  · exact .pure _

/-- Every declaration of a file keeps first clauses proper. -/
theorem TopLevel.keepsClauses_build (d : TopLevel) : KeepsClauses d.build := by
  have hitem : KeepsClauses d.item.build := by
    cases d.item with
    | declaration v =>
      have hv : Expands .global (v.build .global) := v.expands_build
      exact hv.keepsClauses.bind fun ds => KeepsClauses.forM ds fun _ => .modify fun _ => rfl
    | function f => exact f.keepsClauses_build
  rw [TopLevel.build]
  split
  · exact .after hitem
  · exact hitem

/-- A file is built with proper loops. -/
theorem File.keepsClauses_build (file : File) : KeepsClauses file.build :=
  KeepsClauses.forM _ TopLevel.keepsClauses_build

end Written

end MiniC
