import MiniC.Proofs.Scoping

/-!
# Reading statements

A parser for a part of a function adds nodes to the program, and variables to the innermost scope,
and changes nothing else (`Parser.Advance`). What it reads mentions names in scope only
(`Parser.ReadStmts.scoped`), and this is settled: it stays true while the rest of the file is read.
-/

set_option autoImplicit false

namespace MiniC

/-! ## Local variables -/

namespace Scopes

variable {scopes : Scopes} {d : DeclId}

/-- The local variables in scope, the latest first. -/
def locals (scopes : Scopes) : List DeclId := scopes.inner.flatten.map Prod.snd

/-- What is in scope is a local variable or a declaration of the file. -/
theorem Has.local_or_file (h : scopes.Has d) :
    d ∈ scopes.locals ∨ ∃ name, (name, d) ∈ scopes.file := by
  obtain ⟨scope, hscope, name, hname⟩ := h
  rcases List.mem_append.1 hscope with hinner | hfile
  · exact .inl (List.mem_map.2 ⟨(name, d), List.mem_flatten.2 ⟨scope, hinner, hname⟩, rfl⟩)
  · exact .inr ⟨name, List.mem_singleton.1 hfile ▸ hname⟩

@[simp] theorem locals_enter (scopes : Scopes) : scopes.enter.locals = scopes.locals := rfl

/-- A name given to the innermost scope is that of one more local variable. -/
theorem locals_declare (h : scopes.inner ≠ []) (name : String) (d : DeclId) :
    (scopes.declare name d).locals = d :: scopes.locals := by
  rcases scopes with ⟨_ | _, _⟩
  · exact absurd rfl h
  · rfl

/-- Inside a function no name is given to a declaration of the file. -/
theorem file_declare (h : scopes.inner ≠ []) (name : String) (d : DeclId) :
    (scopes.declare name d).file = scopes.file := by
  rcases scopes with ⟨_ | _, _⟩
  · exact absurd rfl h
  · rfl

theorem length_inner_declare (scopes : Scopes) (name : String) (d : DeclId) :
    (scopes.declare name d).inner.length = scopes.inner.length := by
  rcases scopes with ⟨_ | _, _⟩ <;> rfl

theorem tail_inner_declare (scopes : Scopes) (name : String) (d : DeclId) :
    (scopes.declare name d).inner.tail = scopes.inner.tail := by
  rcases scopes with ⟨_ | _, _⟩ <;> rfl

end Scopes

namespace Parser

/-! ## What reading a part of a function does -/

/-- `q` is well formed and is `p` with expressions, statements and variables added. -/
structure Enlarged (p q : Program) : Prop where
  extension : p.Extends q
  functions : ∀ {d : DeclId}, (q.decl d).isFunction = true → q.decl d = p.decl d
  items : q.items = p.items
  wellFormed : q.WellFormed

/-- What holds between the declarations of a file: the program is well formed, and names of the file
mean declarations of the file. -/
structure Sound (s : Built) : Prop where
  wellFormed : s.program.WellFormed
  file : ∀ entry ∈ s.scopes.file, s.program.FileLevel entry.2

/-- The same inside a function. -/
structure InFunction (s : Built) : Prop extends Sound s where
  inner : s.scopes.inner ≠ []

/-- A part of a function was read: nodes were added, and names to the innermost scope at most. -/
structure Advance (s t : Built) : Prop extends Enlarged s.program t.program where
  file : t.scopes.file = s.scopes.file
  depth : t.scopes.inner.length = s.scopes.inner.length
  outer : t.scopes.inner.tail = s.scopes.inner.tail

variable {p q r : Program} {s t u : Built}

theorem Enlarged.refl (h : p.WellFormed) : Enlarged p p := ⟨.refl p, fun _ => rfl, rfl, h⟩

/-- Nodes may be added in two steps. -/
theorem Enlarged.trans (hpq : Enlarged p q) (hqr : Enlarged q r) : Enlarged p r where
  extension := hpq.extension.trans hqr.extension
  functions {d} h := by
    have hrq := hqr.functions h
    exact hrq.trans (hpq.functions (hrq ▸ h))
  items := hqr.items.trans hpq.items
  wellFormed := hqr.wellFormed

theorem Advance.refl (h : Sound s) : Advance s s := ⟨.refl h.wellFormed, rfl, rfl, rfl⟩

/-- Two parts of a function may be read one after the other. -/
theorem Advance.trans (hst : Advance s t) (htu : Advance t u) : Advance s u :=
  ⟨hst.toEnlarged.trans htu.toEnlarged, htu.file.trans hst.file, htu.depth.trans hst.depth,
    htu.outer.trans hst.outer⟩

/-- Where only nodes were added, a part of a function was read. -/
theorem Advance.of_enlarged (h : Enlarged s.program t.program) (hscopes : t.scopes = s.scopes) :
    Advance s t :=
  ⟨h, by rw [hscopes], by rw [hscopes], by rw [hscopes]⟩

/-- Reading a part of a function keeps the names of the file as they are. -/
theorem Sound.advance (h : Sound s) (hst : Advance s t) : Sound t where
  wellFormed := hst.wellFormed
  file entry hentry := (h.file entry (hst.file ▸ hentry)).extends hst.extension

/-- After a part of a function one still is inside of it. -/
theorem InFunction.advance (h : InFunction s) (hst : Advance s t) : InFunction t := by
  refine ⟨h.toSound.advance hst, fun hnil => h.inner (List.eq_nil_of_length_eq_zero ?_)⟩
  rw [← hst.depth, hnil, List.length_nil]

/-- Names in scope are local variables in scope or names of the file. -/
theorem Sound.has (h : Sound s) {d : DeclId} (hd : s.scopes.Has d) :
    d ∈ s.scopes.locals ∨ s.program.FileLevel d := by
  rcases hd.local_or_file with hlocal | ⟨name, hfile⟩
  · exact .inl hlocal
  · exact .inr (h.file _ hfile)

/-! ## Expressions -/

/-- Expressions were read that are roots and mention names in scope only. -/
structure ReadRoots (s : Built) (es : List ExprId) (t : Built) : Prop where
  advance : Advance s t
  scopes : t.scopes = s.scopes
  roots : ∀ e ∈ es, t.program.IsRoot e
  inScope : t.program.Settled fun r => ∀ e ∈ es, r.InScope s.scopes.locals e

theorem ReadExpr.readRoots {e : ExprId} (hs : Sound s) (h : ReadExpr s e t) :
    ReadRoots s [e] t where
  advance := by
    refine .of_enlarged ⟨h.grown.extension, fun _ => ?_, h.grown.items, hs.wellFormed.grown h.grown⟩
      h.scopes
    rw [Program.decl, h.grown.decls, Program.decl]
  scopes := h.scopes
  roots := List.forall_mem_singleton.2 ⟨h.pending.lt, h.pending.free⟩
  inScope r hr := by
    refine List.forall_mem_singleton.2 fun {f d} hf hk => ?_
    refine (hs.has (h.names hr.expr hf hk)).imp_right fun hd => ?_
    exact hd.extends (h.grown.extension.trans hr)

/-- An expression that was read is a root, and mentions names in scope only. -/
theorem reads_expression : Reads Sound (fun s e t => ReadRoots s [e] t) expression :=
  fun s hs => (readsExpr_expression s hs.wellFormed.tree).mono fun _ _ he => he.readRoots hs

/-- The same where the expression may be missing. -/
theorem reads_expressionUnless (sign : Punct) :
    Reads Sound (fun s value t => ReadRoots s value.toList t) (expressionUnless sign) := by
  refine .of_tokens (tokensOnly_check _) fun found s hs => ?_
  split
  · exact ⟨.refl hs, rfl, by simp, fun _ _ => by simp⟩
  · rw [ensures_map]
    exact reads_expression s hs

/-! ## Variables -/

theorem tokensOnly_arrayLength : TokensOnly arrayLength := by
  refine tokensOnly_peek.bind fun found => ?_
  split
  · exact tokensOnly_advance.bind fun _ => (tokensOnly_expect _).bind fun _ => .pure _
  · exact tokensOnly_here.bind fun _ => tokensOnly_fail _ _

theorem tokensOnly_variableType (type : CType) : TokensOnly (variableType type) := by
  refine (tokensOnly_accept _).bind fun found => ?_
  split
  · refine tokensOnly_arrayLength.bind fun length => (tokensOnly_check _).bind fun again => ?_
    dsimp only
    split
    · exact tokensOnly_here.bind fun _ => (tokensOnly_fail _ _).bind fun _ => .pure _
    · exact .pure _
  · exact .pure _

/-- A variable was read and its name was given to the innermost scope. -/
structure ReadVariable (storage : Storage) (s : Built) (d : DeclId) (t : Built) : Prop
    extends Enlarged s.program t.program where
  scopes : ∃ name, t.scopes = s.scopes.declare name d
  new : s.program.decls.size ≤ d.index
  lt : d.index < t.program.decls.size
  kind : ∃ type init, (t.program.decl d).kind = .variable type init storage
  names : t.program.Settled fun r => ∀ init, (r.decl d).init? = some init →
    ∀ {f d'}, r.Contains init f → (r.expr f).kind = .declRef d' → t.scopes.Has d'

theorem isFunction_withInit (init : ExprId) (d : Decl) :
    (d.withInit init).isFunction = d.isFunction := by
  rcases d with ⟨_, _ | _, _⟩ <;> rfl

/-- A variable without initialiser may be added. -/
theorem enlarged_pushDecl (h : p.WellFormed) {d : Decl} (hd : d.init? = none)
    (hf : d.isFunction = false) : Enlarged p (p.pushDecl d).1 where
  extension := Program.extends_pushDecl p d
  functions {id} hid := by
    refine Program.decl_pushDecl_of_ne p d ?_
    rintro rfl
    rw [Program.decl_pushDecl_self, hf] at hid
    cases hid
  items := rfl
  wellFormed := h.pushDecl hd

/-- A variable that is new since `p` gets an initialiser. -/
theorem Enlarged.withInit (h : Enlarged p q) {d : DeclId} {init : ExprId}
    (hd : p.decls.size ≤ d.index) (hv : (q.decl d).isFunction = false) (hinit : q.IsRoot init) :
    Enlarged p (q.modifyDecl d (Decl.withInit init)) where
  extension := h.extension.modifyDecl hd _
  functions {id} hid := by
    have hne : id ≠ d := by
      rintro rfl
      have hlt := Program.lt_size_of_isFunction hid
      rw [Program.size_modifyDecl] at hlt
      rw [Program.decl_modifyDecl_self q _ hlt, isFunction_withInit, hv] at hid
      cases hid
    rw [Program.decl_modifyDecl_of_ne q _ hne] at hid ⊢
    exact h.functions hid
  items := h.items
  wellFormed := by
    refine h.wellFormed.modifyDecl fun e he => ?_
    unfold Decl.withInit at he
    split at he
    · cases he
      exact hinit
    · next hk => simp [Decl.init?, hk] at he

/-- A variable has been read as soon as it is added and its name is in scope. -/
theorem ReadVariable.added (hs : s.program.WellFormed) (name : String) (type : CType)
    (storage : Storage) (loc : Location) :
    let (program, d) := s.program.pushDecl ⟨name, .variable type none storage, loc⟩
    ReadVariable storage s d ⟨program, s.scopes.declare name d⟩ := by
  let decl : Decl := ⟨name, .variable type none storage, loc⟩
  have hd : (s.program.pushDecl decl).1.decl (s.program.pushDecl decl).2 = decl :=
    Program.decl_pushDecl_self s.program decl
  have hlt : (s.program.pushDecl decl).2.index < (s.program.pushDecl decl).1.decls.size := by
    simp [Program.pushDecl]
  refine ⟨enlarged_pushDecl hs rfl rfl, ⟨name, rfl⟩, Nat.le_refl _, hlt,
    ⟨type, none, congrArg Decl.kind hd⟩, fun r hr init hinit => ?_⟩
  have hr' : r.decl (s.program.pushDecl decl).2 = decl := by
    rw [hr.nonFunctions hlt (congrArg Decl.isFunction hd)]
    exact hd
  cases (congrArg Decl.init? hr').symm.trans hinit

/-- It has still been read when it gets an initialiser. -/
theorem ReadVariable.initialised {storage : Storage} {d : DeclId} {init : ExprId}
    (h : ReadVariable storage s d t) (hinit : ReadExpr t init u) :
    ReadVariable storage s d ⟨u.program.modifyDecl d (Decl.withInit init), u.scopes⟩ := by
  obtain ⟨type, old, hkind⟩ := h.kind
  -- reading the initialiser has added expressions only
  have hdecl : u.program.decl d = t.program.decl d := by
    rw [Program.decl, hinit.grown.decls, Program.decl]
  have hlt : d.index < u.program.decls.size := by
    rw [hinit.grown.decls]
    exact h.lt
  have hu : Enlarged s.program u.program := by
    refine h.toEnlarged.trans ⟨hinit.grown.extension, fun _ => ?_, hinit.grown.items,
      h.wellFormed.grown hinit.grown⟩
    rw [Program.decl, hinit.grown.decls, Program.decl]
  have hself : ((u.program.modifyDecl d (Decl.withInit init)).decl d).kind =
      .variable type (some init) storage := by
    rw [Program.decl_modifyDecl_self _ _ hlt, hdecl, Decl.withInit, hkind]
  refine ⟨hu.withInit h.new ?_ ⟨hinit.pending.lt, hinit.pending.free⟩, ?_, h.new, ?_, ?_, ?_⟩
  · rw [hdecl, Decl.isFunction, hkind]
  · exact hinit.scopes ▸ h.scopes
  · rwa [Program.size_modifyDecl]
  · exact ⟨type, some init, hself⟩
  · -- the initialiser is settled, so it is the same in every later program
    intro r hr e he f d' hf hk
    have hrd : r.decl d = (u.program.modifyDecl d (Decl.withInit init)).decl d := by
      refine hr.nonFunctions ?_ ?_
      · rwa [Program.size_modifyDecl]
      · rw [Decl.isFunction, hself]
    rw [hrd, Decl.init?, hself] at he
    cases he
    rw [hinit.scopes]
    exact hinit.names hr.expr hf hk

theorem ensures_addDecl {name : String} {kind : DeclKind} {loc : Location} {s : ParserState}
    {Q : DeclId → ParserState → Prop} :
    Ensures (addDecl name kind loc) s Q ↔
      let (program, d) := s.program.pushDecl ⟨name, kind, loc⟩
      Q d { s with program } := Iff.rfl

theorem ensures_declare {name : String} {d : DeclId} {loc : Location} {s : ParserState}
    {Q : Unit → ParserState → Prop} (h : Q () { s with scopes := s.scopes.declare name d }) :
    Ensures (declare name d loc) s Q := by
  unfold declare
  rw [ensures_bind, ensures_get]
  split
  · exact ensures_fail
  · exact h

/-- What follows a new variable may rely on its having been read. -/
theorem ensures_addVariable {α : Type} {name : String} {type : CType} {storage : Storage}
    {loc : Location} {s : ParserState} {f : DeclId → Parser α} {Q : α → ParserState → Prop}
    (hs : s.program.WellFormed)
    (hf : ∀ d t, ReadVariable storage s.built d t.built → Ensures (f d) t Q) :
    Ensures (addDecl name (.variable type none storage) loc >>= fun d =>
      declare name d loc >>= fun _ => f d) s Q :=
  have hnew := ReadVariable.added (s := s.built) hs name type storage loc
  ensures_bind.2 (ensures_addDecl.2 (ensures_bind.2 (ensures_declare (hf _ _ hnew))))

/-- What comes after the name of a variable declares it. -/
theorem reads_variableRest (type : CType) (name : String) (loc : Location) (storage : Storage) :
    Reads (·.program.WellFormed) (ReadVariable storage) (variableRest type name loc storage) := by
  refine .of_tokens (tokensOnly_variableType type) fun type s hs => ?_
  dsimp only
  split
  · exact ensures_bind.2 ensures_fail
  · refine ensures_addVariable hs fun d t hd => tokensOnly_here.ensures_bind fun equals _ => ?_
    refine (tokensOnly_accept _).ensures_bind fun assigned _ => ?_
    split
    · dsimp only
      split
      · exact ensures_bind.2 ensures_fail
      · refine readsExpr_expression.ensures_bind hd.wellFormed.tree fun init u hinit => ?_
        exact hd.initialised hinit
    · exact hd

theorem reads_declarator (base : CType) (storage : Storage) :
    Reads (·.program.WellFormed) (ReadVariable storage) (declarator base storage) :=
  .of_tokens (tokensOnly_stars base) fun type => .of_tokens tokensOnly_here fun loc =>
    .of_tokens tokensOnly_identifier fun name => reads_variableRest type name loc storage

/-- Local variables were read that are in scope from their initialisers on. -/
structure ReadLocals (s : Built) (ds : List DeclId) (t : Built) : Prop where
  advance : Advance s t
  locals : t.scopes.locals = ds.reverse ++ s.scopes.locals
  declared : t.program.Settled fun r => r.DeclaresInScope s.scopes.locals ds

/-- A local variable is a list of one. -/
theorem ReadVariable.readLocals {d : DeclId} (hs : InFunction s) (h : ReadVariable .local s d t) :
    ReadLocals s [d] t := by
  obtain ⟨name, hscopes⟩ := h.scopes
  obtain ⟨type, init, hkind⟩ := h.kind
  have hlocals : t.scopes.locals = d :: s.scopes.locals := by
    rw [hscopes, Scopes.locals_declare hs.inner]
  have hfile : t.scopes.file = s.scopes.file := by rw [hscopes, Scopes.file_declare hs.inner]
  have hadvance : Advance s t := by
    refine ⟨h.toEnlarged, hfile, ?_, ?_⟩
    · rw [hscopes, Scopes.length_inner_declare]
    · rw [hscopes, Scopes.tail_inner_declare]
  refine ⟨hadvance, hlocals, fun r hr => ?_⟩
  have hf : (t.program.decl d).isFunction = false := by rw [Decl.isFunction, hkind]
  refine ⟨by rw [hr.nonFunctions h.lt hf, hf], fun e he f d' hf' hk => ?_, trivial⟩
  rw [← hlocals]
  exact ((hs.toSound.advance hadvance).has (h.names r hr e he hf' hk)).imp_right (·.extends hr)

/-- Local variables may be read one after the other. -/
theorem sequence_readLocals : Sequence InFunction (fun s d t => ReadLocals s [d] t) ReadLocals where
  keeps hs h := hs.advance h.advance
  nil hs := ⟨.refl hs.toSound, rfl, fun _ _ => trivial⟩
  cons {s d t ds u} h h' := by
    refine ⟨h.advance.trans h'.advance, ?_, fun r hr => ?_⟩
    · rw [h'.locals, h.locals]
      simp
    · have hd := h.declared r (h'.advance.extension.trans hr)
      have hds := h'.declared r hr
      rw [h.locals] at hds
      exact ⟨hd.1, hd.2.1, hds⟩

/-- The variables of a local declaration are in scope after it. -/
theorem reads_localDeclaration : Reads InFunction ReadLocals localDeclaration := by
  refine .of_tokens tokensOnly_baseType fun base s hs => ?_
  have hdeclarator : Reads InFunction (fun s d t => ReadLocals s [d] t) (declarator base .local) :=
    (reads_declarator base .local).mono (fun _ h => h.wellFormed) fun _ _ _ hs h => h.readLocals hs
  refine hdeclarator.ensures_bind hs fun d t hd => ensures_bind.2 ?_
  refine tokensOnly_remaining.ensures_bind fun bound _ => ?_
  refine (hdeclarator.afterCommas sequence_readLocals bound).ensures_bind
    (sequence_readLocals.keeps hs hd) fun ds u hds => ?_
  exact (tokensOnly_expect _).ensures_bind fun _ _ => sequence_readLocals.cons hd hds

/-! ## Statements -/

/-- Statements were read that mention names in scope only. -/
structure ReadStmts (s : Built) (ids : List StmtId) (t : Built) : Prop where
  advance : Advance s t
  inScope : t.program.Settled fun r => r.Scoped s.scopes.locals ids t.scopes.locals

/-- A parser that reads a statement. -/
abbrev ReadsStmt (x : Parser StmtId) : Prop := Reads InFunction (fun s id t => ReadStmts s [id] t) x

theorem ReadStmts.nil (hs : InFunction s) : ReadStmts s [] s :=
  ⟨.refl hs.toSound, fun _ _ => .nil⟩

/-- Lists of statements may be read one after the other. -/
theorem ReadStmts.cons {id : StmtId} {ids : List StmtId} (h : ReadStmts s [id] t)
    (h' : ReadStmts t ids u) : ReadStmts s (id :: ids) u :=
  ⟨h.advance.trans h'.advance, fun r hr =>
    (h.inScope r (h'.advance.extension.trans hr)).cons (h'.inScope r hr)⟩

theorem sequence_readStmts : Sequence InFunction (fun s id t => ReadStmts s [id] t) ReadStmts :=
  ⟨fun hs h => hs.advance h.advance, .nil, .cons⟩

/-- A statement may be added whose expressions are roots, and keeps its form from then on. -/
theorem ensures_addStmt {kind : StmtKind} {loc : Location} {s : ParserState}
    (hs : s.program.WellFormed) (hk : ∀ e ∈ kind.exprs, s.program.IsRoot e) :
    Ensures (addStmt kind loc) s fun id t =>
      Enlarged s.program t.program ∧ t.scopes = s.scopes ∧
        t.program.Settled fun r => (r.stmt id).kind = kind := by
  let stmt : Stmt := ⟨kind, loc⟩
  have hself : (s.program.pushStmt stmt).1.stmt (s.program.pushStmt stmt).2 = stmt :=
    Program.stmt_pushStmt_self s.program stmt
  refine ⟨⟨Program.extends_pushStmt s.program stmt, fun _ => rfl, rfl, hs.pushStmt hk⟩, rfl,
    fun r hr => ?_⟩
  refine (congrArg Stmt.kind (hr.stmt ?_)).trans (congrArg Stmt.kind hself)
  simp

/-- A statement is added when its parts were read. -/
theorem Advance.ensures_addStmt {b : Built} {kind : StmtKind} {loc : Location} {s : ParserState}
    (h : Advance b s.built) (hk : ∀ e ∈ kind.exprs, s.program.IsRoot e)
    (hscoped : ∀ r id, s.program.Extends r → (r.stmt id).kind = kind →
      r.Scoped b.scopes.locals [id] s.scopes.locals) :
    Ensures (addStmt kind loc) s fun id t => ReadStmts b [id] t.built := by
  refine (Parser.ensures_addStmt h.wellFormed hk).mono fun id t ⟨hst, hscopes, hkind⟩ => ?_
  have hadvance : Advance s.built t.built := .of_enlarged hst hscopes
  refine ⟨h.trans hadvance, fun r hr => ?_⟩
  have hlocals : t.built.scopes.locals = s.scopes.locals := congrArg Scopes.locals hscopes
  rw [hlocals]
  exact hscoped r id (hst.extension.trans hr) (hkind r hr)

/-- The value of a `return` mentions names in scope only. -/
theorem readsStmt_return (loc : Location) : ReadsStmt (returnRest loc) := by
  intro s hs
  refine (reads_expressionUnless _).ensures_bind hs.toSound fun value t hvalue => ?_
  refine (tokensOnly_expect _).ensures_bind fun _ _ => ?_
  refine hvalue.advance.ensures_addStmt hvalue.roots fun r id hr hk => ?_
  have hlocals : t.scopes.locals = s.scopes.locals := congrArg Scopes.locals hvalue.scopes
  rw [show ({ t with rest := _ } : ParserState).scopes.locals = s.scopes.locals from hlocals]
  refine .ret hk (fun e he => ?_) .nil
  exact hvalue.inScope r hr e (Option.mem_toList.2 he)

/-- A statement that is one expression. -/
theorem ReadRoots.ensures_addExprStmt {b : Built} {e : ExprId} {loc : Location} {s : ParserState}
    (he : ReadRoots b [e] s.built) :
    Ensures (addStmt (.expr e) loc) s fun id t => ReadStmts b [id] t.built := by
  refine he.advance.ensures_addStmt he.roots fun r id hr hk => ?_
  rw [show s.scopes = b.scopes from he.scopes]
  exact .expr hk (he.inScope r hr e (by simp)) .nil

/-- A statement that declares variables. -/
theorem ReadLocals.ensures_addDeclaration {b : Built} {ds : List DeclId} {loc : Location}
    {s : ParserState} (hds : ReadLocals b ds s.built) :
    Ensures (addStmt (.declare ds) loc) s fun id t => ReadStmts b [id] t.built := by
  refine hds.advance.ensures_addStmt (by simp [StmtKind.exprs]) fun r id hr hk => ?_
  rw [show s.scopes.locals = _ from hds.locals]
  exact .declare hk (hds.declared r hr) .nil

/-- So does the first clause of a loop, which may be missing. -/
theorem reads_forInit : Reads InFunction (fun s init t => ReadStmts s init.toList t) forInit := by
  refine .of_tokens tokensOnly_here fun loc => .of_tokens (tokensOnly_accept _) fun found s hs => ?_
  split
  · exact .nil hs
  · refine tokensOnly_startsType.ensures_bind fun found _ => ?_
    split
    · refine reads_localDeclaration.ensures_bind hs fun ds t hds => ?_
      rw [ensures_map]
      exact hds.ensures_addDeclaration
    · refine reads_expression.ensures_bind hs.toSound fun e t he => ?_
      refine (tokensOnly_expect _).ensures_bind fun _ _ => ?_
      rw [ensures_map]
      exact ReadRoots.ensures_addExprStmt he

/-! ## Scopes -/

/-- What is built where a scope begins. -/
def Built.enter (s : Built) : Built := ⟨s.program, s.scopes.enter⟩

/-- A scope inside a function is inside it as well. -/
theorem InFunction.enter (hs : InFunction s) : InFunction (Built.enter s) :=
  ⟨⟨hs.wellFormed, hs.file⟩, List.cons_ne_nil _ _⟩

/-- When a scope is left, the names are those from before it. -/
theorem Advance.leave (h : Advance (Built.enter s) t) : t.scopes.leave = s.scopes := by
  have hinner : t.scopes.inner.tail = s.scopes.inner := h.outer
  have hfile : t.scopes.file = s.scopes.file := h.file
  rw [Scopes.leave, hinner, hfile]

theorem ensures_inScope {α : Type} {x : Parser α} {s : ParserState} {Q : α → ParserState → Prop} :
    Ensures (inScope x) s Q ↔
      Ensures x { s with scopes := s.scopes.enter } fun a t =>
        Q a { t with scopes := t.scopes.leave } := by
  unfold inScope
  rw [ensures_bind, ensures_modify, ensures_bind]
  rfl

/-! ## Statements with parts -/

theorem tokensOnly_blockEnds : TokensOnly blockEnds := by
  refine tokensOnly_peek.bind fun found => ?_
  split <;> exact .pure _

section Parts

variable {statement : Parser StmtId} (h : ReadsStmt statement)
include h

/-- The statements of a block are read one after the other up to its end. -/
theorem reads_blockBody : Reads InFunction ReadStmts (blockBody statement) :=
  .of_tokens tokensOnly_remaining fun bound =>
    h.repeatUntil sequence_readStmts tokensOnly_blockEnds bound

/-- A block is read in a scope of its own. -/
theorem readsStmt_block (loc : Location) : ReadsStmt (blockRest statement loc) := by
  intro s hs
  have hblock := reads_blockBody h { s with scopes := s.scopes.enter } hs.enter
  refine ensures_bind.2 (ensures_inScope.2 (hblock.mono fun body t hbody => ?_))
  refine (tokensOnly_expect _).ensures_bind fun _ _ => ?_
  have hscopes : t.scopes.leave = s.scopes := Advance.leave (s := s.built) hbody.advance
  have hadvance : Advance s.built ⟨t.program, t.scopes.leave⟩ :=
    .of_enlarged hbody.advance.toEnlarged hscopes
  refine Advance.ensures_addStmt hadvance (by simp [StmtKind.exprs]) fun r id hr hk => ?_
  exact hscopes.symm ▸ .block hk (hbody.inScope r hr) .nil

/-- The branches of an `if` are read one after the other. -/
theorem readsStmt_if (loc : Location) : ReadsStmt (ifRest statement loc) := by
  refine .of_tokens (tokensOnly_expect _) fun _ s hs => ?_
  refine reads_expression.ensures_bind hs.toSound fun c t hc => ?_
  refine (tokensOnly_expect _).ensures_bind fun _ _ => ?_
  have ht : InFunction t.built := hs.advance hc.advance
  refine h.ensures_bind ht fun thenBranch u hthen => ?_
  have hu : InFunction u.built := ht.advance hthen.advance
  have hadd : ∀ (elseBranch : Option StmtId) (v : ParserState),
      ReadStmts u.built elseBranch.toList v.built →
      Ensures (addStmt (.ifElse c thenBranch elseBranch) loc) v fun id w =>
        ReadStmts s.built [id] w.built := by
    intro elseBranch v helse
    have hbranches := hthen.cons helse
    refine (hc.advance.trans hbranches.advance).ensures_addStmt (fun e he => ?_)
      fun r id hr hk => ?_
    · exact (hc.roots e he).extends hbranches.advance.extension
    · refine .ifElse hk (hc.inScope r (hbranches.advance.extension.trans hr) c (by simp)) ?_ .nil
      have hlocals : t.built.scopes.locals = s.built.scopes.locals :=
        congrArg Scopes.locals hc.scopes
      exact hlocals ▸ hbranches.inScope r hr
  refine (tokensOnly_accept _).ensures_bind fun found rest => ?_
  dsimp only
  split
  · rw [ensures_bind, ensures_map]
    exact (h { u with rest } hu).mono fun id v hid => hadd (some id) v hid
  · rw [ensures_bind]
    exact hadd none _ (.nil hu)

theorem readsStmt_while (loc : Location) : ReadsStmt (whileRest statement loc) := by
  refine .of_tokens (tokensOnly_expect _) fun _ s hs => ?_
  refine reads_expression.ensures_bind hs.toSound fun c t hc => ?_
  refine (tokensOnly_expect _).ensures_bind fun _ _ => ?_
  refine h.ensures_bind (hs.advance hc.advance) fun body u hbody => ?_
  refine (hc.advance.trans hbody.advance).ensures_addStmt (fun e he => ?_) fun r id hr hk => ?_
  · exact (hc.roots e he).extends hbody.advance.extension
  · refine .whileLoop hk (hc.inScope r (hbody.advance.extension.trans hr) c (by simp)) ?_ .nil
    have hlocals : t.built.scopes.locals = s.built.scopes.locals := congrArg Scopes.locals hc.scopes
    exact hlocals ▸ hbody.inScope r hr

/-- The first clause of a loop is in scope in the other clauses and in the body. -/
theorem readsStmt_for (loc : Location) : ReadsStmt (forRest statement loc) := by
  intro s hs
  refine ensures_inScope.2 ((tokensOnly_expect _).ensures_bind fun _ _ => ?_)
  refine reads_forInit.ensures_bind hs.enter fun init t hinit => ?_
  have ht : InFunction t.built := hs.enter.advance hinit.advance
  refine (reads_expressionUnless _).ensures_bind ht.toSound fun c u hc => ?_
  refine (tokensOnly_expect _).ensures_bind fun _ _ => ?_
  have hu : InFunction u.built := ht.advance hc.advance
  refine (reads_expressionUnless _).ensures_bind hu.toSound fun increment v hincrement => ?_
  refine (tokensOnly_expect _).ensures_bind fun _ _ => ?_
  have hv : InFunction v.built := hu.advance hincrement.advance
  refine h.ensures_bind hv fun body w hbody => ?_
  have hvw := hbody.advance
  have huw := hincrement.advance.trans hvw
  have htw := hc.advance.trans huw
  -- all parts are read in the scope of the loop, each after those before it
  have hadvance : Advance (Built.enter s.built) w.built := hinit.advance.trans htw
  have hroots : ∀ e ∈ (StmtKind.forLoop init c increment body).exprs, w.program.IsRoot e := by
    intro e he
    rcases List.mem_append.1 he with he | he
    · exact (hc.roots e he).extends huw.extension
    · exact (hincrement.roots e he).extends hvw.extension
  refine (Parser.ensures_addStmt hvw.wellFormed hroots).mono fun id x ⟨hwx, hscopes, hkind⟩ => ?_
  -- that scope is left with the names from before the loop
  have hleave : x.scopes.leave = s.scopes := hscopes ▸ hadvance.leave
  refine ⟨.of_enlarged (hadvance.toEnlarged.trans hwx) hleave, fun r hr => ?_⟩
  have hwr := hwx.extension.trans hr
  have hcu : u.built.scopes.locals = t.built.scopes.locals := congrArg Scopes.locals hc.scopes
  have hiv : v.built.scopes.locals = u.built.scopes.locals :=
    congrArg Scopes.locals hincrement.scopes
  have hresult : r.Scoped s.scopes.locals [id] s.scopes.locals := by
    refine .forLoop (hkind r hr) (hinit.inScope r (htw.extension.trans hwr)) (fun e he => ?_)
      (fun e he => ?_) (hcu ▸ hiv ▸ hbody.inScope r hwr) .nil
    · exact hc.inScope r (huw.extension.trans hwr) e (Option.mem_toList.2 he)
    · exact hcu ▸ hincrement.inScope r (hvw.extension.trans hwr) e (Option.mem_toList.2 he)
  exact hleave ▸ hresult

/-- A statement mentions names in scope only if the statements in it do. -/
theorem readsStmt_statementStep : ReadsStmt (statementStep statement) := by
  refine .of_tokens tokensOnly_here fun loc => .of_tokens (tokensOnly_accept _) fun brace => ?_
  split
  · exact readsStmt_block h loc
  refine .of_tokens (tokensOnly_accept _) fun word => ?_
  split
  · exact readsStmt_return loc
  refine .of_tokens (tokensOnly_accept _) fun word => ?_
  split
  · exact readsStmt_if h loc
  refine .of_tokens (tokensOnly_accept _) fun word => ?_
  split
  · exact readsStmt_while h loc
  refine .of_tokens (tokensOnly_accept _) fun word => ?_
  split
  · exact readsStmt_for h loc
  refine .of_tokens (tokensOnly_accept _) fun semicolon => ?_
  split
  · intro s hs
    exact (Advance.refl hs.toSound).ensures_addStmt (by simp [StmtKind.exprs]) fun r id _ hk =>
      .empty hk .nil
  refine .of_tokens tokensOnly_startsType fun type => ?_
  split
  · exact fun s hs => reads_localDeclaration.ensures_bind hs fun ds t hds =>
      hds.ensures_addDeclaration
  · intro s hs
    refine reads_expression.ensures_bind hs.toSound fun e t he => ?_
    exact (tokensOnly_expect _).ensures_bind fun _ _ => ReadRoots.ensures_addExprStmt he

end Parts

/-- Statements mention names in scope only, to whatever depth they nest. -/
theorem readsStmt_statementWithin (bound : Nat) : ReadsStmt (statementWithin bound) := by
  induction bound with
  | zero => exact reads_unexpected
  | succ bound ih => exact readsStmt_statementStep ih

/-- So do the statements of a function. -/
theorem reads_functionStatements : Reads InFunction ReadStmts functionStatements :=
  .of_tokens tokensOnly_remaining fun bound => reads_blockBody (readsStmt_statementWithin bound)

end Parser

end MiniC
