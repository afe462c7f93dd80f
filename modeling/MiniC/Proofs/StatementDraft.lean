import MiniC.Proofs.ExpressionDraft
import MiniC.Proofs.StatementTree

/-!
# Reading statements makes steps of the construction

A parser for a statement adds one loose part to the draft (`Parser.DraftsStmt`), a parser for a
variable of a function another one. They keep every property of programs that is not affected by the
nodes of function bodies (`Parser.KeptByBodies`), such as that a given function has no body yet.
-/

set_option autoImplicit false

namespace MiniC

/-! ## Names in scope -/

namespace Scopes

variable {scopes : Scopes} {d d' : DeclId}

theorem has_enter (h : scopes.enter.Has d) : scopes.Has d := by
  obtain ⟨scope, hscope, name, hname⟩ := h
  rcases List.mem_cons.1 hscope with rfl | hscope
  · cases hname
  · exact ⟨scope, hscope, name, hname⟩

/-- What is in scope outside was in scope inside. -/
theorem has_leave (h : scopes.leave.Has d) : scopes.Has d := by
  obtain ⟨scope, hscope, name, hname⟩ := h
  refine ⟨scope, ?_, name, hname⟩
  rcases List.mem_append.1 hscope with hinner | hfile
  · exact List.mem_append_left _ (List.mem_of_mem_tail hinner)
  · exact List.mem_append_right _ hfile

/-- A name that is declared puts one declaration in scope. -/
theorem has_declare (name : String) (h : (scopes.declare name d).Has d') :
    d' = d ∨ scopes.Has d' := by
  obtain ⟨scope, hscope, name', hname⟩ := h
  rcases scopes with ⟨_ | ⟨first, outer⟩, file⟩
  · obtain rfl : scope = (name, d) :: file := List.mem_singleton.1 hscope
    rcases List.mem_cons.1 hname with heq | hname
    · exact .inl (congrArg Prod.snd heq)
    · exact .inr ⟨file, List.mem_singleton_self _, name', hname⟩
  · rcases List.mem_cons.1 hscope with rfl | hscope
    · rcases List.mem_cons.1 hname with heq | hname
      · exact .inl (congrArg Prod.snd heq)
      · exact .inr ⟨first, List.mem_cons_self, name', hname⟩
    · exact .inr ⟨scope, List.mem_cons_of_mem _ hscope, name', hname⟩

theorem has_declareInFile (name : String) (h : (scopes.declareInFile name d).Has d') :
    d' = d ∨ scopes.Has d' := by
  obtain ⟨scope, hscope, name', hname⟩ := h
  rcases List.mem_append.1 hscope with hinner | hfile
  · exact .inr ⟨scope, List.mem_append_left _ hinner, name', hname⟩
  · rw [List.mem_singleton] at hfile
    subst hfile
    rcases List.mem_cons.1 hname with heq | hname
    · exact .inl (congrArg Prod.snd heq)
    · exact .inr ⟨scopes.file, List.mem_append_right _ (List.mem_singleton_self _), name', hname⟩

end Scopes

namespace Parser

variable {α β : Type} {tokens : List Token} {F G : Program → Prop} {P P' : Multiset Part}
    {s t : ParserState}

namespace Drafting

/-- A name is given to a declaration of the program. -/
theorem declare {d : DeclId} (h : Drafting tokens F P s) (hd : d.index < s.program.decls.size)
    {scopes : Scopes} (hscopes : ∀ d', scopes.Has d' → d' = d ∨ s.scopes.Has d') :
    Drafting tokens F P { s with scopes } := by
  refine ⟨h.rest, fun hd' => ?_, h.holds, h.reached⟩
  rcases hscopes _ hd' with rfl | hd'
  · exact hd
  · exact h.names hd'

/-- A part of the file is read inside a scope of its own. -/
theorem ensures_inScope {x : Parser α} {G : α → Program → Prop} {R : α → Multiset Part}
    (h : Drafting tokens F P s)
    (hx : ∀ {t}, Drafting tokens F P t → Ensures x t fun a u => Drafting tokens (G a) (R a) u) :
    Ensures (inScope x) s fun a t => Drafting tokens (G a) (R a) t := by
  have henter : Drafting tokens F P { s with scopes := s.scopes.enter } :=
    ⟨h.rest, fun hd => h.names (Scopes.has_enter hd), h.holds, h.reached⟩
  refine Parser.ensures_inScope.2 ((hx henter).mono fun a t ht => ?_)
  exact ⟨ht.rest, fun hd => ht.names (Scopes.has_leave hd), ht.holds, ht.reached⟩

end Drafting

/-- The nodes of function bodies do not affect a property of programs. -/
structure KeptByBodies (F : Program → Prop) : Prop where
  exprs : KeptByExprs F
  stmt : ∀ {p : Program} (node : Stmt), F p → F (p.pushStmt node).1
  newVariable : ∀ {p : Program} (name : String) (type : CType) (storage : Storage) (loc : Location),
    F p → F (p.pushDecl ⟨name, .variable type none storage, loc⟩).1
  init : ∀ {p : Program} {d : DeclId} {type : CType} {storage : Storage} (e : ExprId),
    (p.decl d).kind = .variable type none storage → F p → F (p.modifyDecl d (Decl.withInit e))

/-- The parser adds a statement that is loose, and keeps what is not affected by that. -/
def DraftsStmt (tokens : List Token) (x : Parser StmtId) : Prop :=
  ∀ {F P s}, KeptByBodies F → Drafting tokens F P s →
    Ensures x s fun id t => Drafting tokens F (.stmt id ::ₘ P) t

/-- A statement that takes up loose parts. -/
theorem Drafting.ensures_addStmt {kind : StmtKind} {loc : Location} (hF : KeptByBodies F)
    (h : Drafting tokens F (↑kind.parts + P) s) :
    Ensures (addStmt kind loc) s fun id t => Drafting tokens F (.stmt id ::ₘ P) t :=
  h.step (.stmt ⟨kind, loc⟩) (Nat.le_refl _) (hF.stmt _ h.holds)

/-! ## Variables -/

/-- A variable of the program that has no initialiser yet. -/
structure IsBare (p : Program) (d : DeclId) (type : CType) (storage : Storage) : Prop where
  lt : d.index < p.decls.size
  kind : (p.decl d).kind = .variable type none storage

section Variables

variable (hplaces : (tokens.map Token.loc).Nodup) (hF : KeptByBodies F)
include hplaces hF

/-- A variable that still has no initialiser is given one. -/
theorem ensures_draftInit {d : DeclId} {type : CType} {storage : Storage}
    (h : Drafting tokens (fun p => F p ∧ IsBare p d type storage) P s) :
    Ensures (do let init ← expression; modifyDecl d (Decl.withInit init); return d) s
      fun d' t => d' = d ∧ Drafting tokens F P t := by
  have hkept : KeptByExprs fun p => F p ∧ IsBare p d type storage :=
    fun node hp => ⟨hF.exprs node hp.1, hp.2.lt, hp.2.kind⟩
  apply (draftsExpr_expression hplaces hkept h).bind
  intro init t ht
  obtain ⟨hholds, hbare⟩ := ht.drafting.holds
  have hsize := Program.size_modifyDecl t.program d (Decl.withInit init)
  exact ⟨rfl, ht.drafting.step (.init init hbare.lt hbare.kind) (Nat.le_of_eq hsize.symm)
    (hF.init init hbare.kind hholds)⟩

/-- A variable is one more loose part. -/
theorem ensures_draftVariable (h : Drafting tokens F P s) (type : CType)
    (name : String) (loc : Location) (storage : Storage) :
    Ensures (variableRest type name loc storage) s fun d t =>
      Drafting tokens F (↑(storage.parts d) + P) t := by
  apply h.bind_tokensOnly (tokensOnly_variableType type)
  intro type t ht
  dsimp only
  split
  · exact ensures_bind.2 ensures_fail
  let new : Decl := ⟨name, .variable type none storage, loc⟩
  let d : DeclId := (t.program.pushDecl new).2
  have hbare : IsBare (t.program.pushDecl new).1 d type storage :=
    ⟨Program.index_pushDecl_lt _ _, congrArg Decl.kind (Program.decl_pushDecl_self t.program new)⟩
  have hnew : Drafting tokens (fun p => F p ∧ IsBare p d type storage) (↑(storage.parts d) + P)
      { t with program := (t.program.pushDecl new).1 } :=
    ht.step (.newVariable name type storage loc) (Program.extends_pushDecl t.program new).decls
      ⟨hF.newVariable name type storage loc ht.holds, hbare⟩
  refine ensures_bind.2 (ensures_addDecl.2 (ensures_bind.2 (ensures_declare ?_)))
  have hnamed := hnew.declare hbare.lt fun _ => Scopes.has_declare name
  -- the initialiser may mention the variable, but reading it does not give the variable another one
  apply hnamed.bind_tokensOnly tokensOnly_here
  intro equals u hu
  apply hu.bind_tokensOnly (tokensOnly_accept _)
  intro assigned v hv
  split
  · split
    · exact ensures_bind.2 ensures_fail
    · apply (ensures_draftInit hplaces hF hv).mono
      intro d' w hw
      obtain ⟨rfl, hw⟩ := hw
      exact hw
  · exact hv.mono fun _ hp => hp.1

/-- So is what a declarator declares. -/
theorem ensures_draftDeclarator (h : Drafting tokens F P s) (base : CType) (storage : Storage) :
    Ensures (declarator base storage) s fun d t =>
      Drafting tokens F (↑(storage.parts d) + P) t := by
  apply h.bind_tokensOnly (tokensOnly_stars base)
  intro type t ht
  apply ht.bind_tokensOnly tokensOnly_here
  intro loc u hu
  apply hu.bind_tokensOnly tokensOnly_identifier
  intro name v hv
  exact ensures_draftVariable hplaces hF hv type name loc storage

/-- The variables of a list are loose one after the other. -/
theorem ensures_draftDeclarators (base : CType) (storage : Storage) {ds : List DeclId}
    (h : Drafting tokens F (↑(ds.flatMap storage.parts) + P) s) :
    Ensures (otherDeclarators base storage) s fun others t =>
      Drafting tokens F (↑((ds ++ others).flatMap storage.parts) + P) t := by
  apply h.bind_tokensOnly tokensOnly_remaining
  intro bound t ht
  have hothers : Ensures (afterCommas (declarator base storage) bound) t fun others u =>
      Drafting tokens F (↑((ds ++ others).flatMap storage.parts) + P) u := by
    apply ensures_afterCommas (F := fun _ => F)
      (P := fun ds => ↑(ds.flatMap storage.parts) + P) _ bound ht
    intro as u hu
    apply (ensures_draftDeclarator hplaces hF hu base storage).mono
    intro d v hv
    apply hv.of_count_eq
    intro x
    simp only [List.flatMap_append, List.flatMap_singleton, Multiset.count_add, Multiset.coe_count,
      List.count_append]
    omega
  apply hothers.bind
  intro others u hu
  exact hu.bind_tokensOnly (tokensOnly_expect _) fun _ v hv => hv

/-- The variables of a local declaration are loose until the statement is added. -/
theorem ensures_draftLocals (h : Drafting tokens F P s) :
    Ensures localDeclaration s fun ds t => Drafting tokens F (↑(ds.map Part.localVar) + P) t := by
  apply h.bind_tokensOnly tokensOnly_baseType
  intro base t ht
  apply (ensures_draftDeclarator hplaces hF ht base .local).bind
  intro d u hu
  rw [← List.flatMap_singleton Storage.local.parts d] at hu
  apply (ensures_draftDeclarators hplaces hF base .local hu).bind
  intro others v hv
  rw [ensures_pure, List.map_eq_flatMap]
  exact hv

end Variables

/-! ## Statements -/

section Statements

variable (hplaces : (tokens.map Token.loc).Nodup)
include hplaces

/-- An expression that may be missing is loose if it is there. -/
theorem ensures_draftExpressionUnless (hF : KeptByBodies F)
    (h : Drafting tokens F P s) (sign : Punct) :
    Ensures (expressionUnless sign) s fun value t =>
      Drafting tokens F (↑(value.toList.map Part.expr) + P) t := by
  apply h.bind_tokensOnly (tokensOnly_check _)
  intro found t ht
  split
  · simpa using ht
  · rw [ensures_map]
    apply (draftsExpr_expression hplaces hF.exprs ht).mono
    intro e u hu
    simpa using hu.drafting

/-- A `return` uses up its value. -/
theorem draftsStmt_return (loc : Location) : DraftsStmt tokens (returnRest loc) := by
  intro F P s hF hs
  apply (ensures_draftExpressionUnless hplaces hF hs _).bind
  intro value t ht
  apply ht.bind_tokensOnly (tokensOnly_expect _)
  intro _ u hu
  apply Drafting.ensures_addStmt hF
  simpa using hu

omit hplaces in
/-- An expression that is a statement is used up by it. -/
theorem ensures_draftExprStmt (hF : KeptByBodies F) {e : ExprId} {loc : Location}
    (h : Drafting tokens F (.expr e ::ₘ P) s) :
    Ensures (addStmt (.expr e) loc) s fun id t => Drafting tokens F (.stmt id ::ₘ P) t := by
  apply Drafting.ensures_addStmt hF
  simpa using h

omit hplaces in
/-- A declaration uses up its variables. -/
theorem ensures_draftDeclaration (hF : KeptByBodies F) {ds : List DeclId} {loc : Location}
    (h : Drafting tokens F (↑(ds.map Part.localVar) + P) s) :
    Ensures (addStmt (.declare ds) loc) s fun id t => Drafting tokens F (.stmt id ::ₘ P) t := by
  apply Drafting.ensures_addStmt hF
  simpa using h

/-- The first clause of a loop is a loose statement if it is there. -/
theorem ensures_draftForInit (hF : KeptByBodies F) (h : Drafting tokens F P s) :
    Ensures forInit s fun init t => Drafting tokens F (↑(init.toList.map Part.stmt) + P) t := by
  have hsome {x : Parser StmtId} {t : ParserState}
      (hx : Ensures x t fun id u => Drafting tokens F (.stmt id ::ₘ P) u) :
      Ensures (some <$> x) t fun init u => Drafting tokens F (↑(init.toList.map Part.stmt) + P) u :=
    ensures_map.2 (hx.mono fun id u hu => by simpa using hu)
  apply h.bind_tokensOnly tokensOnly_here
  intro loc t ht
  apply ht.bind_tokensOnly (tokensOnly_accept _)
  intro found u hu
  split
  · simpa using hu
  apply hu.bind_tokensOnly tokensOnly_startsType
  intro found v hv
  split
  · apply (ensures_draftLocals hplaces hF hv).bind
    intro ds w hw
    exact hsome (ensures_draftDeclaration hF hw)
  · apply (draftsExpr_expression hplaces hF.exprs hv).bind
    intro e w hw
    apply hw.drafting.bind_tokensOnly (tokensOnly_expect _)
    intro _ x hx
    exact hsome (ensures_draftExprStmt hF hx)

variable {statement : Parser StmtId} (h : DraftsStmt tokens statement)
include h

omit hplaces in
/-- The statements of a block are loose until the block is added. -/
theorem ensures_draftBlockBody (hF : KeptByBodies F) (hs : Drafting tokens F P s) :
    Ensures (blockBody statement) s fun ids t =>
      Drafting tokens F (↑(ids.map Part.stmt) + P) t := by
  apply hs.bind_tokensOnly tokensOnly_remaining
  intro bound t ht
  apply ensures_repeatUntil (F := fun _ => F)
    (P := fun ids => ↑(ids.map Part.stmt) + P) _ tokensOnly_blockEnds bound []
  · simpa using ht
  · intro ids u hu
    apply (h hF hu).mono
    intro id v hv
    rw [parts_concat]
    exact hv

omit hplaces in
/-- A block uses up the statements in it. -/
theorem draftsStmt_block (loc : Location) : DraftsStmt tokens (blockRest statement loc) := by
  intro F P s hF hs
  have hbody :=
    hs.ensures_inScope (G := fun _ => F) (R := fun ids : List StmtId => ↑(ids.map Part.stmt) + P)
    fun ht => ensures_draftBlockBody h hF ht
  apply hbody.bind
  intro ids t ht
  apply ht.bind_tokensOnly (tokensOnly_expect _)
  intro _ u hu
  apply Drafting.ensures_addStmt hF
  simpa using hu

/-- An `if` uses up its condition and its branches. -/
theorem draftsStmt_if (loc : Location) : DraftsStmt tokens (ifRest statement loc) := by
  intro F P s hF hs
  apply hs.bind_tokensOnly (tokensOnly_expect _)
  intro _ t ht
  apply (draftsExpr_expression hplaces hF.exprs ht).bind
  intro c u hu
  apply hu.drafting.bind_tokensOnly (tokensOnly_expect _)
  intro _ v hv
  apply (h hF hv).bind
  intro thenBranch w hw
  -- with and without `else`, the parts of the node are loose when it is added
  have hadd (elseBranch : Option StmtId) {x : ParserState}
      (hx : Drafting tokens F
        (↑(elseBranch.toList.map Part.stmt) + (.stmt thenBranch ::ₘ .expr c ::ₘ P)) x) :
      Ensures (addStmt (.ifElse c thenBranch elseBranch) loc) x fun id y =>
        Drafting tokens F (.stmt id ::ₘ P) y := by
    apply Drafting.ensures_addStmt hF
    apply hx.of_count_eq
    intro x
    simp only [StmtKind.parts_ifElse, Multiset.count_add, Multiset.coe_count, count_cons_parts,
      List.count_append]
    omega
  apply hw.bind_tokensOnly (tokensOnly_accept _)
  intro found x hx
  dsimp only
  split
  · rw [ensures_bind, ensures_map]
    apply (h hF hx).mono
    intro id y hy
    apply hadd (some id)
    rw [Option.toList_some, List.map_singleton, Multiset.coe_singleton, Multiset.singleton_add]
    exact hy
  · rw [ensures_bind]
    exact hadd none (by simpa using hx)

/-- A `while` uses up its condition and its body. -/
theorem draftsStmt_while (loc : Location) : DraftsStmt tokens (whileRest statement loc) := by
  intro F P s hF hs
  apply hs.bind_tokensOnly (tokensOnly_expect _)
  intro _ t ht
  apply (draftsExpr_expression hplaces hF.exprs ht).bind
  intro c u hu
  apply hu.drafting.bind_tokensOnly (tokensOnly_expect _)
  intro _ v hv
  apply (h hF hv).bind
  intro body w hw
  apply Drafting.ensures_addStmt hF
  simpa [← Multiset.cons_coe] using hw

/-- A `for` uses up its clauses and its body. -/
theorem draftsStmt_for (loc : Location) : DraftsStmt tokens (forRest statement loc) := by
  intro F P s hF hs
  apply hs.ensures_inScope (G := fun _ => F) (R := fun id => .stmt id ::ₘ P)
  intro t ht
  apply ht.bind_tokensOnly (tokensOnly_expect _)
  intro _ u hu
  apply (ensures_draftForInit hplaces hF hu).bind
  intro init v hv
  apply (ensures_draftExpressionUnless hplaces hF hv _).bind
  intro c w hw
  apply hw.bind_tokensOnly (tokensOnly_expect _)
  intro _ x hx
  apply (ensures_draftExpressionUnless hplaces hF hx _).bind
  intro increment y hy
  apply hy.bind_tokensOnly (tokensOnly_expect _)
  intro _ z hz
  apply (h hF hz).bind
  intro body r hr
  apply Drafting.ensures_addStmt hF
  -- the part that was read last was made loose last; the node lists them in the order of the text
  apply hr.of_count_eq
  intro x
  simp only [StmtKind.parts_forLoop, Multiset.count_add, Multiset.coe_count, count_cons_parts,
    List.count_append]
  omega

/-- A statement is one loose part if those in it are. -/
theorem draftsStmt_statementStep : DraftsStmt tokens (statementStep statement) := by
  intro F P s hF hs
  -- one case for each word or sign that a statement can begin with, in the order in which they are
  -- tried
  apply hs.bind_tokensOnly tokensOnly_here
  intro loc t ht
  apply ht.bind_tokensOnly (tokensOnly_accept _)
  intro brace t ht
  split
  · exact draftsStmt_block h loc hF ht
  apply ht.bind_tokensOnly (tokensOnly_accept _)
  intro word t ht
  split
  · exact draftsStmt_return hplaces loc hF ht
  apply ht.bind_tokensOnly (tokensOnly_accept _)
  intro word t ht
  split
  · exact draftsStmt_if hplaces h loc hF ht
  apply ht.bind_tokensOnly (tokensOnly_accept _)
  intro word t ht
  split
  · exact draftsStmt_while hplaces h loc hF ht
  apply ht.bind_tokensOnly (tokensOnly_accept _)
  intro word t ht
  split
  · exact draftsStmt_for hplaces h loc hF ht
  apply ht.bind_tokensOnly (tokensOnly_accept _)
  intro semicolon t ht
  split
  · apply Drafting.ensures_addStmt hF
    simpa using ht
  apply ht.bind_tokensOnly tokensOnly_startsType
  intro type t ht
  split
  · apply (ensures_draftLocals hplaces hF ht).bind
    intro ds u hu
    exact ensures_draftDeclaration hF hu
  · apply (draftsExpr_expression hplaces hF.exprs ht).bind
    intro e u hu
    apply hu.drafting.bind_tokensOnly (tokensOnly_expect _)
    intro _ v hv
    exact ensures_draftExprStmt hF hv

end Statements

/-- A statement is one loose part, to whatever depth it nests. -/
theorem draftsStmt_statementWithin (hplaces : (tokens.map Token.loc).Nodup) (bound : Nat) :
    DraftsStmt tokens (statementWithin bound) := by
  induction bound with
  | zero => exact fun _ _ => ensures_unexpected
  | succ bound ih => exact draftsStmt_statementStep hplaces ih

/-- The statements of a function are loose until its body is added. -/
theorem ensures_draftFunctionStatements (hplaces : (tokens.map Token.loc).Nodup)
    (hF : KeptByBodies F) (h : Drafting tokens F P s) :
    Ensures functionStatements s fun ids t => Drafting tokens F (↑(ids.map Part.stmt) + P) t := by
  apply h.bind_tokensOnly tokensOnly_remaining
  intro bound t ht
  exact ensures_draftBlockBody (draftsStmt_statementWithin hplaces bound) hF ht

end Parser

end MiniC
