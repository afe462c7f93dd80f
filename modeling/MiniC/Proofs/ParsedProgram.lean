import MiniC.Proofs.StatementTree

/-!
# Programs that were read

Reading a file keeps an invariant between its declarations (`Parser.FileSound`): the bodies of
functions mention their parameters, variables that come before in the body, and names of the file,
and initialisers of variables of the file mention names of the file only. So this holds of every
program that a text writes (`Program.resolved_of_parse`).
-/

set_option autoImplicit false

namespace MiniC

theorem Decl.isFunction_of_kind {d : Decl} {returnType : CType} {params : List DeclId}
    {body : Option StmtId} (h : d.kind = .function returnType params body) :
    d.isFunction = true := by
  rw [isFunction, h]

namespace Program

/-- The body of a function mentions its parameters, its variables and names of the file only. -/
def BodyInScope (p : Program) (params : List DeclId) (body : StmtId) : Prop :=
  ∃ V W, (∀ d ∈ V, d ∈ params) ∧ p.Scoped V [body] W

/-- A variable of the file. -/
structure IsGlobal (p : Program) (d : DeclId) : Prop where
  lt : d.index < p.decls.size
  kind : ∃ type init, (p.decl d).kind = .variable type init .global

/-- A variable of the file whose initialiser mentions names of the file only. -/
structure GlobalInScope (p : Program) (d : DeclId) : Prop extends p.IsGlobal d where
  inScope : ∀ init, (p.decl d).init? = some init → p.InScope [] init

/-- Expressions form trees and names are in scope. -/
structure Resolved (p : Program) : Prop where
  wellFormed : p.WellFormed
  bodies : ∀ {d returnType params body},
    (p.decl d).kind = .function returnType params (some body) → p.BodyInScope params body
  globals : ∀ {d}, .variable d ∈ p.items → p.GlobalInScope d

/-- A variable of the file is a declaration of the file. -/
theorem IsGlobal.fileLevel {p : Program} {d : DeclId} (h : p.IsGlobal d) : p.FileLevel d := by
  obtain ⟨type, init, hkind⟩ := h.kind
  exact ⟨h.lt, by rw [Decl.isFileLevel, hkind]; rfl⟩

end Program

namespace Parser

variable {s t u : Built}

/-! ## Between declarations -/

/-- What holds between the declarations of a file. -/
structure FileSound (s : Built) : Prop extends Sound s where
  bodies : ∀ {d returnType params body},
    (s.program.decl d).kind = .function returnType params (some body) →
      s.program.Settled (·.BodyInScope params body)
  globals : ∀ {d}, .variable d ∈ s.program.items → s.program.Settled (·.GlobalInScope d)

/-- The same where no scope inside the file is open. -/
structure AtFile (s : Built) : Prop extends FileSound s where
  inner : s.scopes.inner = []

/-- Nodes may be added between declarations as long as the names of the file are those of its
declarations. -/
theorem FileSound.enlarged (hs : FileSound s) (h : Enlarged s.program t.program)
    (hfile : ∀ entry ∈ t.scopes.file, t.program.FileLevel entry.2) : FileSound t where
  wellFormed := h.wellFormed
  file := hfile
  bodies {d _ _ _} hk := by
    have hf : (t.program.decl d).isFunction = true := by rw [Decl.isFunction, hk]
    rw [h.functions hf] at hk
    exact (hs.bodies hk).extends h.extension
  globals hd := (hs.globals (h.items ▸ hd)).extends h.extension

/-- Reading a part of a function keeps what holds of the file. -/
theorem FileSound.advance (hs : FileSound s) (h : Advance s t) : FileSound t :=
  hs.enlarged h.toEnlarged (hs.toSound.advance h).file

/-- Opening and closing scopes inside the file keeps what holds between its declarations. -/
theorem FileSound.of_file_eq {scopes : Scopes} (hs : FileSound s)
    (hfile : scopes.file = s.scopes.file) : FileSound ⟨s.program, scopes⟩ :=
  ⟨⟨hs.wellFormed, fun entry hentry => hs.file entry (hfile ▸ hentry)⟩, hs.bodies, hs.globals⟩

/-! ## Variables of the file -/

/-- Variables of the file were read. -/
structure ReadGlobals (s : Built) (ds : List DeclId) (t : Built) : Prop where
  atFile : AtFile t
  extension : s.program.Extends t.program
  globals : ∀ d ∈ ds, t.program.Settled (·.GlobalInScope d)

/-- A variable outside all functions is one of the file. -/
theorem ReadVariable.readGlobals {d : DeclId} (hs : AtFile s) (h : ReadVariable .global s d t) :
    ReadGlobals s [d] t := by
  obtain ⟨name, hscopes⟩ := h.scopes
  obtain ⟨type, init, hkind⟩ := h.kind
  have hf : (t.program.decl d).isFunction = false := by rw [Decl.isFunction, hkind]
  have hglobal : t.program.IsGlobal d := ⟨h.lt, type, init, hkind⟩
  have hdeclare : s.scopes.declare name d = ⟨[], (name, d) :: s.scopes.file⟩ := by
    rw [Scopes.declare, hs.inner]
  have hfile : ∀ entry ∈ t.scopes.file, t.program.FileLevel entry.2 := by
    rw [hscopes, hdeclare]
    refine List.forall_mem_cons.2 ⟨hglobal.fileLevel, fun entry hentry => ?_⟩
    exact (hs.file entry hentry).extends h.extension
  have ht : AtFile t := by
    refine ⟨hs.toFileSound.enlarged h.toEnlarged hfile, ?_⟩
    rw [hscopes, hdeclare]
  refine ⟨ht, h.extension, List.forall_mem_singleton.2 fun r hr => ⟨⟨?_, type, init, ?_⟩, ?_⟩⟩
  · exact Nat.lt_of_lt_of_le h.lt hr.decls
  · rw [hr.nonFunctions h.lt hf, hkind]
  · intro e he f d' hf' hk
    have hlocals : t.scopes.locals = [] := by rw [Scopes.locals, ht.inner]; rfl
    have hd := (ht.toSound.has (h.names r hr e he hf' hk)).imp_right (·.extends hr)
    rwa [hlocals] at hd

/-- Variables of the file may be read one after the other. -/
theorem sequence_readGlobals : Sequence AtFile (fun s d t => ReadGlobals s [d] t) ReadGlobals where
  keeps _ h := h.atFile
  nil hs := ⟨hs, .refl _, by simp⟩
  cons {s d t ds u} h h' := by
    refine ⟨h'.atFile, h.extension.trans h'.extension, List.forall_mem_cons.2 ⟨?_, h'.globals⟩⟩
    exact (h.globals d (by simp)).extends h'.extension

/-- An item may be added if it is settled what its variable is. -/
theorem FileSound.pushItem {item : Item} (hs : FileSound s)
    (hitem : ∀ d, item = .variable d → s.program.Settled (·.GlobalInScope d)) :
    FileSound ⟨s.program.pushItem item, s.scopes⟩ where
  wellFormed := ⟨⟨hs.wellFormed.tree.lt, hs.wellFormed.tree.unique, hs.wellFormed.tree.nodup⟩,
    fun he => ⟨(hs.wellFormed.stmts he).lt, (hs.wellFormed.stmts he).free⟩,
    fun he => ⟨(hs.wellFormed.inits he).lt, (hs.wellFormed.inits he).free⟩⟩
  file entry hentry := (hs.file entry hentry).extends (Program.extends_pushItem _ item)
  bodies hk := (hs.bodies hk).extends (Program.extends_pushItem _ item)
  globals {d} hd := by
    refine Program.Settled.extends ?_ (Program.extends_pushItem _ item)
    rcases Array.mem_push.1 hd with hd | hd
    · exact hs.globals hd
    · exact hitem d hd.symm

/-- All variables of a declaration get their items. -/
theorem ensures_addItems (ds : List DeclId) {s : ParserState} (hs : AtFile s.built)
    (hds : ∀ d ∈ ds, s.program.Settled (·.GlobalInScope d)) :
    Ensures (ds.forM fun d => addItem (.variable d)) s fun _ t => AtFile t.built := by
  induction ds generalizing s with
  | nil => exact hs
  | cons d ds ih =>
    refine ensures_bind.2 (ih ?_ fun d' hd' => ?_)
    · refine ⟨hs.toFileSound.pushItem fun d' hd' => ?_, hs.inner⟩
      cases hd'
      exact hds d (by simp)
    · exact (hds d' (by simp [hd'])).extends (Program.extends_pushItem _ _)

/-! ## Parameters -/

theorem tokensOnly_parameterName : TokensOnly parameterName := by
  refine tokensOnly_peek.bind fun found => ?_
  split
  · exact tokensOnly_advance.bind fun _ => .pure _
  · exact .pure _

theorem tokensOnly_parameterType (type : CType) : TokensOnly (parameterType type) := by
  refine (tokensOnly_accept _).bind fun found => ?_
  split
  · refine tokensOnly_peek.bind fun found => ?_
    dsimp only
    split
    · exact tokensOnly_advance.bind fun _ => (TokensOnly.pure _).bind fun _ =>
        (tokensOnly_expect _).bind fun _ => .pure _
    · exact (TokensOnly.pure _).bind fun _ => (tokensOnly_expect _).bind fun _ => .pure _
  · exact .pure _

/-- Parameters were read; names that are new in scope mean parameters. -/
structure ReadParams (s : Built) (ds : List DeclId) (t : Built) : Prop where
  advance : Advance s t
  locals : ∀ d ∈ t.scopes.locals, d ∈ s.scopes.locals ∨ d ∈ ds

/-- A parameter is a variable without initialiser. -/
theorem ensures_addParam {name : String} {type : CType} {loc : Location} {s : ParserState}
    (hs : InFunction s.built) :
    Ensures (addDecl name (.variable type none .param) loc) s fun _ t =>
      Enlarged s.program t.program ∧ t.scopes = s.scopes :=
  ⟨enlarged_pushDecl hs.wellFormed rfl rfl, rfl⟩

/-- What is read as a parameter is one. -/
theorem reads_parameter : Reads InFunction (fun s d t => ReadParams s [d] t) parameter := by
  refine .of_tokens tokensOnly_typeName fun type => .of_tokens tokensOnly_here fun loc => ?_
  refine .of_tokens tokensOnly_parameterName fun name => ?_
  refine .of_tokens (tokensOnly_parameterType type) fun type s hs => ?_
  dsimp only
  split
  · exact ensures_bind.2 ensures_fail
  · refine ensures_bind.2 ((ensures_addParam hs).mono fun d t ⟨hst, hscopes⟩ => ?_)
    have hadvance : Advance s.built t.built := .of_enlarged hst hscopes
    have ht := hs.advance hadvance
    have hlocals : t.built.scopes.locals = s.built.scopes.locals := congrArg Scopes.locals hscopes
    split
    · exact ⟨hadvance, fun d' hd' => .inl (hlocals ▸ hd')⟩
    · refine ensures_bind.2 (ensures_declare ⟨⟨hst, ?_, ?_, ?_⟩, fun d' hd' => ?_⟩)
      · exact (Scopes.file_declare ht.inner name d).trans hadvance.file
      · exact (Scopes.length_inner_declare t.scopes name d).trans hadvance.depth
      · exact (Scopes.tail_inner_declare t.scopes name d).trans hadvance.outer
      · have hnew := Scopes.locals_declare ht.inner name d
        rcases List.mem_cons.1 (hnew ▸ hd') with rfl | hd'
        · exact .inr (by simp)
        · exact .inl (hlocals ▸ hd')

/-- Parameters may be read one after the other. -/
theorem sequence_readParams : Sequence InFunction (fun s d t => ReadParams s [d] t) ReadParams where
  keeps hs h := hs.advance h.advance
  nil hs := ⟨.refl hs.toSound, fun _ => .inl⟩
  cons {s d t ds u} h h' := by
    refine ⟨h.advance.trans h'.advance, fun d' hd' => ?_⟩
    rcases h'.locals d' hd' with hd' | hd'
    · exact (h.locals d' hd').imp_right fun hmem =>
        List.mem_cons.2 (.inl (List.mem_singleton.1 hmem))
    · exact .inr (List.mem_cons_of_mem d hd')

theorem tokensOnly_startsVoidList : TokensOnly startsVoidList := by
  refine .of_same fun s => ?_
  unfold startsVoidList
  rw [ensures_bind, ensures_get]
  split <;> rfl

/-- What is read between the parentheses of a function are parameters. -/
theorem reads_parameters : Reads InFunction ReadParams parameters := by
  refine .of_tokens (tokensOnly_check _) fun found => ?_
  split
  · exact fun s hs => sequence_readParams.nil hs
  refine .of_tokens tokensOnly_startsVoidList fun found => ?_
  split
  · exact .of_tokens tokensOnly_advance fun _ s hs => sequence_readParams.nil hs
  · exact reads_parameter.commaSeparated sequence_readParams

/-! ## Functions -/

/-- A function that stands for a name was found or added. -/
structure FoundFunction (s : Built) (d : DeclId) (t : Built) : Prop where
  fileSound : FileSound t
  inner : t.scopes.inner = s.scopes.inner
  isFunction : (t.program.decl d).isFunction = true

/-- A function without a body may be added. -/
theorem FileSound.addFunction (hs : FileSound s) (name : String) (returnType : CType)
    (params : List DeclId) (loc : Location) :
    let (program, d) := s.program.pushDecl ⟨name, .function returnType params none, loc⟩
    FoundFunction s d ⟨program.pushItem (.function d), s.scopes.declareInFile name d⟩ := by
  let decl : Decl := ⟨name, .function returnType params none, loc⟩
  let p := (s.program.pushDecl decl).1
  let d := (s.program.pushDecl decl).2
  have hself : p.decl d = decl := Program.decl_pushDecl_self s.program decl
  have hextends : s.program.Extends p := Program.extends_pushDecl s.program decl
  have hsound : FileSound ⟨p, s.scopes⟩ := by
    refine ⟨⟨hs.wellFormed.pushDecl rfl, fun entry hentry =>
      ?_⟩, fun {d' _ _ _} hk => ?_, fun hd => ?_⟩
    · exact (hs.file entry hentry).extends hextends
    · by_cases hne : d' = d
      · rw [hne, show p.decl d = decl from hself] at hk
        cases hk
      · rw [Program.decl_pushDecl_of_ne s.program decl hne] at hk
        exact (hs.bodies hk).extends hextends
    · exact (hs.globals hd).extends hextends
  have hitem : FileSound ⟨p.pushItem (.function d), s.scopes⟩ := hsound.pushItem nofun
  have hlevel : (p.pushItem (.function d)).FileLevel d := by
    refine ⟨by simp [p, d, Program.pushDecl, Program.pushItem], ?_⟩
    rw [show (p.pushItem (.function d)).decl d = decl from hself]
    rfl
  refine ⟨⟨⟨hitem.wellFormed, ?_⟩, hitem.bodies, hitem.globals⟩, rfl, ?_⟩
  · exact List.forall_mem_cons.2 ⟨hlevel, hitem.file⟩
  · exact congrArg Decl.isFunction hself

/-- The declaration that stands for a name is found, or added if there is none. -/
theorem reads_functionDecl (returnType : CType) (name : String) (loc : Location)
    (params : List DeclId) :
    Reads FileSound FoundFunction (functionDecl returnType name loc params) := by
  refine .of_tokens (.of_same fun _ => rfl) fun found s hs => ?_
  split
  · next d =>
    unfold declOf
    rw [ensures_bind, ensures_bind, ensures_get, ensures_pure]
    split
    · next hf => exact ⟨hs, rfl, hf⟩
    · exact ensures_bind.2 ensures_fail
  · exact hs.addFunction name returnType params loc

/-- Changing a function keeps what holds between declarations, if a body that it then has is in
scope. -/
theorem FileSound.modifyFunction (hs : FileSound s) {d : DeclId} {f : Decl → Decl}
    (hd : (s.program.decl d).isFunction = true) (hf : (f (s.program.decl d)).isFunction = true)
    (hbody : ∀ {returnType params body},
      (f (s.program.decl d)).kind = .function returnType params (some body) →
        s.program.Settled (·.BodyInScope params body)) :
    FileSound ⟨s.program.modifyDecl d f, s.scopes⟩ := by
  have hextends : s.program.Extends (s.program.modifyDecl d f) := Program.extends_modifyDecl _ hd hf
  have hself := Program.decl_modifyDecl_self s.program f (Program.lt_size_of_isFunction hd)
  refine ⟨⟨hs.wellFormed.modifyDecl fun e he => ?_, fun entry hentry =>
    ?_⟩, fun {d' _ _ _} hk => ?_, fun hd => ?_⟩
  · unfold Decl.isFunction at hf
    unfold Decl.init? at he
    split at he <;> simp_all
  · exact (hs.file entry hentry).extends hextends
  · by_cases hne : d' = d
    · rw [hne, hself] at hk
      exact (hbody hk).extends hextends
    · rw [Program.decl_modifyDecl_of_ne s.program f hne] at hk
      exact (hs.bodies hk).extends hextends
  · exact (hs.globals hd).extends hextends

/-- A function without a body takes over the parameters of its definition. -/
theorem FileSound.withParams (hs : FileSound s) {d : DeclId} (params : List DeclId) (loc : Location)
    (hd : (s.program.decl d).isFunction = true) (hfresh : (s.program.decl d).hasBody = false) :
    FileSound ⟨s.program.modifyDecl d (Decl.withParams params loc), s.scopes⟩ ∧
      ∃ returnType, ((s.program.modifyDecl d (Decl.withParams params loc)).decl d).kind =
        .function returnType params none := by
  obtain ⟨returnType, hwith⟩ : ∃ returnType,
      ((s.program.decl d).withParams params loc).kind = .function returnType params none := by
    generalize s.program.decl d = decl at hd hfresh
    rcases decl with ⟨name, _ | ⟨returnType, old, _ | body⟩, oldLoc⟩
    · cases hd
    · exact ⟨returnType, rfl⟩
    · cases hfresh
  refine ⟨hs.modifyFunction hd ?_ fun hk => ?_, returnType, ?_⟩
  · rw [Decl.isFunction, hwith]
  · cases hwith.symm.trans hk
  · rw [Program.decl_modifyDecl_self _ _ (Program.lt_size_of_isFunction hd), hwith]

/-- A function gets a body that was read where its parameters were in scope. -/
theorem FileSound.withBody (hs : FileSound s) {d : DeclId} {body : StmtId} {returnType : CType}
    {params : List DeclId} (hd : (s.program.decl d).kind = .function returnType params none)
    (hbody : s.program.Settled (·.BodyInScope params body)) :
    FileSound ⟨s.program.modifyDecl d (Decl.withBody body), s.scopes⟩ := by
  have hwith : ((s.program.decl d).withBody body).kind =
      .function returnType params (some body) := by
    rw [Decl.withBody, hd]
  refine hs.modifyFunction ?_ ?_ fun hk => ?_
  · rw [Decl.isFunction, hd]
  · rw [Decl.isFunction, hwith]
  · cases hwith.symm.trans hk
    exact hbody

/-- A body mentions parameters, its own variables and names of the file only. -/
theorem ensures_functionBody {d : DeclId} {name : String} {loc opening : Location}
    {params : List DeclId} {s : ParserState} (hs : FileSound s.built) (hinner : s.scopes.inner ≠ [])
    (hd : (s.program.decl d).isFunction = true) (hparams : ∀ d' ∈ s.scopes.locals, d' ∈ params) :
    Ensures (functionBody d name loc opening params) s fun _ t =>
      FileSound t.built ∧ t.scopes.inner.tail = s.scopes.inner.tail := by
  unfold functionBody declOf
  rw [ensures_bind, ensures_bind, ensures_get, ensures_pure]
  split
  · exact ensures_bind.2 ensures_fail
  next hfresh =>
  obtain ⟨hsound, returnType, hkind⟩ :=
    hs.withParams params loc hd (Bool.eq_false_iff.2 hfresh)
  have hfunction : InFunction ⟨s.program.modifyDecl d (Decl.withParams params loc), s.scopes⟩ :=
    ⟨hsound.toSound, hinner⟩
  refine ensures_bind.2 (reads_functionStatements.ensures_bind hfunction fun ids t hids => ?_)
  refine (tokensOnly_expect _).ensures_bind fun _ rest => ?_
  refine ensures_bind.2 (.mono (ensures_addStmt hids.advance.wellFormed ?_) fun body u hu => ?_)
  · simp [StmtKind.exprs]
  obtain ⟨htu, hscopes, hbody⟩ := hu
  have hsu : Advance ⟨s.program.modifyDecl d (Decl.withParams params loc), s.scopes⟩ u.built :=
    hids.advance.trans (.of_enlarged htu hscopes)
  have hf := Decl.isFunction_of_kind hkind
  have hu := hsu.extension.functions (Program.lt_size_of_isFunction hf) hf
  have hkept : (u.program.decl d).kind = .function returnType params none :=
    (congrArg Decl.kind (hsu.functions hu)).trans hkind
  refine ⟨(hsound.advance hsu).withBody hkept ?_, hsu.outer⟩
  intro r hr
  exact ⟨_, _, hparams, .block (hbody r hr) (hids.inScope r (htu.extension.trans hr)) .nil⟩

/-- After a function no scope inside the file is open. -/
theorem reads_functionRest (returnType : CType) (name : String) (loc : Location) :
    Reads AtFile (fun _ _ t => AtFile t) (functionRest returnType name loc) := by
  intro s hs
  have henter : InFunction (Built.enter s.built) := ⟨⟨hs.wellFormed, hs.file⟩, List.cons_ne_nil _ _⟩
  refine ensures_inScope.2 (reads_parameters.ensures_bind henter fun params t hparams => ?_)
  refine (tokensOnly_expect _).ensures_bind fun _ _ => ?_
  have hadvance : Advance (Built.enter s.built) t.built := hparams.advance
  have hentered : FileSound (Built.enter s.built) := hs.toFileSound.of_file_eq rfl
  have ht : FileSound t.built := hentered.advance hadvance
  have hinner : t.scopes.inner ≠ [] := (henter.advance hadvance).inner
  have houter : t.scopes.inner.tail = [] := hadvance.outer.trans hs.inner
  -- outside the parameters no local variable is in scope yet
  have hlocals : ∀ d ∈ t.scopes.locals, d ∈ params := by
    intro d hd
    have hnil : s.scopes.inner = [] := hs.inner
    refine (hparams.locals d hd).resolve_left fun (hmem : d ∈ s.scopes.enter.locals) => ?_
    rw [Scopes.locals_enter, Scopes.locals, hnil] at hmem
    cases hmem
  refine (reads_functionDecl returnType name loc params).ensures_bind ht fun d u hd => ?_
  have hu : u.scopes.inner = t.scopes.inner := hd.inner
  refine tokensOnly_here.ensures_bind fun opening _ => ?_
  refine (tokensOnly_accept _).ensures_bind fun brace rest => ?_
  -- whether a body follows or not, the scope of the function is left at the end
  have hleave : ∀ v : ParserState, FileSound v.built → v.scopes.inner.tail = u.scopes.inner.tail →
      AtFile ⟨v.program, v.scopes.leave⟩ := fun v hv htail =>
    ⟨hv.of_file_eq rfl, htail.trans (hu ▸ houter)⟩
  split
  · have hlocals' : u.scopes.locals = t.scopes.locals := by rw [Scopes.locals, Scopes.locals, hu]
    refine (ensures_functionBody (s := { u with rest }) hd.fileSound (hu ▸ hinner) hd.isFunction
      fun d' hd' => hlocals d' (hlocals' ▸ hd')).mono fun _ v hv => hleave v hv.1 hv.2
  · refine (tokensOnly_expect _ _).mono fun _ v hv => ?_
    obtain ⟨rest', -, rfl⟩ := hv
    exact hleave u hd.fileSound rfl

/-! ## Files -/

/-- Every declaration of the file keeps what holds between declarations. -/
theorem reads_topLevel : Reads AtFile (fun _ _ t => AtFile t) topLevel := by
  refine .of_tokens (tokensOnly_accept _) fun _ => .of_tokens tokensOnly_baseType fun base => ?_
  refine .of_tokens (tokensOnly_stars base) fun type => .of_tokens tokensOnly_here fun loc => ?_
  refine .of_tokens tokensOnly_identifier fun name =>
    .of_tokens (tokensOnly_accept _) fun paren s hs => ?_
  split
  · exact reads_functionRest type name loc s hs
  · have hglobal : ∀ {x : Parser DeclId}, Reads (·.program.WellFormed) (ReadVariable .global) x →
        Reads AtFile (fun s d t => ReadGlobals s [d] t) x :=
      fun hx => hx.mono (fun _ h => h.wellFormed) fun _ _ _ hs h => h.readGlobals hs
    refine (hglobal (reads_variableRest type name loc .global)).ensures_bind hs fun d t hd => ?_
    refine ensures_bind.2 (tokensOnly_remaining.ensures_bind fun bound _ => ?_)
    refine ((hglobal (reads_declarator base .global)).afterCommas sequence_readGlobals
      bound).ensures_bind hd.atFile fun ds u hds => ?_
    refine (tokensOnly_expect _).ensures_bind fun _ _ => ?_
    exact ensures_addItems (d :: ds) hds.atFile (sequence_readGlobals.cons hd hds).globals

/-- What holds between declarations holds at the end of the file. -/
theorem reads_translationUnit : Reads AtFile (fun _ _ t => AtFile t) translationUnit := by
  refine .of_tokens tokensOnly_remaining fun bound s hs => ?_
  have hatEnd : TokensOnly atEnd := .of_same fun _ => rfl
  have hsequence : Sequence AtFile (fun _ (_ : Unit) t => AtFile t) fun _ _ t => AtFile t :=
    ⟨fun _ h => h, id, fun _ h => h⟩
  exact (reads_topLevel.repeatUntil hsequence hatEnd bound).ensures_bind hs fun _ t ht => ht

/-- It holds before anything is read. -/
theorem atFile_start (stream : TokenStream) : AtFile (ParserState.start stream).built := by
  refine ⟨⟨⟨Program.wellFormed_empty, nofun⟩, fun hk => ?_, fun hd => ?_⟩, rfl⟩
  · simp [ParserState.start, ParserState.built, Program.empty, Program.decl,
      Array.getD, default] at hk
  · simp [ParserState.start, ParserState.built, Program.empty] at hd

end Parser

/-- Every program that a text writes is resolved. -/
theorem Program.resolved_of_parse {source : String} {p : Program} (h : parse source = .ok p) :
    p.Resolved := by
  unfold parse at h
  split at h
  · next stream _ =>
    have hread := Parser.reads_translationUnit _ (Parser.atFile_start stream)
    unfold ofTokens Except.map at h
    split at h
    · cases h
    · next result hresult =>
      cases h
      have hfile : Parser.AtFile result.2.built := hread.of_ok hresult
      exact ⟨hfile.wellFormed, fun hk => hfile.bodies hk _ (.refl _), fun hd =>
        hfile.globals hd _ (.refl _)⟩
  · cases h

/-- A text that has a program has the one that was read. -/
theorem Program.parse_eq_ok {source : String} (h : (parse source).toOption.isSome = true) :
    parse source = .ok ((parse source).toOption.get h) := by
  revert h
  cases parse source with
  | ok p => exact fun _ => rfl
  | error e => exact fun h => nomatch h

/-- A parsed program with a property that can be decided. -/
theorem Program.exists_of_parse {source : String} {P : Program → Prop} [DecidablePred P]
    (h : (parse source).toOption.any (fun p => decide (P p)) = true) :
    ∃ p, parse source = .ok p ∧ P p := by
  cases hparse : parse source with
  | ok p =>
    rw [hparse] at h
    exact ⟨p, rfl, of_decide_eq_true h⟩
  | error e =>
    rw [hparse] at h
    cases h

end MiniC
