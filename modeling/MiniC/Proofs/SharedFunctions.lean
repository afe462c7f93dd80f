import MiniC.Proofs.FunctionRecords
import MiniC.Proofs.NameResolution
import MiniC.Proofs.ProgramStructure

/-!
# Functions share one declaration

All declarations of a function in a text stand for one declaration of the program and for one item,
in whatever order prototypes and definition come (`Program.functions_share_identity`).

Building a file keeps an invariant between its declarations (`Written.Shares`). A function adds to
it in two steps: first its name gets a declaration (`Written.Opened`), so that the body can call the
function, and then, with a body, the record is that of the definition (`Written.Opened.define`). In
between only variables of the function are added.
-/

set_option autoImplicit false

namespace MiniC

namespace Written

open MiniC.Parser

variable {α : Type} {stream : TokenStream} {p q : Program} {x : String} {d : DeclId}
    {fs : List FunctionAt}
  {g : FunctionAt} {xs : List String} {b b' : Built} {spot : Spot} {s t : ParserState}

/-! ## Between the declarations of a file -/

/-- Every function that was declared has its record, and names and items are those that were
declared. -/
structure Shares (stream : TokenStream) (fs : List FunctionAt) (xs : List String)
    (b : Built) : Prop where
  tabled : Tabled xs b
  listed : Listed xs b.program
  records : ∀ {d}, (b.program.decl d).isFunction = true →
    Recorded stream b.program (b.program.decl d).name (declarationsOf fs (b.program.decl d).name) d
  declared : ∀ f ∈ fs, ∃ d, b.scopes.file.lookup f.declared.name = some d ∧
    (b.program.decl d).isFunction = true

namespace Shares

/-- Before anything is read, no function is declared. -/
theorem nil_start (stream : TokenStream) :
    Shares stream [] [] (ParserState.start stream).built where
  tabled := .nil_start stream
  listed := .nil_start stream
  records h := absurd (Program.lt_size_of_isFunction h) (Nat.not_lt_zero _)
  declared := nofun

/-- Adding variables of functions changes nothing. -/
theorem expanded {storage : Storage} (h : Shares stream fs xs b) (hb : Expanded storage b b')
    (hstorage : storage ≠ .global) (hinner : b.scopes.inner ≠ []) : Shares stream fs xs b' := by
  have hspares (x : String) : Spares x b.program b'.program := .of_grows hb.program hstorage
  have hdecl {d : DeclId} (hd : (b'.program.decl d).isFunction = true) :
      b'.program.decl d = b.program.decl d := by
    exact hb.program.decl ((hspares "").new (fileLevel_of_isFunction hd))
  constructor
  · exact h.tabled.spares (hspares "") (hb.file hinner)
  · exact h.listed.spares (hspares "")
  · intro d hd
    have hold := hdecl hd
    rw [hold] at hd ⊢
    exact (h.records hd).of_kept hold (hspares "").param
  · intro f hf
    obtain ⟨d, hlookup, hd⟩ := h.declared f hf
    refine ⟨d, by rwa [hb.file hinner], ?_⟩
    rwa [hb.program.decl (Program.lt_size_of_isFunction hd)]

/-- Scopes inside the file do not matter. -/
theorem of_file_eq {scopes : Scopes} (h : Shares stream fs xs b)
    (hfile : scopes.file = b.scopes.file) :
    Shares stream fs xs ⟨b.program, scopes⟩ where
  tabled := h.tabled.spares (.refl "" b.program) hfile
  listed := h.listed
  records := h.records
  declared f hf := by
    rw [hfile]
    exact h.declared f hf

/-- A name that the file does not have yet is that of no function. -/
theorem declarationsOf_eq_nil (h : Shares stream fs xs b) (hx : b.scopes.file.lookup x = none) :
    declarationsOf fs x = [] := by
  rw [declarationsOf, List.filter_eq_nil_iff]
  intro f hf hname
  obtain ⟨d, hlookup, -⟩ := h.declared f hf
  rw [of_decide_eq_true hname, hx] at hlookup
  cases hlookup

end Shares

/-! ## Functions -/

/-- The name of a function has its declaration, and nothing is known yet of the definition that may
follow. -/
structure Opened (stream : TokenStream) (fs : List FunctionAt) (xs : List String)
    (g : FunctionAt) (d : DeclId) (b : Built) : Prop where
  tabled : Tabled (xs ++ [g.declared.name]) b
  listed : Listed (xs ++ [g.declared.name]) b.program
  others : ∀ {d'}, (b.program.decl d').isFunction = true →
    (b.program.decl d').name ≠ g.declared.name →
    Recorded stream b.program (b.program.decl d').name
      (declarationsOf fs (b.program.decl d').name) d'
  declared : ∀ f ∈ fs ++ [g], ∃ d, b.scopes.file.lookup f.declared.name = some d ∧
    (b.program.decl d).isFunction = true
  entry : b.scopes.file.lookup g.declared.name = some d
  kind : ∃ first params body, (declarationsOf fs g.declared.name ++ [g]).head? = some first ∧
    (b.program.decl d).kind = .function first.declared.returnType.type params body
  undefined : (b.program.decl d).hasBody = false →
    (declarationsOf fs g.declared.name).filter (·.declared.body.isSome) = []
  prototype : g.declared.body = none →
    Recorded stream b.program g.declared.name (declarationsOf fs g.declared.name ++ [g]) d

namespace Opened

/-- The declaration that was found or added is one of the program. -/
theorem lt (h : Opened stream fs xs g d b) : d.index < b.program.decls.size :=
  (h.tabled.entry h.entry).1

/-- It has the name that was read. -/
theorem name (h : Opened stream fs xs g d b) : (b.program.decl d).name = g.declared.name :=
  (h.tabled.entry h.entry).2

/-- It is that of a function. -/
theorem isFunction (h : Opened stream fs xs g d b) : (b.program.decl d).isFunction = true := by
  obtain ⟨first, params, body, -, hkind⟩ := h.kind
  rw [Decl.isFunction, hkind]

/-- The name means a function already. -/
theorem again (h : Shares stream fs xs b) (hentry : b.scopes.file.lookup g.declared.name = some d)
    (hd : (b.program.decl d).isFunction = true) : Opened stream fs xs g d b := by
  have hname : (b.program.decl d).name = g.declared.name := (h.tabled.entry hentry).2
  have hrecorded := h.records hd
  rw [hname] at hrecorded
  constructor
  · exact h.tabled.again hentry
  · exact h.listed.again (h.tabled.names.2 ⟨d, hentry⟩)
  · exact fun hd' _ => h.records hd'
  · exact List.forall_mem_append.2 ⟨h.declared, List.forall_mem_singleton.2 ⟨d, hentry, hd⟩⟩
  · exact hentry
  · obtain ⟨first, source, params, body, hrecord⟩ := hrecorded
    refine ⟨first, params, body, ?_, congrArg Decl.kind hrecord.decl⟩
    rw [List.head?_append, hrecord.head, Option.some_or]
  · -- a record without a body is that of prototypes alone
    intro hbody
    obtain ⟨first, source, params, body, hrecord⟩ := hrecorded
    rw [hrecord.definitions]
    cases body with
    | none => rfl
    | some body =>
      rw [Decl.hasBody, hrecord.decl] at hbody
      cases hbody
  · exact hrecorded.prototype

/-- The name is new in the file: the first declaration of the function is put down, with an item. -/
theorem first {params : List DeclId} (h : Shares stream fs xs b)
    (hb : Introduced b d g.declared.name b')
    (hitems : b'.program.items = b.program.items.push (.function d))
    (hdecl : b'.program.decl d = ⟨g.declared.name, .function g.declared.returnType.type params none,
      place stream g.pos⟩)
    (hparams : ParamsAt stream b.program (g.pos + 2) g.declared.params.toList params)
    (hincreasing : params.Pairwise (·.index < ·.index)) : Opened stream fs xs g d b' := by
  have hd : (b'.program.decl d).isFunction = true := by rw [hdecl]; rfl
  have hnone : declarationsOf fs g.declared.name = [] := h.declarationsOf_eq_nil hb.free
  have hentry : b'.scopes.file.lookup g.declared.name = some d := by
    rw [hb.file]
    exact List.lookup_cons_self
  have hkept {d' : DeclId} {type : CType} {init : Option ExprId}
      (hd' : (b.program.decl d').kind = .variable type init .param) :
        b'.program.decl d' = b.program.decl d' :=
    hb.decl (lt_size_of_isParam hd')
  constructor
  · exact h.tabled.introduce hb
  · exact h.listed.introduceItem hb
      (rfl : (MiniC.Item.function d).decl = d) hitems (h.tabled.not_mem hb.free) hd
  · -- another function was there before
    intro d' hd' hne
    rcases hb.eq_or_lt (Program.lt_size_of_isFunction hd') with rfl | hlt
    · exact absurd hb.name hne
    · have hold : b'.program.decl d' = b.program.decl d' := hb.decl hlt
      rw [hold] at hd' ⊢
      exact (h.records hd').of_kept hold hkept
  · -- the names before stay declared, and the new one is that of the new function
    refine List.forall_mem_append.2 ⟨fun f hf => ?_, List.forall_mem_singleton.2 ⟨d, hentry, hd⟩⟩
    obtain ⟨d', hlookup, hd'⟩ := h.declared f hf
    refine ⟨d', ?_, ?_⟩
    · rw [hb.file]
      exact lookup_of_new hb.free hlookup
    · rwa [hb.decl (Program.lt_size_of_isFunction hd')]
  · exact hentry
  · exact ⟨g, params, none, by rw [hnone]; rfl, congrArg Decl.kind hdecl⟩
  · intro _
    rw [hnone]
    rfl
  · intro hbody
    rw [hnone]
    exact ⟨g, g, params, none, hdecl, rfl, by simp [hbody], fun _ => rfl,
      hparams.of_kept hkept, hincreasing⟩

/-- The function has its record. -/
theorem close (h : Opened stream fs xs g d b)
    (hd : Recorded stream b.program g.declared.name (declarationsOf fs g.declared.name ++ [g]) d) :
    Shares stream (fs ++ [g]) (xs ++ [g.declared.name]) b := by
  refine ⟨h.tabled, h.listed, fun {d'} hd' => ?_, h.declared⟩
  by_cases hx : (b.program.decl d').name = g.declared.name
  · -- the name has one declaration in the file
    obtain rfl : d' = d := by
      have hlookup := h.tabled.lookup (fileLevel_of_isFunction hd')
      rw [hx, h.entry] at hlookup
      exact (Option.some.inj hlookup).symm
    rwa [hx, declarationsOf_concat_self]
  · rw [declarationsOf_concat_of_ne hx]
    exact h.others hd' hx

/-- The function that is defined gets the record of its definition. -/
theorem define {params old : List DeclId} {returnType : CType} {id : StmtId}
    (h : Opened stream fs xs g d b)
    (hold : (b.program.decl d).kind = .function returnType old none)
    (hb : Spares g.declared.name b.program b'.program)
    (hfile : b'.scopes.file = b.scopes.file) (hg : g.declared.body.isSome = true)
    (hdecl : b'.program.decl d = ⟨g.declared.name, .function returnType params (some id),
      place stream g.pos⟩)
    (hparams : ParamsAt stream b.program (g.pos + 2) g.declared.params.toList params)
    (hincreasing : params.Pairwise (·.index < ·.index)) :
    Shares stream (fs ++ [g]) (xs ++ [g.declared.name]) b' := by
  have hfunction {d' : DeclId} (hd' : (b'.program.decl d').isFunction = true) :
      (b.program.decl d').isFunction = true ∧
        (b'.program.decl d').name = (b.program.decl d').name := by
    have hlevel := hb.fileLevel (fileLevel_of_isFunction hd')
    exact ⟨(hb.isFunction hlevel.lt).symm.trans hd', hb.name hlevel.lt⟩
  -- the records of all other names are spared
  have hopened : Opened stream fs xs g d b' := by
    constructor
    · exact h.tabled.spares hb hfile
    · exact h.listed.spares hb
    · intro d' hd' hne
      obtain ⟨hd', hname⟩ := hfunction hd'
      rw [hname] at hne
      have hkept : b'.program.decl d' = b.program.decl d' :=
        hb.decl (Program.lt_size_of_isFunction hd') fun _ => hne
      rw [hname]
      exact (h.others hd' hne).of_kept hkept hb.param
    · intro f hf
      obtain ⟨d', hlookup, hd'⟩ := h.declared f hf
      exact ⟨d', by rwa [hfile], by rwa [hb.isFunction (Program.lt_size_of_isFunction hd')]⟩
    · rw [hfile]
      exact h.entry
    · obtain ⟨first, _, _, hhead, hkind⟩ := h.kind
      rw [hold] at hkind
      cases hkind
      exact ⟨first, params, some id, hhead, congrArg Decl.kind hdecl⟩
    · intro hbody
      rw [Decl.hasBody, hdecl] at hbody
      cases hbody
    · intro hbody
      rw [hbody] at hg
      cases hg
  obtain ⟨first, _, _, hhead, hkind⟩ := hopened.kind
  rw [hdecl] at hkind
  cases hkind
  refine hopened.close ⟨first, g, params, some id, hdecl, hhead, ?_, fun hnone => ?_,
    hparams.of_kept hb.param, hincreasing⟩
  · rw [List.filter_append, h.undefined (by rw [Decl.hasBody, hold])]
    simp [hg]
  · cases hnone

end Opened

/-! ## Positions -/

/-- The parser is at a position of the text. -/
def At (stream : TokenStream) (spot : Spot) (s : ParserState) : Prop :=
  ∃ ident marks, Tracks stream ident marks spot s

namespace At

/-- A parser that performs a trace ends at the position after it. -/
theorem performs {x : Parser α} {es : List Event} (h : At stream spot s)
    (hx : PerformsAt stream spot x es) :
    Ensures x s fun _ t => At stream (spot.after es) t := by
  obtain ⟨ident, marks, h⟩ := h
  have hgives := hx ident marks s h
  unfold Gives at hgives
  unfold Ensures
  split
  · next heq =>
    rw [heq] at hgives
    obtain ⟨ident', -, ht⟩ := hgives
    exact ⟨ident', _, ht⟩
  · trivial

/-- A token that is taken moves the position on by one. -/
theorem token (h : At stream spot s) :
    At stream ⟨spot.pos + 1, spot.scope⟩ { s with rest := s.rest.tail } := by
  obtain ⟨ident, marks, h⟩ := h
  exact ⟨ident, marks, h.token⟩

theorem enter (h : At stream spot s) :
    At stream (spot.step .enter) { s with scopes := s.scopes.enter } := by
  obtain ⟨ident, marks, h⟩ := h
  exact ⟨ident, marks, h.enter⟩

/-- The place of the next token. -/
theorem ensures_here {f : Location → Parser α} {Q : α → ParserState → Prop} (h : At stream spot s)
    (hf : Ensures (f (place stream spot.pos)) s Q) : Ensures (here >>= f) s Q := by
  obtain ⟨ident, marks, h⟩ := h
  change Ensures (f ((s.rest.head?.map Token.loc).getD s.endLoc)) s Q
  rwa [h.here]

end At

/-! ## Parameters -/

/-- Tokens alone move the position on by their number. -/
theorem pos_after_plain (spot : Spot) (ls : List Lexeme) :
    (spot.after (plain ls)).pos = spot.pos + ls.length := by
  rw [pos_after, spell_plain]

/-- A parameter was added to the program, and lies at its name. -/
structure AddedParam (stream : TokenStream) (pos : Nat) (v : Param) (p : Program) (d : DeclId)
    (q : Program) : Prop where
  grows : p.Grows .param q
  new : p.decls.size ≤ d.index
  lt : d.index < q.decls.size
  decl : q.decl d = ⟨v.name.getD "", .variable v.type none .param,
    place stream (pos + v.typeName.lexemes.length)⟩

/-- Building a parameter adds it at its name. -/
theorem Param.ensures_build (v : Param) (h : At stream spot s) :
    Ensures v.build s fun d t =>
      At stream (spot.after v.trace) t ∧ AddedParam stream spot.pos v s.program d t.program := by
  refine (h.performs (v.performs_build spot)).and ?_
  have htype : Carries Eq v.typeName.build := v.typeName.carries_build
  refine Ensures.bind ((h.performs (v.typeName.performs_build spot)).and (htype s))
    fun _ t ⟨hat, hst⟩ => ?_
  refine hat.ensures_here ?_
  rw [pos_after_plain]
  have hskip (n : Nat) : Carries Eq (skip n) := .skip n
  refine Ensures.bind (hskip _ t) fun _ u htu => Ensures.bind (hskip _ u) fun _ w huw => ?_
  have hprogram : w.program = s.program := congrArg Built.program (hst.trans (htu.trans huw)).symm
  rw [← hprogram]
  let decl : Decl := ⟨v.name.getD "", .variable v.type none .param,
    place stream (spot.pos + v.typeName.lexemes.length)⟩
  have hnew : AddedParam stream spot.pos v w.program (w.program.pushDecl decl).2
      (w.program.pushDecl decl).1 :=
    ⟨.newVariable _ _ _ .refl, Nat.le_refl _, Program.index_pushDecl_lt _ _,
      Program.decl_pushDecl_self _ _⟩
  refine ensures_bind.2 (ensures_addDecl.2 ?_)
  dsimp only
  split
  · exact hnew
  · exact ensures_bind.2 (ensures_declare hnew)

/-- Parameters were added to the program, in the order in which the text has them from a position
on. -/
structure AddedParams (stream : TokenStream) (pos : Nat) (vs : List Param) (p : Program)
    (ds : List DeclId) (q : Program) :
    Prop where
  grows : p.Grows .param q
  new : ∀ d ∈ ds, p.decls.size ≤ d.index
  paramsAt : ParamsAt stream q pos vs ds
  increasing : ds.Pairwise (·.index < ·.index)

theorem AddedParams.nil (pos : Nat) : AddedParams stream pos [] p [] p :=
  ⟨.refl, nofun, .nil pos, .nil⟩

/-- One more parameter comes before the others, with a comma between. -/
theorem AddedParams.cons {r : Program} {pos : Nat} {v : Param} {vs : List Param} {ds : List DeclId}
    (h : AddedParam stream pos v p d q)
    (hrest : AddedParams stream (pos + v.lexemes.length + 1) vs q ds r) :
    AddedParams stream pos (v :: vs) p (d :: ds) r where
  grows := h.grows.trans hrest.grows
  new := List.forall_mem_cons.2 ⟨h.new, fun d' hd' => Nat.le_trans h.grows.size (hrest.new d' hd')⟩
  paramsAt := .cons ((hrest.grows.decl h.lt).trans h.decl) hrest.paramsAt
  increasing := List.pairwise_cons.2
    ⟨fun d' hd' => Nat.lt_of_lt_of_le h.lt (hrest.new d' hd'), hrest.increasing⟩

/-- A parameter moves the position on by its lexemes. -/
theorem pos_after_param (spot : Spot) (v : Param) :
    (spot.after v.trace).pos = spot.pos + v.lexemes.length := by
  rw [pos_after, v.spell_trace]

theorem ensures_afterCommas {vs : List Param} (h : At stream spot s) :
    Ensures (buildAfterCommas (vs.map Param.build)) s fun ds t =>
      AddedParams stream (spot.pos + 1) vs s.program ds t.program := by
  induction vs generalizing spot s with
  | nil => exact .nil _
  | cons v vs ih =>
    refine ensures_advance_bind.2 (Ensures.bind (v.ensures_build h.token) fun d t ⟨ht, hd⟩ => ?_)
    refine Ensures.bind (ih ht) fun ds u hds => ?_
    rw [pos_after_param] at hds
    exact .cons hd hds

/-- Building the parameters of a function adds them in their order. -/
theorem Params.ensures_build (params : Params) (h : At stream spot s) :
    Ensures params.build s fun ds t =>
      AddedParams stream spot.pos params.toList s.program ds t.program := by
  cases params with
  | void => exact .nil _
  | list params =>
    cases params with
    | nil => exact .nil _
    | cons v vs =>
      refine Ensures.bind (v.ensures_build h) fun d t ⟨ht, hd⟩ => ?_
      refine Ensures.bind (ensures_afterCommas ht) fun ds u hds => ?_
      rw [pos_after_param] at hds
      exact .cons hd hds

/-! ## Building functions -/

/-- The name of a function gets its declaration. -/
theorem Shares.ensures_functionDecl {params : List DeclId} (h : Shares stream fs xs s.built)
    (hparams : ParamsAt stream s.program (g.pos + 2) g.declared.params.toList params)
    (hincreasing : params.Pairwise (·.index < ·.index)) :
    Ensures (functionDecl g.declared.returnType.type g.declared.name (place stream g.pos) params) s
      fun d t =>
      Opened stream fs xs g d t.built ∧
        ParamsAt stream t.program (g.pos + 2) g.declared.params.toList params ∧
          t.scopes.inner = s.scopes.inner := by
  unfold functionDecl
  rw [ensures_bind, ensures_resolveInFile?]
  split
  · next d hentry =>
    rw [ensures_bind, ensures_declOf]
    dsimp only
    split
    · -- a declaration with the same name stands for this one too
      next hd => exact ⟨.again h hentry hd, hparams, rfl⟩
    · exact ensures_bind.2 ensures_fail
  · next hfree =>
    -- otherwise one is added, with its item
    let decl : Decl :=
      ⟨g.declared.name, .function g.declared.returnType.type params none, place stream g.pos⟩
    let d : DeclId := (s.program.pushDecl decl).2
    let t : Built :=
      ⟨(s.program.pushDecl decl).1.pushItem (.function d), s.scopes.declareInFile g.declared.name d⟩
    have hself : t.program.decl d = decl := Program.decl_pushDecl_self s.program decl
    have hold {d' : DeclId} (hd' : d'.index < s.program.decls.size) :
        t.program.decl d' = s.program.decl d' :=
      Program.decl_pushDecl_of_lt s.program decl hd'
    have hnew : Introduced s.built d g.declared.name t :=
      ⟨rfl, by simp [t, Program.pushItem, Program.pushDecl, ParserState.built], hold,
        congrArg Decl.name hself, hfree, rfl⟩
    have hparams' : ParamsAt stream t.program (g.pos + 2) g.declared.params.toList params :=
      hparams.of_kept fun hd' => hold (lt_size_of_isParam hd')
    exact ⟨.first h hnew rfl hself hparams hincreasing, hparams', rfl⟩

/-- The body of a function is built, which makes it the definition. -/
theorem Opened.ensures_buildBody {params : List DeclId} {body : List Stmt}
    (h : Opened stream fs xs g d s.built)
    (hg : g.declared.body = some body) (hinner : s.scopes.inner ≠ [])
    (hparams : ParamsAt stream s.program (g.pos + 2) g.declared.params.toList params)
    (hincreasing : params.Pairwise (·.index < ·.index)) (opening : Location) :
    Ensures (buildBody d g.declared.name (place stream g.pos) opening params body) s fun _ t =>
      Shares stream (fs ++ [g]) (xs ++ [g.declared.name]) t.built ∧
        t.scopes.inner.length = s.scopes.inner.length := by
  unfold buildBody
  rw [ensures_bind, ensures_declOf]
  dsimp only
  split
  · exact ensures_bind.2 ensures_fail
  next hbody =>
  have hkind : (s.program.decl d).isFunction = true := h.isFunction
  have hx : (s.program.decl d).name = g.declared.name := h.name
  obtain ⟨returnType, old, hold⟩ := exists_kind_of_not_hasBody hkind hbody
  let started : ParserState :=
    { s with program := s.program.modifyDecl d (Decl.withParams params (place stream g.pos)) }
  have hstarted : Spares g.declared.name s.program started.program :=
    .modifyDecl hkind hx (Parenthesised.keeps_withParams s.program hkind _ _).toKeepsDecls
  have hexpands : Parser.Expands .local (do
      let ids ← Stmt.buildAll body
      advance
      addStmt (.block ids) opening) :=
    (Stmt.expands_buildAll fun stmt _ => stmt.expands_build).bind fun ids =>
      .after (.addStmt rfl opening)
  have hread := hexpands started
  rw [ensures_bind] at hread
  change Ensures (Stmt.buildAll body >>= fun ids => advance >>= fun _ =>
      addStmt (.block ids) opening >>= fun block =>
    modifyDecl d (Decl.withBody block)) started _
  refine ensures_bind.2 (hread.mono fun ids t ht => ?_)
  rw [ensures_advance_bind] at ht ⊢
  refine Ensures.bind ht fun id u hu => ?_
  -- what stands between the parameters and the body is about the function alone
  have hlt : d.index < started.program.decls.size := Nat.lt_of_lt_of_le h.lt hstarted.size
  have hdecl : u.program.decl d = (s.program.decl d).withParams params (place stream g.pos) :=
    (hu.program.decl hlt).trans (Program.decl_modifyDecl_self s.program _ h.lt)
  have hfunction : (u.program.decl d).isFunction = true := by
    rw [hdecl, Decl.isFunction_withParams, hkind]
  have hname : (u.program.decl d).name = g.declared.name := by rw [hdecl, Decl.name_withParams, hx]
  have hended : Spares g.declared.name u.program (u.program.modifyDecl d (Decl.withBody id)) :=
    .modifyDecl hfunction hname (Parenthesised.keeps_withBody u.program d id).toKeepsDecls
  have hspares := (hstarted.trans (.of_grows hu.program nofun)).trans hended
  have hself : (u.program.modifyDecl d (Decl.withBody id)).decl d =
      ⟨g.declared.name, .function returnType params (some id), place stream g.pos⟩ := by
    have hltu : d.index < u.program.decls.size := Nat.lt_of_lt_of_le hlt hu.program.size
    rw [Program.decl_modifyDecl_self _ _ hltu, hdecl]
    simp only [Decl.withBody, Decl.withParams, hold, hx]
  exact ⟨h.define hold hspares (hu.file hinner)
    (by rw [hg]; rfl) hself hparams hincreasing, hu.depth⟩

/-- Leaving the scope of a function leads back to the file. -/
theorem inner_leave_eq_nil {scopes : Scopes} (h : scopes.inner.length = 1) :
    scopes.leave.inner = [] := by
  obtain ⟨scope, hscope⟩ := List.length_eq_one_iff.1 h
  rw [Scopes.leave, hscope, List.tail_cons]

/-- A function that was declared has its record afterwards. -/
theorem Function.ensures_build (f : Function) (h : Shares stream fs xs s.built)
    (hinner : s.scopes.inner = []) (hat : At stream spot s) :
    Ensures f.build s fun _ t =>
      Shares stream (fs ++ [⟨spot.pos + f.returnType.lexemes.length, f⟩]) (xs ++ [f.name]) t.built ∧
        t.scopes.inner = [] := by
  have htype : Carries Eq f.returnType.build := f.returnType.carries_build
  refine Ensures.bind ((hat.performs (f.returnType.performs_build spot)).and (htype s))
    fun _ t ⟨hat, hst⟩ => ?_
  refine hat.ensures_here (ensures_advance_bind.2 (ensures_advance_bind.2 (ensures_inScope.2 ?_)))
  let g : FunctionAt := ⟨spot.pos + f.returnType.lexemes.length, f⟩
  let entered : ParserState := { t.next.next with scopes := t.scopes.enter }
  have hpos : (spot.after (plain f.returnType.lexemes)).pos = g.pos := pos_after_plain _ _
  rw [hpos]
  -- only the scope is entered, and no record depends on that
  have hshares : Shares stream fs xs entered.built := by
    have ht : Shares stream fs xs t.built := hst ▸ h
    exact ht.of_file_eq rfl
  have hdepth : t.scopes.inner = [] := by
    rw [← hinner, show t.scopes = s.scopes from congrArg Built.scopes hst.symm]
  have hparams : Ensures f.params.build entered fun params u =>
      AddedParams stream (g.pos + 2) f.params.toList entered.program params u.program := by
    rw [← hpos]
    exact f.params.ensures_build hat.token.token.enter
  have hexpands : Parser.Expands .param f.params.build := f.params.expands_build
  refine Ensures.bind (hparams.and (hexpands entered)) fun params u ⟨hparams, hu⟩ =>
    ensures_advance_bind.2 ?_
  have hshares : Shares stream fs xs u.next.built := hshares.expanded hu nofun nofun
  refine Ensures.bind (hshares.ensures_functionDecl (g := g) hparams.paramsAt hparams.increasing)
    fun d w ⟨hopened, hparamsAt, hscopes⟩ => ?_
  -- nothing but the scope of the function is open, and it is left at the end
  have hinside : w.scopes.inner.length = 1 := by
    rw [hscopes]
    exact hu.depth.trans (congrArg (· + 1) (List.length_eq_zero_iff.2 hdepth))
  refine ensures_here_bind.2 (ensures_advance_bind.2 ?_)
  cases hbody : f.body with
  | none =>
    have hrecord := hopened.prototype hbody
    exact ⟨(hopened.close hrecord).of_file_eq rfl, inner_leave_eq_nil hinside⟩
  | some body =>
    have hnested : w.next.scopes.inner ≠ [] := by
      rw [← List.length_pos_iff]
      exact hinside ▸ Nat.one_pos
    have hw : Opened stream fs xs g d w.next.built := hopened
    refine (hw.ensures_buildBody hbody hnested hparamsAt hparams.increasing w.place).mono
      fun _ v ⟨hv, hdepth⟩ => ?_
    exact ⟨hv.of_file_eq rfl, inner_leave_eq_nil (hdepth.trans hinside)⟩

/-! ## Variables of the file -/

/-- A variable of the file is introduced, with an item for it. -/
theorem Shares.introduce (h : Shares stream fs xs b) (hb : Introduced b d x b')
    (hd : b'.program.IsGlobal d)
    (hitems : b'.program.items = b.program.items.push (.variable d)) :
    Shares stream fs (xs ++ [x]) b' := by
  have hkept {d' : DeclId} {type : CType} {init : Option ExprId}
      (hd' : (b.program.decl d').kind = .variable type init .param) :
        b'.program.decl d' = b.program.decl d' :=
    hb.decl (lt_size_of_isParam hd')
  refine ⟨h.tabled.introduce hb, ?_, fun {d'} hd' => ?_, fun f hf => ?_⟩
  · exact h.listed.introduceItem hb
      (rfl : (MiniC.Item.variable d).decl = d) hitems (h.tabled.not_mem hb.free) hd
  · rcases hb.eq_or_lt (Program.lt_size_of_isFunction hd') with rfl | hlt
    · exact absurd rfl (ne_of_isGlobal hd hd')
    · have hold : b'.program.decl d' = b.program.decl d' := hb.decl hlt
      rw [hold] at hd' ⊢
      exact (h.records hd').of_kept hold hkept
  · obtain ⟨d', hlookup, hd'⟩ := h.declared f hf
    refine ⟨d', ?_, ?_⟩
    · rw [hb.file]
      exact lookup_of_new hb.free hlookup
    · rwa [hb.decl (Program.lt_size_of_isFunction hd')]

/-- What is built when the variables that were declared have got their items. -/
def listing (b : Built) (ds : List DeclId) : Built :=
  ⟨{ b.program with items := b.program.items ++ (ds.map MiniC.Item.variable).toArray }, b.scopes⟩

/-- A name that is declared was new in its scope. -/
theorem ensures_declare_new {v : DeclId} {loc : Location} {Q : Unit → ParserState → Prop}
    (h : s.scopes.innermost.lookup x = none → Q () { s with scopes := s.scopes.declare x v }) :
    Ensures (declare x v loc) s Q := by
  unfold declare
  rw [ensures_bind, ensures_get]
  split
  · exact ensures_fail
  · next hnone =>
    rw [Bool.not_eq_true, Option.isSome_eq_false_iff, Option.isNone_iff_eq_none] at hnone
    exact h hnone

/-- The declaration gets an initialiser. -/
theorem Introduced.withInit {b'' : Built} (h : Introduced b d x b')
    (hb : WithExprs b' b'') (e : ExprId) :
    Introduced b d x ⟨b''.program.modifyDecl d (Decl.withInit e), b''.scopes⟩ where
  new := h.new
  size := by rw [Program.size_modifyDecl, hb.decls, h.size]
  decl {d'} hd' := by
    refine (Program.decl_modifyDecl_of_ne b''.program _ ?_).trans ?_
    · rintro rfl
      exact Nat.lt_irrefl _ (h.new ▸ hd')
    · rw [Program.decl, hb.decls]
      exact h.decl hd'
  name := by
    have hlt : d.index < b''.program.decls.size := hb.decls ▸ h.lt
    rw [(Parenthesised.keeps_withInit b''.program d e).name hlt, Program.decl, hb.decls]
    exact h.name
  free := h.free
  file := hb.scopes ▸ h.file

/-- A variable is introduced in the file. -/
theorem Declarator.ensures_build (base : BaseType) (v : Declarator) (hinner : s.scopes.inner = []) :
    Ensures (v.build base .global) s fun d t => Introduced s.built d v.name t.built := by
  have hskip (n : Nat) : Carries Eq (skip n) := .skip n
  refine Ensures.bind (hskip _ s) fun _ t hst => ensures_here_bind.2 (ensures_advance_bind.2 ?_)
  refine Ensures.bind (hskip _ t.next) fun _ u htu => ?_
  have hsu : s.built = u.built := hst.trans htu
  have hinner : u.scopes.inner = [] := hinner ▸ (congrArg (·.scopes.inner) hsu).symm
  rw [hsu]
  refine ensures_bind.2 (ensures_addDecl.2 (ensures_bind.2 (ensures_declare_new fun hfree => ?_)))
  let decl : Decl := ⟨v.name, .variable (v.type base) none .global, t.place⟩
  let d : DeclId := (u.program.pushDecl decl).2
  let w : ParserState :=
    { u with
      program := (u.program.pushDecl decl).1
      scopes := u.scopes.declare v.name d }
  -- no scope inside the file is open, so the file gets the name
  have hnew : Introduced u.built d v.name w.built := by
    constructor
    · rfl
    · exact Array.size_push _
    · exact fun hd' => Program.decl_pushDecl_of_lt u.program decl hd'
    · exact congrArg Decl.name (Program.decl_pushDecl_self u.program decl)
    · change u.scopes.innermost.lookup v.name = none at hfree
      rwa [Scopes.innermost, hinner] at hfree
    · change (u.scopes.declare v.name d).file = (v.name, d) :: u.scopes.file
      rw [Scopes.declare, hinner]
  cases v.init with
  | none => exact hnew
  | some init =>
    have hinit : Carries WithExprs init.build := init.withExprs_build
    exact ensures_advance_bind.2 (Ensures.bind (hinit w.next) fun e _ hx => hnew.withInit hx e)

/-- A variable is put into the file. -/
theorem Shares.ensures_declarator {ds : List DeclId} (base : BaseType) (v : Declarator)
    (h : Shares stream fs xs (listing s.built ds)) (hinner : s.scopes.inner = []) :
    Ensures (v.build base .global) s fun d t =>
      Shares stream fs (xs ++ [v.name]) (listing t.built (ds ++ [d])) ∧ t.scopes.inner = [] := by
  have hexpands : Parser.Expands .global (v.build base .global) := v.expands_build base
  refine ((v.ensures_build base hinner).and (hexpands s)).mono fun d t ⟨hd, ht⟩ => ?_
  have hdepth : t.scopes.inner.length = s.scopes.inner.length := ht.depth
  refine ⟨?_, List.length_eq_zero_iff.1 (hdepth.trans (List.length_eq_zero_iff.2 hinner))⟩
  have hlisted : Introduced (listing s.built ds) d v.name (listing t.built (ds ++ [d])) :=
    ⟨hd.new, hd.size, hd.decl, hd.name, hd.free, hd.file⟩
  refine h.introduce hlisted ⟨hd.lt, ht.program.exists_kind (Nat.le_of_eq hd.new.symm) hd.lt⟩ ?_
  have hitems : t.built.program.items = s.built.program.items := ht.program.items
  simp [listing, hitems]

/-- Variables of the file have no records, and their names are new. -/
theorem Shares.ensures_afterCommas {ds : List DeclId} (base : BaseType) {vs : List Declarator}
    (h : Shares stream fs xs (listing s.built ds)) (hinner : s.scopes.inner = []) :
    Ensures (buildAfterCommas (vs.map (Declarator.build base .global))) s fun ds' t =>
      Shares stream fs (xs ++ vs.map Declarator.name) (listing t.built (ds ++ ds')) ∧
        t.scopes.inner = [] := by
  induction vs generalizing s ds xs with
  | nil =>
    change Shares stream fs (xs ++ []) (listing s.built (ds ++ [])) ∧ _
    rw [List.append_nil, List.append_nil]
    exact ⟨h, hinner⟩
  | cons v vs ih =>
    have hnext : Shares stream fs xs (listing s.next.built ds) := h
    refine ensures_advance_bind.2 (Ensures.bind (hnext.ensures_declarator base v hinner)
      fun d t ⟨ht, hinner⟩ => ?_)
    refine Ensures.bind (ih ht hinner) fun ds' u hu => ?_
    rw [List.append_assoc, List.append_assoc] at hu
    exact hu

theorem listing_nil (b : Built) : listing b [] = b := by simp [listing]

/-- The variables of a declaration are put into the file, and only the items for them are still
missing. -/
theorem Declaration.ensures_build (d : Declaration) (h : Shares stream fs xs s.built)
    (hinner : s.scopes.inner = []) :
    Ensures (d.build .global) s fun ds t =>
      Shares stream fs (xs ++ d.declarators.map Declarator.name) (listing t.built ds) ∧
        t.scopes.inner = [] := by
  have hnext : Shares stream fs xs (listing s.next.built []) := by rwa [listing_nil]
  refine ensures_advance_bind.2 (Ensures.bind ?_ fun ds t ht => ensures_advance_bind.2 ht)
  refine Ensures.bind (hnext.ensures_declarator d.base d.first hinner)
    fun first t ⟨ht, hinner⟩ => ?_
  refine Ensures.bind (ht.ensures_afterCommas d.base hinner) fun others u hu => ?_
  rw [List.append_assoc, List.append_assoc] at hu
  exact hu

/-- Variables get their items after all of them were declared. -/
theorem ensures_addItems (ds : List DeclId) (s : ParserState) :
    Ensures (ds.forM fun d => addItem (.variable d)) s fun _ t => t.built = listing s.built ds := by
  induction ds generalizing s with
  | nil => exact (listing_nil s.built).symm
  | cons d ds ih =>
    refine ensures_bind.2 ((ih { s with program := s.program.pushItem (.variable d) }).mono
      fun _ t ht => ht.trans ?_)
    simp [listing, ParserState.built, Program.pushItem]

/-! ## Files -/

/-- A declaration of the file keeps the records of the functions. -/
theorem Item.ensures_build (item : Item) (h : Shares stream fs xs s.built)
    (hinner : s.scopes.inner = []) (hat : At stream spot s) :
    Ensures item.build s fun _ t =>
      Shares stream (fs ++ item.functions spot.pos) (xs ++ item.names) t.built ∧
        t.scopes.inner = [] := by
  cases item with
  | declaration v =>
    refine Ensures.bind (v.ensures_build h hinner) fun ds t ⟨ht, hinner⟩ => ?_
    refine (ensures_addItems ds t).mono fun _ u hu =>
      ⟨?_, (congrArg (·.scopes.inner) hu).trans hinner⟩
    rw [hu, functions, List.append_nil]
    exact ht
  | function f => exact f.ensures_build h hinner hat

/-- So it does with or without the word `extern`. -/
theorem TopLevel.ensures_build (d : TopLevel) (h : Shares stream fs xs s.built)
    (hinner : s.scopes.inner = []) (hat : At stream spot s) :
    Ensures d.build s fun _ t =>
      Shares stream (fs ++ d.item.functions (spot.pos + if d.isExtern then 1 else 0))
        (xs ++ d.item.names) t.built ∧ t.scopes.inner = [] := by
  rw [TopLevel.build]
  split
  · have hnext : Shares stream fs xs s.next.built := h
    exact ensures_advance_bind.2 (d.item.ensures_build hnext hinner hat.token)
  · exact d.item.ensures_build h hinner hat

/-- A declaration moves the position on by its lexemes. -/
theorem TopLevel.pos_after_trace (d : TopLevel) (spot : Spot) :
    (spot.after d.trace).pos = spot.pos + d.lexemes.length := by
  have hspell : spell d.trace = d.lexemes := by
    rw [trace, lexemes, spell_append, spell_plain]
    cases d.item with
    | declaration v => rw [Item.trace, Item.lexemes, v.spell_trace]
    | function f => rw [Item.trace, Item.lexemes, f.spell_trace]
  rw [pos_after, hspell]

/-- All functions of a file have their records, and so have its names. -/
theorem File.ensures_build (file : File) (stream : TokenStream) :
    Ensures file.build (.start stream) fun _ t =>
      Shares stream file.functions file.names t.built := by
  have hall (ds : List TopLevel) {fs : List FunctionAt} {xs : List String}
    {spot : Spot} {s : ParserState}
      (h : Shares stream fs xs s.built) (hinner : s.scopes.inner = []) (hat : At stream spot s)
      (hscope : spot.scope = []) :
      Ensures (ds.forM TopLevel.build) s fun _ t =>
        Shares stream (fs ++ functionsFrom spot.pos ds)
          (xs ++ ds.flatMap fun d => d.item.names) t.built := by
    induction ds generalizing fs xs spot s with
    | nil =>
      change Shares stream (fs ++ []) (xs ++ []) s.built
      rwa [List.append_nil, List.append_nil]
    | cons d ds ih =>
      refine ensures_bind.2
        (((d.ensures_build h hinner hat).and (hat.performs (d.performs_build hscope))).mono
        fun _ t ⟨⟨ht, hinner⟩, hat⟩ =>
          (ih ht hinner hat ((d.closed_trace spot).trans hscope)).mono fun _ u hu => ?_)
      rw [d.pos_after_trace, List.append_assoc, List.append_assoc] at hu
      rwa [functionsFrom, List.flatMap_cons]
  have hat : At stream ⟨0, []⟩ (.start stream) := ⟨fun _ => default, [], tracks_start stream _⟩
  exact hall file.declarations (.nil_start stream) rfl hat rfl

/-! ## One declaration for every function -/

/-- A declaration of the program stands for all declarations of a function in a text: the program
has no other function of the name and no variable of the file with it; there is one item for it; it
is what they make of it; and it is what exactly those expressions call that have the name in the
text. -/
structure StandsFor (stream : TokenStream) (file : File) (p : Program) (x : String)
    (d : DeclId) : Prop where
  lt : d.index < p.decls.size
  unique : ∀ d' : DeclId, d'.index < p.decls.size →
    ((p.decl d').isFunction = true ∧ (p.decl d').name = x ↔ d' = d)
  noVariable : ∀ (d' : DeclId) type init, d'.index < p.decls.size →
    (p.decl d').kind = .variable type init .global → (p.decl d').name ≠ x
  item : p.items.toList.count (.function d) = 1
  record : Recorded stream p x (declarationsOf file.functions x) d
  calls : ∀ (e : ExprId) callee args, e.index < p.exprs.size → (p.expr e).kind = .call callee args →
    (callee = d ↔ ∃ use ∈ file.marks, use.role = .call ∧ use.name = x ∧
      place stream use.pos = (p.expr e).loc)

/-- Only functions are called. -/
theorem isFunction_of_call {source : String} (h : Program.parse source = .ok p)
    {e : ExprId} {callee : DeclId}
    {args : List ExprId} (he : e.index < p.exprs.size) (hk : (p.expr e).kind = .call callee args) :
    (p.decl callee).isFunction = true := by
  obtain ⟨stream, -, hreachable⟩ := Program.reachable_of_parse h
  rcases hreachable.typed e he with hrule | ⟨⟨operand, hcast⟩, -⟩
  · rw [hk, Program.typeRule?, Decl.returnType?] at hrule
    rw [Decl.isFunction]
    split at hrule
    · next hkind => rw [hkind]
    · cases hrule
  · rw [hk] at hcast
    cases hcast

/-- An expression that calls a function has the function's name in the text. -/
theorem Resolution.exists_call {ident : Mark → DeclId} {marks : List Mark}
    (h : Resolution stream p marks ident)
    {e : ExprId} {callee : DeclId} {args : List ExprId} (he : e.index < p.exprs.size)
    (hk : (p.expr e).kind = .call callee args) :
    ∃ use ∈ marks, use.role = .call ∧ use.name = (p.decl callee).name ∧
      place stream use.pos = (p.expr e).loc := by
  obtain ⟨use, huse, hrole, hloc, decl, hdecl, rfl⟩ :=
    h.mentions e he .call callee (by rw [hk]; rfl)
  exact ⟨use, huse, hrole, hdecl.name.symm.trans
    (h.denotes decl hdecl.mem hdecl.declares).name.symm, hloc.symm⟩

/-- A function of the program stands for the declarations of its name. -/
theorem Shares.standsFor {source : String} {file : File} {ident : Mark → DeclId}
    (hparse : Program.parse source = .ok p)
    (hplaces : (stream.tokens.map Token.loc).Nodup) (hfile : Writes stream file)
    (hresolution : Resolution stream p file.marks ident) {scopes : Scopes}
    (h : Shares stream file.functions file.names ⟨p, scopes⟩) {d : DeclId}
    (hd : (p.decl d).isFunction = true) :
    StandsFor stream file p (p.decl d).name d := by
  have hlt : d.index < p.decls.size := Program.lt_size_of_isFunction hd
  have hlevel : p.FileLevel d := fileLevel_of_isFunction hd
  have hunique (d' : DeclId) (hd' : d'.index < p.decls.size) :
      (p.decl d').isFunction = true ∧ (p.decl d').name = (p.decl d).name ↔ d' = d := by
    refine ⟨fun ⟨hkind, hname⟩ => h.tabled.eq_of_name_eq
      (fileLevel_of_isFunction hkind) hlevel hname, ?_⟩
    rintro rfl
    exact ⟨hd, rfl⟩
  refine ⟨hlt, hunique, fun d' type init hd' hkind hname => ?_, ?_,
    h.records hd, fun e callee args he hk => ?_⟩
  · have hglobal : p.IsGlobal d' := ⟨hd', type, init, hkind⟩
    exact ne_of_isGlobal hglobal hd (h.tabled.eq_of_name_eq hglobal.fileLevel hlevel hname)
  · -- the name has an item, which can only be for this declaration
    have hname : (p.decl d).name ∈ p.items.toList.map fun item => (p.decl item.decl).name := by
      rw [h.listed.names, List.mem_eraseDups]
      exact h.tabled.names.2 ⟨d, h.tabled.lookup hlevel⟩
    obtain ⟨item, hitem, hsame⟩ := List.mem_map.1 hname
    have hinOrder : p.items.toList.Pairwise fun item item' => item.decl.index < item'.decl.index :=
      h.listed.inOrder
    have hnodup : p.items.toList.Nodup := hinOrder.imp fun {item item'} hlt (heq : item = item') =>
      Nat.ne_of_lt hlt (congrArg (fun item => item.decl.index) heq)
    have hfits := h.listed.fits item hitem
    cases item with
    | function d' =>
      obtain rfl : d' = d := (hunique d' hfits.lt).1 ⟨hfits, hsame⟩
      exact List.count_eq_one_of_mem hnodup hitem
    | «variable» d' =>
      have hglobal : p.IsGlobal d' := hfits
      exact absurd (h.tabled.eq_of_name_eq hglobal.fileLevel hlevel hsame)
        (ne_of_isGlobal hglobal hd)
  · -- a place belongs to one token, so the call has one name in the text
    obtain ⟨use, huse, hrole, hname, hloc⟩ := hresolution.exists_call he hk
    constructor
    · rintro rfl
      exact ⟨use, huse, hrole, hname, hloc⟩
    · rintro ⟨use', huse', -, hname', hloc'⟩
      have hpos : use.pos = use'.pos :=
        place_injective hplaces (hfile.lt_of_mem huse) (hfile.lt_of_mem huse')
          (hloc.trans hloc'.symm)
      obtain rfl : use = use' := eq_of_pos_eq huse huse' hpos
      have hcallee : (p.decl callee).isFunction = true := isFunction_of_call hparse he hk
      exact (hunique callee (Program.lt_size_of_isFunction hcallee)).1
        ⟨hcallee, hname.symm.trans hname'⟩

end Written

namespace Program

open Written

/-- Declarations of a function share one identity. In a program that was read, every function that
the text declares has one declaration and one item, which calls of its name refer to wherever they
stand; no variable of the file has its name. It returns what the first of its declarations in the
text does. It has a body if one of them has, which then is the only one, and its parameters and
place are those of that definition, wherever the prototypes stand; else they are those of the first
declaration. There are no other functions, and items and their declarations are in the order in
which their names are first declared. -/
theorem functions_share_identity {source : String} {p : Program} (h : parse source = .ok p) :
    ∃ stream, tokenize source = .ok stream ∧ (∃ file, Writes stream file) ∧
      ∀ file, Writes stream file →
      (∀ f ∈ file.functions, ∃ d, StandsFor stream file p f.declared.name d) ∧
        (∀ d, (p.decl d).isFunction = true →
          ∃ f ∈ file.functions, f.declared.name = (p.decl d).name) ∧
          p.items.toList.map (fun item => (p.decl item.decl).name) = file.names.eraseDups ∧
            p.items.toList.Pairwise fun item item' => item.decl.index < item'.decl.index := by
  obtain ⟨stream, file, hstream, hfile, hlexemes, -⟩ := exists_file_of_parse h
  refine ⟨stream, hstream, ⟨file, hfile, hlexemes⟩, fun file hfile => ?_⟩
  have hplaces := nodup_places_of_tokenize hstream
  have htokens : ofTokens stream = .ok p := (parse_eq_ofTokens hstream).symm.trans h
  have hresolves := hfile.resolves hplaces
  rw [htokens] at hresolves
  obtain ⟨ident, hresolution⟩ := hresolves
  obtain ⟨s, hbuild, rfl⟩ : ∃ s, file.build (.start stream) = .ok ((), s) ∧ s.program = p := by
    rw [ofTokens_eq_build hfile.wellFormed hfile.lexemes] at htokens
    cases hbuild : file.build (.start stream) with
    | error e =>
      rw [hbuild] at htokens
      cases htokens
    | ok result =>
      rw [hbuild] at htokens
      exact ⟨result.2, rfl, Except.ok.inj htokens⟩
  have hshares : Shares stream file.functions file.names s.built :=
    (file.ensures_build stream).of_ok hbuild
  refine ⟨fun f hf => ?_, fun d hd => ?_, hshares.listed.names, hshares.listed.inOrder⟩
  · -- every declaration in the text has the record of its name
    obtain ⟨d, hlookup, hd⟩ := hshares.declared f hf
    have hname : (s.program.decl d).name = f.declared.name := (hshares.tabled.entry hlookup).2
    exact ⟨d, hname ▸ hshares.standsFor h hplaces hfile hresolution hd⟩
  · -- and every record has a declaration that it is the first one of
    obtain ⟨first, _, _, _, hrecord⟩ := hshares.records hd
    have hmem := List.mem_of_mem_head? hrecord.head
    rw [declarationsOf, List.mem_filter] at hmem
    exact ⟨first, hmem.1, of_decide_eq_true hmem.2⟩

end Program

namespace Written

/-- `int f(int a); int g() { return f(1); } int f(int n) { return f(n); } int f();` -/
def sharingFile : File where
  declarations :=
    [⟨false, .function ⟨⟨.int, 0⟩, "f", .list [⟨⟨.int, 0⟩, some "a", none⟩], none⟩⟩,
      ⟨false, .function ⟨⟨.int, 0⟩, "g", .list [], some [.ret (some (.call "f" [.literal 1]))]⟩⟩,
      ⟨false, .function ⟨⟨.int, 0⟩, "f", .list [⟨⟨.int, 0⟩, some "n", none⟩],
        some [.ret (some (.call "f" [.name "n"]))]⟩⟩,
      ⟨false, .function ⟨⟨.int, 0⟩, "f", .list [], none⟩⟩]

/-- The example can be read. -/
theorem wellFormed_sharingFile : sharingFile.WellFormed := by
  have hparam (x : String) : Param.WellFormed ⟨⟨.int, 0⟩, some x, none⟩ := rfl
  intro d hd
  simp only [sharingFile, List.mem_cons, List.not_mem_nil, or_false] at hd
  rcases hd with rfl | rfl | rfl | rfl
  · exact ⟨by simp [Params.WellFormed, hparam], by simp⟩
  · exact ⟨by simp [Params.WellFormed],
      by simp [Stmt.WellFormed, Expr.WellFormed, Expr.EachWellFormed]⟩
  · exact ⟨by simp [Params.WellFormed, hparam],
      by simp [Stmt.WellFormed, Expr.WellFormed, Expr.EachWellFormed]⟩
  · exact ⟨by simp [Params.WellFormed], by simp⟩

/-- Three declarations of `f` share one, which has the parameter of the second; the call before the
definition and the one in it are of the same. -/
theorem functions_share_identity_of_prototypes :
    ∃ p stream, Program.parse
      "int f(int a); int g() { return f(1); } int f(int n) { return f(n); } int f();" = .ok p ∧
      tokenize "int f(int a); int g() { return f(1); } int f(int n) { return f(n); } int f();" =
        .ok stream ∧
        StandsFor stream sharingFile p "f" ⟨1⟩ ∧
          (p.decl ⟨1⟩).kind = .function .int [⟨3⟩] (some ⟨3⟩) ∧
          (p.expr ⟨1⟩).kind = .call ⟨1⟩ [⟨0⟩] ∧ (p.expr ⟨3⟩).kind = .call ⟨1⟩ [⟨2⟩] := by
  have hparse : ∃ p, Program.parse
        "int f(int a); int g() { return f(1); } int f(int n) { return f(n); } int f();" = .ok p ∧
      (1 < p.decls.size ∧ (p.decl ⟨1⟩).name = "f") ∧
        (p.decl ⟨1⟩).kind = .function .int [⟨3⟩] (some ⟨3⟩) ∧
        (p.expr ⟨1⟩).kind = .call ⟨1⟩ [⟨0⟩] ∧ (p.expr ⟨3⟩).kind = .call ⟨1⟩ [⟨2⟩] :=
    Program.exists_of_parse (by decide +kernel)
  obtain ⟨p, hp, ⟨hlt, hname⟩, hkind, hcalls⟩ := hparse
  obtain ⟨stream, hstream, hwrites⟩ := exists_stream_of_lexemes
    "int f(int a); int g() { return f(1); } int f(int n) { return f(n); } int f();"
      wellFormed_sharingFile (by decide +kernel)
  obtain ⟨stream', hstream', -, hshares⟩ := Program.functions_share_identity hp
  obtain rfl : stream = stream' := Except.ok.inj (hstream.symm.trans hstream')
  obtain ⟨hdeclared, -⟩ := hshares sharingFile hwrites
  obtain ⟨d, hd⟩ := hdeclared ⟨1, ⟨⟨.int, 0⟩, "f", .list [⟨⟨.int, 0⟩, some "a", none⟩], none⟩⟩
    (List.mem_append_left _ (List.mem_singleton_self _))
  obtain rfl : ⟨1⟩ = d := (hd.unique ⟨1⟩ hlt).1 ⟨by rw [Decl.isFunction, hkind], hname⟩
  exact ⟨p, stream, hp, hstream, hd, hkind, hcalls⟩

end Written

end MiniC
