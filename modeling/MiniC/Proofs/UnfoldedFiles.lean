import MiniC.Proofs.UnfoldedBuilding

/-!
# Unfolding files

The items of a program under construction unfold to the declarations that were built so far, each
function once (`Written.Unfolds`). Building a file keeps this, declaration by declaration
(`Written.File.unfolds_build`).
-/

set_option autoImplicit false

namespace MiniC.Written

open MiniC.Parser

variable {s t : ParserState} {items : List Item}

/-! ## Parameters -/

/-- The name of a parameter is missing or not empty, and so is its length. -/
structure Param.Plain (p : Param) : Prop where
  name : p.name ≠ some ""
  length : p.length ≠ some (some 0)

/-- A declaration of the program that is a variable unfolds to a parameter. -/
theorem Param.Plain.hasParam {p : Program} {v : Param} {d : DeclId} {loc : Location} (hv : v.Plain)
    (hlt : d.index < p.decls.size)
    (hdecl : p.decl d = ⟨v.name.getD "", .variable v.type none .param, loc⟩) :
    p.HasParam d v := by
  refine ⟨fun {q} hq => ?_⟩
  have hstays : q.decl d = ⟨v.name.getD "", .variable v.type none .param, loc⟩ := by
    rw [hq.nonFunction hlt (by rw [hdecl]; rfl), hdecl]
  obtain ⟨⟨base, stars⟩, name, length⟩ := v
  obtain ⟨hname, hlength⟩ := hv
  have hnames : (if name.getD "" = "" then none else some (name.getD "")) = name := by
    cases name with
    | none => rfl
    | some x => exact if_neg fun hx => hname (congrArg some hx)
  rw [Program.param, hstays]
  simp only [hnames, type, TypeName.type, withPointers_ofBase]
  -- the length that is written is the one that the type has
  cases length with
  | none => exact if_pos rfl
  | some length =>
    cases length with
    | none => exact if_pos rfl
    | some n =>
      have hn : n ≠ 0 := fun hn => hlength (by rw [hn])
      simp [CType.withLength, CType.typeName, CType.length?, hn]

theorem Param.Plain.builds_build {v : Param} (hv : v.Plain) (hs : Labelled s.built) :
    Builds v.build s fun p d => p.HasParam d v := by
  refine (v.typeName.builds_build hs).bind fun _ s hs _ => .here fun loc => ?_
  refine (builds_skip _ hs.labelled).bind fun _ s hs _ =>
    (builds_skip _ hs.labelled).bind fun _ s hs _ => ?_
  refine Ensures.bind (builds_addDecl hs.labelled) fun d t ⟨ht, _, hlt, hdecl⟩ => ?_
  cases hempty : (v.name.getD "").isEmpty with
  | true => exact ⟨ht, hv.hasParam hlt hdecl⟩
  | false =>
    have hkind : (t.program.decl d).isFunction = false := by rw [hdecl]; rfl
    refine Ensures.bind (builds_declare ht.labelled hlt (congrArg Decl.name hdecl) hkind)
      fun _ u ⟨hu, hprogram⟩ => ?_
    have hdeclu : u.program.decl d = ⟨v.name.getD "", .variable v.type none .param, loc⟩ := by
      rw [hprogram, hdecl]
    exact ⟨ht.trans hu, hv.hasParam (by rwa [hprogram]) hdeclu⟩

theorem Params.builds_build {params : Params} (h : ∀ v ∈ params.toList, v.Plain)
    (hs : Labelled s.built) :
    Builds params.build s fun p ds => List.Forall₂ p.HasParam ds params.toList := by
  cases params with
  | void => exact .advance (.pure hs .nil)
  | list params =>
    exact builds_inCommas (fun hpq h => h.stays hpq.toStays)
      (fun v hv _ hs => (h v hv).builds_build hs) hs

/-! ## Items -/

/-- A function of the program that unfolds to `f`. -/
structure HasFunction (p : Program) (d : DeclId) (f : Function) : Prop where
  lt : d.index < p.decls.size
  name : (p.decl d).name = f.name
  parts : ∃ params body vs, (p.decl d).kind = .function f.returnType.type params body ∧
    f.params = .list vs ∧
    List.Forall₂ p.HasParam params vs ∧
      Option.Rel (fun id stmts => p.HasStmt id (.block stmts)) body f.body

/-- An item that unfolds to a declaration. The name of a function means the function in the whole
file. -/
inductive HasItem (b : Built) : MiniC.Item → Item → Prop
  | ofVariable {base : BaseType} {d : DeclId} {v : Declarator} : b.program.HasVariable base d v →
      HasItem b (.variable d) (.declaration ⟨base, v, []⟩)
  | ofFunction {d : DeclId} {f : Function} :
    b.scopes.file.lookup f.name = some d → HasFunction b.program d f →
      HasItem b (.function d) (.function f)

/-- The items unfold to declarations among which are all functions that have a name. -/
structure Unfolds (b : Built) (items : List Item) : Prop where
  labelled : Labelled b
  forms : List.Forall₂ (HasItem b) b.program.items.toList items
  listed : ∀ {x d}, b.scopes.file.lookup x = some d → (b.program.decl d).isFunction = true →
    items.any (Item.declaresFunction x) = true

theorem HasFunction.stays {p q : Program} {d : DeclId} {f : Function}
    (h : HasFunction p d f) (hq : p.Stays q) (hd : q.decl d = p.decl d) : HasFunction q d f where
  lt := Nat.lt_of_lt_of_le h.lt hq.size
  name := by rw [hd, h.name]
  parts := by
    obtain ⟨params, body, vs, hkind, hlist, hparams, hbody⟩ := h.parts
    refine ⟨params, body, vs, by rw [hd, hkind], hlist, hparams.imp fun _ _ hv => hv.stays hq, ?_⟩
    exact Program.rel_imp hbody fun _ _ hid => hid.stays hq

theorem HasFunction.function_eq {p : Program} {d : DeclId} {f : Function} (h : HasFunction p d f) :
    p.function d = some f := by
  obtain ⟨params, body, vs, hkind, hlist, hparams, hbody⟩ := h.parts
  have hforms : params.mapM p.param = some vs :=
    Program.mapM_eq_of_forall₂ (hparams.imp fun _ _ hv => hv.form (.refl p))
  have hbodies : body.mapM p.bodyForm = some f.body :=
    Program.mapM_eq_of_rel hbody fun id stmts hid => by
    rw [Program.bodyForm, Program.stmtForm, hid.within (.refl p) (Nat.le_refl _)]
  have hf : f = ⟨f.returnType, f.name, .list vs, f.body⟩ := by rw [← hlist]
  rw [Program.function, hkind]
  dsimp only
  rw [hforms, hbodies, TypeName.typeName_type, h.name]
  exact (if_pos rfl).trans (congrArg some hf.symm)

theorem HasItem.itemForm_eq {b : Built} {item : MiniC.Item} {form : Item}
    (h : HasItem b item form) :
    b.program.itemForm item = some form := by
  cases h with
  | @ofVariable base d v hv =>
    have hdeclaration : b.program.declaration [d] = some ⟨base, v, []⟩ :=
      Program.declaration_eq (.cons hv .nil) (.refl _)
    rw [Program.itemForm, hdeclaration]
    rfl
  | ofFunction _ hf =>
    rw [Program.itemForm, hf.function_eq]
    rfl

/-- The items of a program are written as the declarations. -/
theorem Unfolds.unfold_eq {b : Built} (h : Unfolds b items) : b.program.unfold = some items :=
  Program.mapM_eq_of_forall₂ (h.forms.imp fun _ _ hitem => hitem.itemForm_eq)

/-- Functions other than those that are changed unfold to what they did. -/
theorem HasItem.stays {b b' : Built} {item : MiniC.Item} {form : Item} (h : HasItem b item form)
    (hq : b.program.Stays b'.program)
    (hkept : ∀ {x d}, b.scopes.file.lookup x = some d → b'.scopes.file.lookup x = some d)
    (hdecl : ∀ {f d}, form = .function f → b.scopes.file.lookup f.name = some d →
      b'.program.decl d = b.program.decl d) : HasItem b' item form := by
  cases h with
  | ofVariable hv => exact .ofVariable (hv.stays hq)
  | ofFunction hlookup hf => exact .ofFunction (hkept hlookup) (hf.stays hq (hdecl rfl hlookup))

theorem Unfolds.goesOn {b b' : Built} (h : Unfolds b items) (hb : GoesOn b b') :
    Unfolds b' items where
  labelled := hb.labelled
  forms := by
    rw [hb.begins.items]
    refine h.forms.imp fun item form hitem =>
      hitem.stays hb.begins.toStays hb.kept fun _ hlookup => ?_
    exact hb.begins.decl (h.labelled.of_lookup hlookup).1
  listed hx hd := by
    have hold := hb.added hx hd
    refine h.listed hold ?_
    rwa [← hb.begins.decl (h.labelled.of_lookup hold).1]

/-- Scopes inside the file do not matter. -/
theorem Unfolds.of_file_eq {b : Built} {scopes : Scopes} (h : Unfolds b items)
    (hfile : scopes.file = b.scopes.file)
    (hentries : ∀ entry ∈ scopes.entries, entry ∈ b.scopes.entries) :
    Unfolds ⟨b.program, scopes⟩ items where
  labelled entry hentry := h.labelled entry (hentries entry hentry)
  forms := h.forms.imp fun item form hitem =>
    hitem.stays (.refl _) (fun hx => by rwa [hfile]) fun _ _ => rfl
  listed hx hd := by
    rw [hfile] at hx
    exact h.listed hx hd

/-! ## Functions -/

theorem Unfolds.any_declaresFunction_eq_false {b : Built} (h : Unfolds b items) {x : String}
    (hx : b.scopes.file.lookup x = none) : items.any (Item.declaresFunction x) = false := by
  rw [List.any_eq_false]
  intro form hmem hdeclares
  obtain ⟨item, hitem⟩ := Program.exists_of_mem_right h.forms form hmem
  cases hitem with
  | ofVariable _ => cases hdeclares
  | ofFunction hlookup _ =>
    rw [of_decide_eq_true hdeclares, hx] at hlookup
    cases hlookup

/-- The first declaration of a function adds an item. -/
theorem Unfolds.addFunction {b : Built} (h : Unfolds b items) {f : Function}
    {params : List DeclId} (loc : Location)
    (hparams : List.Forall₂ b.program.HasParam params f.params.toList)
    (hnone : b.scopes.file.lookup f.name = none) :
    let (p, d) := b.program.pushDecl ⟨f.name, .function f.returnType.type params none, loc⟩
    Unfolds ⟨p.pushItem (.function d), b.scopes.declareInFile f.name d⟩
      (items ++ [.function f.prototype]) := by
  let decl : Decl := ⟨f.name, .function f.returnType.type params none, loc⟩
  let p := (b.program.pushDecl decl).1
  let d := (b.program.pushDecl decl).2
  have hself : (p.pushItem (.function d)).decl d = decl := Program.decl_pushDecl_self b.program decl
  have hlt : d.index < (p.pushItem (.function d)).decls.size :=
    Program.index_pushDecl_lt b.program decl
  have hbegins : b.program.Begins p := Program.begins_pushDecl b.program decl
  have hstays : b.program.Stays (p.pushItem (.function d)) :=
    hbegins.toStays.trans (Program.stays_pushItem p _)
  -- the parameters were added before, and stay as they are
  have hnew : HasFunction (p.pushItem (.function d)) d f.prototype :=
    ⟨hlt, congrArg Decl.name hself, params, none, f.params.toList, congrArg Decl.kind hself, rfl,
      hparams.imp fun _ _ hv => hv.stays hstays, .none⟩
  refine ⟨fun entry hentry => ?_, ?_, fun {x d'} hx hd' => ?_⟩
  · rcases Scopes.mem_entries_declareInFile hentry with rfl | hentry
    · exact ⟨hlt, congrArg Decl.name hself⟩
    · exact h.labelled.of_keeps hstays.toKeepsDecls entry hentry
  · -- no other item is that of a function with this name
    have hold : List.Forall₂ (HasItem ⟨p.pushItem (.function d), b.scopes.declareInFile f.name d⟩)
        b.program.items.toList items :=
      h.forms.imp fun item form hitem => hitem.stays hstays (lookup_of_new hnone) fun _ hlookup =>
        hbegins.decl (h.labelled.of_lookup hlookup).1
    have hlookup : ((f.name, d) :: b.scopes.file).lookup f.prototype.name = some d := by
      rw [List.lookup_cons, Function.prototype, beq_self_eq_true]
    have hitems : (p.pushItem (.function d)).items.toList =
        b.program.items.toList ++ [.function d] :=
      Array.toList_push
    change List.Forall₂ _ (p.pushItem (.function d)).items.toList _
    rw [hitems]
    exact List.rel_append hold (.cons (.ofFunction hlookup hnew) .nil)
  · rw [List.any_append, Bool.or_eq_true]
    -- a name of the file is the new one or was there before
    rcases eq_or_lookup_of_added hx with ⟨rfl, -⟩ | hx
    · exact .inr (by simp [Item.declaresFunction, Function.prototype])
    · refine .inl (h.listed hx ?_)
      rwa [← hbegins.decl (h.labelled.of_lookup hx).1]

/-- A function that is declared has an item, and its name means it. -/
structure Declared (f : Function) (items : List Item) (s : ParserState) (d : DeclId)
    (t : ParserState) : Prop where
  unfolds : Unfolds t.built (f.declareIn items)
  stays : s.program.Stays t.program
  lookup : t.scopes.file.lookup f.name = some d
  isFunction : (t.program.decl d).isFunction = true

theorem Unfolds.ensures_functionDecl (h : Unfolds s.built items) {f : Function}
    {params : List DeclId} (loc : Location)
    (hparams : List.Forall₂ s.program.HasParam params f.params.toList) :
    Ensures (functionDecl f.returnType.type f.name loc params) s (Declared f items s) := by
  unfold functionDecl resolveInFile?
  rw [ensures_bind, ensures_bind, ensures_get, ensures_pure]
  split
  · next d hlookup =>
    -- the function has an item already
    rw [ensures_bind]
    change Ensures (do
      unless (s.program.decl d).isFunction do fail (.differentKind f.name) loc
      return d) s _
    split
    · next hkind =>
      have hany : items.any (Item.declaresFunction f.name) = true := h.listed hlookup hkind
      refine ⟨?_, .refl _, hlookup, hkind⟩
      rwa [Function.declareIn, if_pos hany]
    · exact ensures_bind.2 ensures_fail
  · next hnone =>
    -- no item is for a function of this name, since its name would mean it
    have hany : ¬ items.any (Item.declaresFunction f.name) = true :=
      Bool.eq_false_iff.1 (h.any_declaresFunction_eq_false hnone)
    have hunfolds := h.addFunction loc hparams hnone
    refine ⟨?_, ?_, ?_, ?_⟩
    · rw [Function.declareIn, if_neg hany]
      exact hunfolds
    · exact (Program.begins_pushDecl _ _).toStays.trans (Program.stays_pushItem _ _)
    · change List.lookup f.name ((f.name, _) :: _) = _
      rw [List.lookup_cons, beq_self_eq_true]
    · exact congrArg Decl.isFunction (Program.decl_pushDecl_self s.program _)

theorem Item.declaresFunction_define (f : Function) (body : List Stmt) (x : String) (item : Item) :
    (item.define f body).declaresFunction x = item.declaresFunction x := by
  cases item with
  | declaration d => rfl
  | function g =>
    rw [define]
    split <;> rfl

/-- A function has got parameters and a body, and nothing else was changed. -/
structure Defines (b : Built) (d : DeclId) (params : List DeclId) (id : StmtId)
    (b' : Built) : Prop where
  labelled : Labelled b'
  stays : b.program.Stays b'.program
  items : b'.program.items = b.program.items
  kept : ∀ {x d'}, b.scopes.file.lookup x = some d' → b'.scopes.file.lookup x = some d'
  added : ∀ {x d'}, b'.scopes.file.lookup x = some d' → (b'.program.decl d').isFunction = true →
    b.scopes.file.lookup x = some d'
  other : ∀ {d'}, d'.index < b.program.decls.size → d' ≠ d → b'.program.decl d' = b.program.decl d'
  kind : ∀ {returnType old oldBody}, (b.program.decl d).kind = .function returnType old oldBody →
    (b'.program.decl d).kind = .function returnType params (some id)

/-- A function that has got its parameters is a function still when nodes are added. -/
theorem isFunction_of_withParams {b c : Built} {d : DeclId} {params : List DeclId} {loc : Location}
    (hlt : d.index < b.program.decls.size) (hkind : (b.program.decl d).isFunction = true)
    (hc : GoesOn ⟨b.program.modifyDecl d (Decl.withParams params loc), b.scopes⟩ c) :
    (c.program.decl d).isFunction = true := by
  have hkeeps := Parenthesised.keeps_withParams b.program hkind params loc
  rw [hc.begins.decl (Nat.lt_of_lt_of_le hlt hkeeps.size), hkeeps.isFunction hlt, hkind]

/-- A function gets its parameters first and its body last; nodes are added in between. -/
theorem defines_of_goesOn {b c : Built} {d : DeclId} {params : List DeclId} {loc : Location}
    (hlt : d.index < b.program.decls.size) (hkind : (b.program.decl d).isFunction = true)
    (hc : GoesOn ⟨b.program.modifyDecl d (Decl.withParams params loc), b.scopes⟩ c) (id : StmtId) :
    Defines b d params id ⟨c.program.modifyDecl d (Decl.withBody id), c.scopes⟩ := by
  have hwithParams := Parenthesised.keeps_withParams b.program hkind params loc
  have hwithBody := Parenthesised.keeps_withBody c.program d id
  have hstarted : d.index < (b.program.modifyDecl d (Decl.withParams params loc)).decls.size :=
    Nat.lt_of_lt_of_le hlt hwithParams.size
  -- the parameters were set before the body was read, and nothing in it changes functions
  have hdecl : c.program.decl d = (b.program.decl d).withParams params loc :=
    (hc.begins.decl hstarted).trans (Program.decl_modifyDecl_self b.program _ hlt)
  have hfunction : (c.program.decl d).isFunction = true := isFunction_of_withParams hlt hkind hc
  exact {
    labelled := hc.labelled.of_keeps hwithBody.toKeepsDecls
    stays := (Program.stays_modifyDecl hkind hwithParams).trans
      (hc.begins.toStays.trans (Program.stays_modifyDecl hfunction hwithBody))
    items := hc.begins.items
    kept := hc.kept
    added :=
      fun hx hd' => hc.added hx ((hwithBody.isFunction (hc.labelled.of_lookup hx).1).symm.trans hd')
    other := fun {d'} hlt' hne => by
      refine (Program.decl_modifyDecl_of_ne c.program _ hne).trans ?_
      refine (hc.begins.decl (Nat.lt_of_lt_of_le hlt' hwithParams.size)).trans ?_
      exact Program.decl_modifyDecl_of_ne b.program _ hne
    kind := fun hk => by
      change ((c.program.modifyDecl d (Decl.withBody id)).decl d).kind = _
      rw [Program.decl_modifyDecl_self _ _ (Nat.lt_of_lt_of_le hstarted hc.begins.size), hdecl]
      simp only [Decl.withBody, Decl.withParams, hk] }

section Define

variable {b b' : Built} {f : Function} {d : DeclId} {params : List DeclId}
    {body : List Stmt} {id : StmtId}

/-- The function that is defined gets its parameters and its body, and the other items stay. -/
theorem HasItem.define {item : MiniC.Item} {form : Item} (h : HasItem b item form) (hb : Labelled b)
    (hd : b.scopes.file.lookup f.name = some d) (hdefines : Defines b d params id b')
    (hparams : List.Forall₂ b'.program.HasParam params f.params.toList)
    (hid : b'.program.HasStmt id (.block body)) :
    HasItem b' item (form.define f body) := by
  cases h with
  | ofVariable hv => exact .ofVariable (hv.stays hdefines.stays)
  | @ofFunction d' g hlookup hg =>
    rw [Item.define]
    split
    · next hname =>
      obtain rfl : d' = d := by
        rw [hname, hd] at hlookup
        exact (Option.some.inj hlookup).symm
      obtain ⟨old, oldBody, vs, hg', -⟩ := hg.parts
      have hfunction :
          HasFunction b'.program d' ⟨g.returnType, g.name, .list f.params.toList, some body⟩ :=
        ⟨Nat.lt_of_lt_of_le hg.lt hdefines.stays.size,
          (hdefines.stays.name hg.lt).trans hg.name, params, some id, f.params.toList,
          hdefines.kind hg', rfl, hparams, .some hid⟩
      exact .ofFunction (hdefines.kept hlookup) hfunction
    · next hname =>
      -- names mean their declarations, so functions of different names are different
      have hne : d' ≠ d := by
        rintro rfl
        exact hname (hg.name.symm.trans (hb.of_lookup hd).2)
      exact .ofFunction (hdefines.kept hlookup) (hg.stays hdefines.stays (hdefines.other hg.lt hne))

theorem Unfolds.define (h : Unfolds b items) (hd : b.scopes.file.lookup f.name = some d)
    (hdefines : Defines b d params id b')
    (hparams : List.Forall₂ b'.program.HasParam params f.params.toList)
    (hid : b'.program.HasStmt id (.block body)) : Unfolds b' (items.map (Item.define f body)) where
  labelled := hdefines.labelled
  forms := by
    rw [hdefines.items]
    exact List.forall₂_map_right_iff.2 (h.forms.imp fun _ _ hitem =>
      hitem.define h.labelled hd hdefines hparams hid)
  listed {x d'} hx hd' := by
    have hold := hdefines.added hx hd'
    rw [hdefines.stays.isFunction (h.labelled.of_lookup hold).1] at hd'
    have hlisted := h.listed hold hd'
    simpa only [List.any_map, Function.comp_def, Item.declaresFunction_define] using hlisted

end Define

theorem Unfolds.ensures_buildBody (h : Unfolds s.built items) {f : Function} {d : DeclId}
    {params : List DeclId}
    {body : List Stmt} (loc opening : Location) (hd : s.scopes.file.lookup f.name = some d)
    (hkind : (s.program.decl d).isFunction = true)
    (hparams : List.Forall₂ s.program.HasParam params f.params.toList)
    (hplain : AllPlain (Stmt.piecesOfAll body)) :
    Ensures (buildBody d f.name loc opening params body) s fun _ t =>
      Unfolds t.built (items.map (Item.define f body)) := by
  unfold buildBody
  change Ensures (do
    if (s.program.decl d).hasBody then fail (.functionRedefinition f.name) loc
    modifyDecl d (Decl.withParams params loc)
    let ids ← Stmt.buildAll body
    advance
    let block ← addStmt (.block ids) opening
    modifyDecl d (Decl.withBody block)) s _
  split
  · exact ensures_bind.2 ensures_fail
  -- the parameters are those of the definition while the body is built
  let started : ParserState :=
    { s with program := s.program.modifyDecl d (Decl.withParams params loc) }
  have hlabelled : Labelled started.built :=
    h.labelled.of_keeps (Parenthesised.keeps_withParams s.program hkind params loc).toKeepsDecls
  have hbody : Builds (Stmt.buildAll body) started fun p ids => List.Forall₂ p.HasStmt ids body :=
    Stmt.builds_buildAll (fun stmt hmem _ hs =>
      stmt.builds_build (hplain.subset (Stmt.pieces_subset_of_mem hmem)) hs) hlabelled
  change Ensures (Stmt.buildAll body >>= fun ids => advance >>= fun _ =>
    addStmt (.block ids) opening >>= fun block => modifyDecl d (Decl.withBody block)) started _
  refine Ensures.bind hbody fun ids t ⟨ht, hids⟩ => ?_
  refine tokensOnly_advance.ensures_bind fun _ rest => ?_
  refine Ensures.bind (Stmt.builds_addBlock (s := { t with rest }) opening ht.labelled hids)
    fun id u ⟨hu, hid⟩ => ?_
  have hlt := (h.labelled.of_lookup hd).1
  have hdefines :
      Defines s.built d params id ⟨u.program.modifyDecl d (Decl.withBody id), u.scopes⟩ :=
    defines_of_goesOn hlt hkind (ht.trans hu) id
  have hfunction : (u.program.decl d).isFunction = true :=
    isFunction_of_withParams (b := s.built) hlt hkind (ht.trans hu)
  have hid : (u.program.modifyDecl d (Decl.withBody id)).HasStmt id (.block body) :=
    hid.stays (Program.stays_modifyDecl hfunction (Parenthesised.keeps_withBody u.program d id))
  exact h.define hd hdefines (hparams.imp fun _ _ hv => hv.stays hdefines.stays) hid

/-- The parameters are as they should be, and so are the expressions of the body. -/
structure Function.Plain (f : Function) : Prop where
  params : ∀ v ∈ f.params.toList, v.Plain
  pieces : AllPlain f.pieces

theorem Function.Plain.unfolds_build {f : Function} (hf : f.Plain) (h : Unfolds s.built items) :
    Ensures f.build s fun _ t => Unfolds t.built (Item.addTo items (.function f)) := by
  refine Ensures.bind (f.returnType.builds_build h.labelled) fun _ s ⟨hs, _⟩ => ?_
  have h := h.goesOn hs
  refine tokensOnly_here.ensures_bind fun loc _ => tokensOnly_advance.ensures_bind fun _ _ => ?_
  refine tokensOnly_advance.ensures_bind fun _ rest => ?_
  -- the parameters and the body are in a scope of their own
  have hentered : Unfolds ⟨s.program, s.scopes.enter⟩ items :=
    h.of_file_eq rfl fun _ hentry => hentry
  refine ensures_inScope.2 (Ensures.mono (Q := fun _ t =>
    Unfolds t.built (Item.addTo items (.function f))) ?_ ?_)
  · refine Ensures.bind (Params.builds_build hf.params hentered.labelled)
      fun params t ⟨ht, hparams⟩ => ?_
    have ht := hentered.goesOn ht
    refine tokensOnly_advance.ensures_bind fun _ rest => ?_
    refine Ensures.bind (Unfolds.ensures_functionDecl (s := { t with rest }) ht loc hparams)
      fun d u hu => ?_
    refine tokensOnly_here.ensures_bind fun opening _ =>
      tokensOnly_advance.ensures_bind fun _ rest => ?_
    have hparams := hparams.imp fun _ _ hv => hv.stays hu.stays
    cases hbody : f.body with
    | none =>
      rw [Item.addTo, hbody]
      exact hu.unfolds
    | some body =>
      rw [Item.addTo, hbody]
      have hpieces : Stmt.piecesOfAll body ⊆ f.pieces := fun p hp => by
        simp [Function.pieces, Function.bodyPieces, hbody, hp]
      exact Unfolds.ensures_buildBody
        (s := { u with rest }) hu.unfolds loc opening hu.lookup hu.isFunction hparams
        (hf.pieces.subset hpieces)
  · exact fun _ t ht => ht.of_file_eq rfl fun _ hentry => Scopes.mem_entries_leave hentry

/-! ## Files -/

theorem Unfolds.ensures_addItems {base : BaseType} {ds : List DeclId} {vs : List Declarator}
    (hds : List.Forall₂ (s.program.HasVariable base) ds vs) (h : Unfolds s.built items) :
    Ensures (ds.forM fun d => addItem (.variable d)) s fun _ t =>
      Unfolds t.built (items ++ vs.map fun v => .declaration ⟨base, v, []⟩) := by
  induction ds generalizing s items vs with
  | nil =>
    cases hds
    rw [List.map_nil, List.append_nil]
    exact h
  | cons d ds ih =>
    obtain _ | ⟨hd, hds⟩ := hds
    rename_i v vs
    have hstays := Program.stays_pushItem s.program (.variable d)
    have hitem : Unfolds ⟨s.program.pushItem (.variable d), s.scopes⟩
        (items ++ [.declaration ⟨base, v, []⟩]) := by
      refine ⟨h.labelled.of_keeps hstays.toKeepsDecls, ?_, fun hx hd' => ?_⟩
      · have hold : List.Forall₂ (HasItem ⟨s.program.pushItem (.variable d), s.scopes⟩)
            s.program.items.toList items :=
          h.forms.imp fun item form hitem => hitem.stays hstays id fun _ _ => rfl
        change List.Forall₂ _ (s.program.items.push (.variable d)).toList _
        rw [Array.toList_push]
        exact List.rel_append hold (.cons (.ofVariable (hd.stays hstays)) .nil)
      · rw [List.any_append, h.listed hx hd', Bool.true_or]
    have hrest := ih (hds.imp fun _ _ hv => hv.stays hstays)
      (s := { s with program := s.program.pushItem (.variable d) }) hitem
    rw [List.append_assoc] at hrest
    exact ensures_bind.2 hrest

/-- What is declared is as it should be. -/
def Item.Plain : Item → Prop
  | .declaration d => AllPlain d.pieces
  | .function f => f.Plain

theorem TopLevel.unfolds_build {d : TopLevel} (hd : d.item.Plain) (h : Unfolds s.built items) :
    Ensures d.build s fun _ t => Unfolds t.built (d.item.addTo items) := by
  have hitem (s : ParserState) (h : Unfolds s.built items) :
      Ensures d.item.build s fun _ t => Unfolds t.built (d.item.addTo items) := by
    revert hd
    cases d.item with
    | declaration d =>
      intro hd
      refine Ensures.bind (d.builds_build .global hd h.labelled) fun ds t ⟨ht, hds⟩ => ?_
      exact (h.goesOn ht).ensures_addItems hds
    | function f => exact fun hf => hf.unfolds_build h
  unfold build
  split
  · exact tokensOnly_advance.ensures_bind fun _ rest => hitem { s with rest } h
  · exact hitem s h

/-- The program of a file unfolds to the declarations of the file, each once. -/
theorem File.unfolds_build {file : File} (hfile : ∀ d ∈ file.declarations, d.item.Plain)
    (stream : TokenStream) :
    Ensures file.build (.start stream) fun _ t => t.program.unfold = some file.condensed := by
  have hall (ds : List TopLevel) (hds : ∀ d ∈ ds, d.item.Plain)
    {items : List Item} {s : ParserState}
      (h : Unfolds s.built items) :
      Ensures (ds.forM TopLevel.build) s fun _ t =>
        Unfolds t.built (ds.foldl (fun items d => d.item.addTo items) items) := by
    induction ds generalizing items s with
    | nil => exact h
    | cons d ds ih =>
      rw [List.forall_mem_cons] at hds
      exact ensures_bind.2 ((TopLevel.unfolds_build hds.1 h).mono fun _ t ht => ih hds.2 ht)
  have hstart : Unfolds (ParserState.start stream).built [] := ⟨nofun, .nil, nofun⟩
  exact (hall file.declarations hfile hstart).mono fun _ t ht => ht.unfold_eq

end MiniC.Written
