import MiniC.Proofs.ParsedProgram
import MiniC.Proofs.StatementDraft
import MiniC.Proofs.TokenPlaces

/-!
# Reading a file makes steps of the construction

Between the declarations of a file nothing is loose. So the program that a text writes is a draft
that can be reached without loose parts (`Program.reachable_of_parse`), and what the steps of the
construction preserve holds of it.
-/

set_option autoImplicit false

namespace MiniC

namespace Parser

variable {tokens : List Token} {F : Program → Prop} {P : Multiset Part} {s t : ParserState}

/-! ## Parameters -/

/-- The declarations are parameters of the program. -/
def Declared (p : Program) (ds : List DeclId) : Prop := ∀ d ∈ ds, p.IsParameter d

/-- A parameter is declared and used up by nothing. -/
theorem ensures_draftParameter {ds : List DeclId} (h : Drafting tokens (Declared · ds) P s) :
    Ensures parameter s fun d t => Drafting tokens (Declared · (ds ++ [d])) P t := by
  apply h.bind_tokensOnly tokensOnly_typeName
  intro type t ht
  apply ht.bind_tokensOnly tokensOnly_here
  intro loc u hu
  apply hu.bind_tokensOnly tokensOnly_parameterName
  intro name v hv
  apply hv.bind_tokensOnly (tokensOnly_parameterType type)
  intro type w hw
  dsimp only
  split
  · exact ensures_bind.2 ensures_fail
  -- what is added is a parameter, which no item or statement will refer to
  let new : Decl := ⟨name, .variable type none .param, loc⟩
  let d : DeclId := (w.program.pushDecl new).2
  have hlt : d.index < (w.program.pushDecl new).1.decls.size := Program.index_pushDecl_lt _ _
  have hle := (Program.extends_pushDecl w.program new).decls
  have hparameter : (w.program.pushDecl new).1.IsParameter d :=
    ⟨hlt, congrArg Decl.storage? (Program.decl_pushDecl_self w.program new)⟩
  have hdeclared : Declared (w.program.pushDecl new).1 (ds ++ [d]) := by
    intro d' hd'
    rcases List.mem_append.1 hd' with hd' | hd'
    · exact (hw.holds d' hd').extends (Program.extends_pushDecl w.program new)
    · exact List.mem_singleton.1 hd' ▸ hparameter
  have hnew : Drafting tokens (Declared · (ds ++ [d])) P
      { w with program := (w.program.pushDecl new).1 } := by
    have hparam :=
      hw.step (G := (Declared · (ds ++ [d]))) (.newVariable name type .param loc) hle hdeclared
    simpa [Storage.parts] using hparam
  have hnamed : Ensures (do
      unless name.isEmpty do declare name d loc
      return d) { w with program := (w.program.pushDecl new).1 } fun d t =>
        Drafting tokens (Declared · (ds ++ [d])) P t := by
    -- a parameter without a name is given none
    split
    · exact hnew
    · exact ensures_bind.2 (ensures_declare (hnew.declare hlt fun _ => Scopes.has_declare name))
  exact ensures_bind.2 (ensures_addDecl.2 hnamed)

/-- All parameters of a function are declared. -/
theorem ensures_draftParameters (h : Drafting tokens (fun _ => True) P s) :
    Ensures parameters s fun ds t => Drafting tokens (Declared · ds) P t := by
  have hnil (t : ParserState) (ht : Drafting tokens (fun _ => True) P t) :
      Drafting tokens (Declared · []) P t := ht.mono fun p _ => by simp [Declared]
  apply h.bind_tokensOnly (tokensOnly_check _)
  intro found t ht
  split
  · exact hnil t ht
  apply ht.bind_tokensOnly tokensOnly_startsVoidList
  intro found u hu
  split
  · exact hu.bind_tokensOnly tokensOnly_advance fun _ v hv => hnil v hv
  · apply ensures_commaSeparated (F := fun ds p => Declared p ds) (P := fun _ => P)
    · exact ensures_draftParameter
    · exact hnil u hu

/-! ## Functions -/

/-- A function of the program that has no body yet. -/
def IsPrototype (p : Program) (d : DeclId) : Prop :=
  d.index < p.decls.size ∧ ∃ returnType params, (p.decl d).kind = .function returnType params none

theorem ensures_resolveInFile? {name : String} {Q : Option DeclId → ParserState → Prop} :
    Ensures (resolveInFile? name) s Q ↔ Q (s.scopes.file.lookup name) s := Iff.rfl

/-- A function without a body is a prototype. -/
theorem exists_kind_of_not_hasBody {d : Decl} (hfunction : d.isFunction = true)
    (hbody : ¬ d.hasBody = true) :
    ∃ returnType params, d.kind = .function returnType params none := by
  rcases d with ⟨_, _ | ⟨returnType, params, _ | body⟩, _⟩
  · cases hfunction
  · exact ⟨returnType, params, rfl⟩
  · exact absurd rfl hbody

/-- A function keeps having no body while a body is read. -/
theorem keptByBodies_isPrototype (d : DeclId) : KeptByBodies (IsPrototype · d) where
  exprs _ h := h
  stmt _ h := h
  newVariable := by
    intro p name type storage loc h
    have hne : d ≠ (p.pushDecl ⟨name, .variable type none storage, loc⟩).2 := by
      rintro rfl
      exact Nat.lt_irrefl _ h.1
    refine ⟨Nat.lt_of_lt_of_le h.1 (Program.extends_pushDecl p _).decls, ?_⟩
    rw [Program.decl_pushDecl_of_ne p _ hne]
    exact h.2
  init := by
    intro p d' type storage e hkind h
    obtain ⟨hlt, returnType, params, hfunction⟩ := h
    have hne : d ≠ d' := by
      rintro rfl
      cases hfunction.symm.trans hkind
    refine ⟨?_, returnType, params, ?_⟩
    · rw [Program.size_modifyDecl]
      exact hlt
    · rw [Program.decl_modifyDecl_of_ne p _ hne]
      exact hfunction

/-- The declaration of a function, and parameters that it may be given. -/
structure OffersParams (p : Program) (d : DeclId) (params : List DeclId) : Prop where
  lt : d.index < p.decls.size
  isFunction : (p.decl d).isFunction = true
  declared : Declared p params

/-- The declaration that stands for a name may be given the parameters. -/
theorem ensures_draftFunctionDecl {params : List DeclId} {returnType : CType}
    (hplain : returnType.isArray = false) (name : String) (loc : Location)
    (h : Drafting tokens (Declared · params) P s) :
    Ensures (functionDecl returnType name loc params) s fun d t =>
      Drafting tokens (OffersParams · d params) P t := by
  unfold functionDecl
  rw [ensures_bind, ensures_resolveInFile?]
  split
  · next d hlookup =>
    obtain ⟨before, after, hfile, -⟩ := List.lookup_eq_some_iff.1 hlookup
    have hmem : (name, d) ∈ s.scopes.file := by simp [hfile]
    have hlt :=
      h.names ⟨s.scopes.file, List.mem_append_right _ (List.mem_singleton_self _), name, hmem⟩
    rw [ensures_bind, ensures_declOf]
    split
    · next hfunction => exact ⟨h.rest, h.names, ⟨hlt, hfunction, h.holds⟩, h.reached⟩
    · exact ensures_bind.2 ensures_fail
  · let new : Decl := ⟨name, .function returnType params none, loc⟩
    let d : DeclId := (s.program.pushDecl new).2
    have hlt : d.index < (s.program.pushDecl new).1.decls.size := Program.index_pushDecl_lt _ _
    have hle := (Program.extends_pushDecl s.program new).decls
    have hfunction : ((s.program.pushDecl new).1.decl d).isFunction = true :=
      congrArg Decl.isFunction (Program.decl_pushDecl_self s.program new)
    have hnew : Drafting tokens (OffersParams · d params) P
        { s with program := (s.program.pushDecl new).1.pushItem (.function d) } :=
      h.step (.newFunction name returnType loc hplain h.holds) hle
        ⟨hlt, hfunction, fun q hq => (h.holds q hq).extends
          ((Program.extends_pushDecl s.program new).trans (Program.extends_pushItem _ _))⟩
    exact hnew.declare hlt fun _ => Scopes.has_declareInFile name

/-- The body of a function is used up by it. -/
theorem ensures_draftFunctionBody (hplaces : (tokens.map Token.loc).Nodup)
    {d : DeclId} {name : String}
    {loc opening : Location} {params : List DeclId}
    (h : Drafting tokens (OffersParams · d params) P s) :
    Ensures (functionBody d name loc opening params) s fun _ t =>
      Drafting tokens (fun _ => True) P t := by
  obtain ⟨hlt, hfunction, hparams⟩ := h.holds
  unfold functionBody
  rw [ensures_bind, ensures_declOf]
  split
  · exact ensures_bind.2 ensures_fail
  next hbody =>
  obtain ⟨returnType, old, hkind⟩ := exists_kind_of_not_hasBody hfunction hbody
  have hprototype : IsPrototype (s.program.modifyDecl d (Decl.withParams params loc)) d := by
    refine ⟨?_, returnType, params, ?_⟩
    · rw [Program.size_modifyDecl]
      exact hlt
    · rw [Program.decl_modifyDecl_self _ _ hlt, Decl.withParams, hkind]
  have hsize := Program.size_modifyDecl s.program d (Decl.withParams params loc)
  have hs : Drafting tokens (IsPrototype · d) P
      { s with program := s.program.modifyDecl d (Decl.withParams params loc) } :=
    h.step (.params loc hlt hkind hparams) (Nat.le_of_eq hsize.symm) hprototype
  -- the function is still without a body when its statements were read, though it may be called in
  -- them
  have hF := keptByBodies_isPrototype d
  apply ensures_bind.2
  apply (ensures_draftFunctionStatements hplaces hF hs).bind
  intro ids t ht
  apply ht.bind_tokensOnly (tokensOnly_expect _)
  intro _ u hu
  have hblock : Drafting tokens (IsPrototype · d) (↑(StmtKind.block ids).parts + P) u := by
    simpa using hu
  apply (hblock.ensures_addStmt hF).bind
  intro body v hv
  obtain ⟨hlt', returnType', params', hkind'⟩ := hv.holds
  have hsize' := Program.size_modifyDecl v.program d (Decl.withBody body)
  exact hv.step (.body body hlt' hkind') (Nat.le_of_eq hsize'.symm) trivial

/-- After a function nothing new is loose. -/
theorem ensures_draftFunction (hplaces : (tokens.map Token.loc).Nodup) {returnType : CType}
    (hplain : returnType.isArray = false) (name : String) (loc : Location)
    (h : Drafting tokens (fun _ => True) P s) :
    Ensures (functionRest returnType name loc) s fun _ t =>
      Drafting tokens (fun _ => True) P t := by
  apply h.ensures_inScope (G := fun _ _ => True) (R := fun _ => P)
  intro t ht
  apply (ensures_draftParameters ht).bind
  intro params u hu
  apply hu.bind_tokensOnly (tokensOnly_expect _)
  intro _ v hv
  apply (ensures_draftFunctionDecl hplain name loc hv).bind
  intro d w hw
  apply hw.bind_tokensOnly tokensOnly_here
  intro opening x hx
  apply hx.bind_tokensOnly (tokensOnly_accept _)
  intro brace y hy
  split
  · exact ensures_draftFunctionBody hplaces hy
  · exact (hy.mono fun _ _ => trivial).ensures_tokensOnly (tokensOnly_expect _)

/-! ## Files -/

theorem keptByBodies_true : KeptByBodies fun _ => True :=
  ⟨fun _ _ => trivial, fun _ _ => trivial, fun _ _ _ _ _ => trivial, fun _ _ _ => trivial⟩

/-- Every variable of the file is added to its declarations. -/
theorem ensures_draftItems (ds : List DeclId)
    (h : Drafting tokens (fun _ => True) (↑(ds.map Part.globalVar) + P) s) :
    Ensures (ds.forM fun d => addItem (.variable d)) s fun _ t =>
      Drafting tokens (fun _ => True) P t := by
  induction ds generalizing s with
  | nil => simpa using h
  | cons d ds ih =>
    rw [List.map_cons, ← Multiset.cons_coe, Multiset.cons_add] at h
    exact ensures_bind.2 (ih (h.step (.item d) (Nat.le_refl _) trivial))

/-- After a declaration of the file nothing new is loose. -/
theorem ensures_draftTopLevel (hplaces : (tokens.map Token.loc).Nodup)
    (h : Drafting tokens (fun _ => True) P s) :
    Ensures topLevel s fun _ t => Drafting tokens (fun _ => True) P t := by
  apply h.bind_tokensOnly (tokensOnly_accept _)
  intro _ t ht
  apply ht.bind_tokensOnly_and tokensOnly_baseType ensures_baseType
  intro base t hbase ht
  apply ht.bind_tokensOnly_and (tokensOnly_stars base) (ensures_stars hbase)
  intro type t hplain ht
  apply ht.bind_tokensOnly tokensOnly_here
  intro loc t ht
  apply ht.bind_tokensOnly tokensOnly_identifier
  intro name t ht
  apply ht.bind_tokensOnly (tokensOnly_accept _)
  intro paren t ht
  split
  · exact ensures_draftFunction hplaces hplain name loc ht
  · apply (ensures_draftVariable hplaces keptByBodies_true ht type name loc .global).bind
    intro d u hu
    rw [← List.flatMap_singleton Storage.global.parts d] at hu
    apply (ensures_draftDeclarators hplaces keptByBodies_true base .global hu).bind
    intro others v hv
    apply ensures_draftItems (d :: others)
    rw [List.map_eq_flatMap]
    exact hv

/-- At the end of the file nothing new is loose. -/
theorem ensures_draftTranslationUnit (hplaces : (tokens.map Token.loc).Nodup)
    (h : Drafting tokens (fun _ => True) P s) :
    Ensures translationUnit s fun _ t => Drafting tokens (fun _ => True) P t := by
  have hatEnd : TokensOnly atEnd := .of_same fun _ => rfl
  apply h.bind_tokensOnly tokensOnly_remaining
  intro bound t ht
  have hrepeat := ensures_repeatUntil (F := fun _ _ => True) (P := fun _ => P)
    (fun hu => ensures_draftTopLevel hplaces hu) hatEnd bound [] ht
  exact ensures_bind.2 hrepeat

/-- Before anything is read, nothing is loose. -/
theorem drafting_start (stream : TokenStream) :
    Drafting stream.tokens (fun _ => True) 0 (ParserState.start stream) := by
  refine ⟨List.suffix_refl _, fun hd => ?_, trivial, .refl⟩
  obtain ⟨scope, hscope, name, hname⟩ := hd
  obtain rfl : scope = [] := List.mem_singleton.1 hscope
  cases hname

end Parser

/-- The program that a text writes is a draft without loose parts. -/
theorem Program.reachable_of_parse {source : String} {p : Program} (h : parse source = .ok p) :
    ∃ stream, tokenize source = .ok stream ∧ Draft.Reachable stream.tokens ⟨p, 0⟩ := by
  unfold parse at h
  split at h
  · next stream htokens =>
    have hplaces := nodup_places_of_tokenize htokens
    have hread := Parser.ensures_draftTranslationUnit hplaces (Parser.drafting_start stream)
    unfold ofTokens Except.map at h
    split at h
    · cases h
    · next result hresult =>
      cases h
      exact ⟨stream, htokens, (hread.of_ok hresult).reached⟩
  · cases h

end MiniC
