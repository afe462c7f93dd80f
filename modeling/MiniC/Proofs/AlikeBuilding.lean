import MiniC.Proofs.AlikePrograms
import MiniC.Proofs.TreeBuilding

/-!
# Building from a tree with more parentheses

A tree with more parentheses is built in step with the tree without them: whenever the one has a
program, so does the other, and the programs are alike (`Parenthesised.programAlike_build`). The
states of the two parsers have the same scopes, and differ in their tokens and expressions only.
-/

set_option autoImplicit false

namespace MiniC

/-- The names of all open scopes, with their declarations. -/
def Scopes.entries (scopes : Scopes) : List (String × DeclId) := scopes.inner.flatten ++ scopes.file

/-- A name that is resolved is one of an open scope. -/
theorem Scopes.mem_entries_of_resolve? {scopes : Scopes} {x : String} {d : DeclId}
    (h : scopes.resolve? x = some d) :
    (x, d) ∈ scopes.entries := by
  obtain ⟨scope, hmem, hlookup⟩ := List.exists_of_findSome?_eq_some h
  obtain ⟨l₁, l₂, rfl, -⟩ := List.lookup_eq_some_iff.1 hlookup
  have hflatten : (x, d) ∈ (scopes.inner ++ [scopes.file]).flatten :=
    List.mem_flatten.2 ⟨_, hmem, by simp⟩
  simpa [entries] using hflatten

/-- A name that is declared is the only new one. -/
theorem Scopes.mem_entries_declare {scopes : Scopes} {x : String} {d : DeclId}
    {entry : String × DeclId}
    (h : entry ∈ (scopes.declare x d).entries) : entry = (x, d) ∨ entry ∈ scopes.entries := by
  unfold declare entries at *
  split at h
  · next hinner => simpa [hinner, or_assoc] using h
  · next hinner => simpa [hinner] using h

theorem Scopes.mem_entries_declareInFile {scopes : Scopes} {x : String} {d : DeclId}
    {entry : String × DeclId}
    (h : entry ∈ (scopes.declareInFile x d).entries) : entry = (x, d) ∨ entry ∈ scopes.entries := by
  rcases List.mem_append.1 h with h | h
  · exact .inr (List.mem_append_left _ h)
  · exact (List.mem_cons.1 h).imp_right (List.mem_append_right _)

/-- Leaving a scope opens none. -/
theorem Scopes.mem_entries_leave {scopes : Scopes} {entry : String × DeclId}
    (h : entry ∈ scopes.leave.entries) :
    entry ∈ scopes.entries := by
  rcases List.mem_append.1 h with h | h
  · obtain ⟨scope, hmem, h⟩ := List.mem_flatten.1 h
    exact List.mem_append_left _ (List.mem_flatten.2 ⟨scope, List.mem_of_mem_tail hmem, h⟩)
  · exact List.mem_append_right _ h

/-- Pointers have no length. -/
theorem CType.length?_withPointers (base : BaseType) (n : Nat) :
    ((ofBase base).withPointers n).length? = none := by
  induction n with
  | zero => rfl
  | succ n ih =>
    rw [withPointers]
    cases hn : (ofBase base).withPointers n with
    | value _ _ length =>
      rw [hn] at ih
      exact ih
    | function result => rfl

/-- A written type is no array. -/
theorem Written.TypeName.type_isArray (t : TypeName) : t.type.isArray = false := by
  rw [← Bool.not_eq_true, CType.isArray_iff]
  rintro ⟨n, hn⟩
  rw [TypeName.type, CType.length?_withPointers] at hn
  cases hn

namespace Parenthesised

open MiniC.Parser

variable {α α' β β' : Type} {s s' t t' : ParserState}

/-! ## Programs under construction -/

/-- Names in scope are those of their declarations, and functions do not return arrays. -/
structure Sensible (b : Built) : Prop where
  names : ∀ {x d}, (x, d) ∈ b.scopes.entries → d.index < b.program.decls.size ∧
    (b.program.decl d).name = x
  results : ∀ {d}, (b.program.decl d).isFunction = true →
    (b.program.decl d).type.result.isArray = false

/-- What was built is the same, except for parentheses. -/
structure BuiltAlike (aim : Aim) (b b' : Built) : Prop where
  program : ProgramAlike aim b.program b'.program
  scopes : b'.scopes = b.scopes
  sensible : Sensible b

/-- What was built goes on to be the same except for parentheses. -/
structure Onward (aim : Aim) (b b' d d' : Built) : Prop where
  alike : BuiltAlike aim d d'
  left : Keeps b.program d.program
  right : Keeps b'.program d'.program

/-- Programs may be built further in two steps. -/
theorem Onward.trans {aim : Aim} {b b' d d' f f' : Built} (h : Onward aim b b' d d')
    (h' : Onward aim d d' f f') : Onward aim b b' f f' :=
  ⟨h'.alike, h.left.trans h'.left, h.right.trans h'.right⟩

theorem Onward.refl {aim : Aim} {b b' : Built} (h : BuiltAlike aim b b') : Onward aim b b' b b' :=
  ⟨h, .refl _, .refl _⟩

/-! ## Parsers in step -/

/-- If the first parser succeeds from the first state, so does the second from the second, and their
results and states satisfy `Q`. -/
def Pair (x : Parser α) (x' : Parser α') (s s' : ParserState)
    (Q : α → α' → ParserState → ParserState → Prop) :
    Prop :=
  match x s, x' s' with
  | .ok (a, t), .ok (a', t') => Q a a' t t'
  | .ok _, .error _ => False
  | .error _, _ => True

/-- The parsers lead from alike states to alike states, where `R` relates their results. -/
def Leads (aim : Aim) (x : Parser α) (x' : Parser α') (s s' : ParserState)
    (R : Program → Program → α → α' → Prop) : Prop :=
  Pair x x' s s' fun a a' t t' => Onward aim s.built s'.built t.built t'.built ∧
    R t.program t'.program a a'

/-- The parsers lead from any alike states to alike states. -/
def InStep (aim : Aim) (R : Program → Program → α → α' → Prop) (x : Parser α)
    (x' : Parser α') : Prop :=
  ∀ s s' : ParserState, BuiltAlike aim s.built s'.built → Leads aim x x' s s' R

variable {aim : Aim} {x : Parser α} {x' : Parser α'} {R : Program → Program → α → α' → Prop}

/-- If the first parsers succeed together, the second ones have to from where they came to. -/
theorem Pair.bind {f : α → Parser β} {f' : α' → Parser β'}
    {Q : α → α' → ParserState → ParserState → Prop}
    {Q' : β → β' → ParserState → ParserState → Prop} (h : Pair x x' s s' Q)
    (hf : ∀ a a' t t', Q a a' t t' → Pair (f a) (f' a') t t' Q') :
    Pair (x >>= f) (x' >>= f') s s' Q' := by
  unfold Pair at h ⊢
  change match Except.bind (x s) fun r => f r.1 r.2, Except.bind (x' s') fun r => f' r.1 r.2 with
    | .ok (a, t), .ok (a', t') => Q' a a' t t'
    | .ok _, .error _ => False
    | .error _, _ => True
  unfold Except.bind
  generalize x s = r, x' s' = r' at h ⊢
  rcases r with _ | ⟨a, t⟩
  · trivial
  · rcases r' with _ | ⟨a', t'⟩
    · exact h.elim
    · exact hf a a' t t' h

/-- One step after the other. -/
theorem Leads.bind {f : α → Parser β} {f' : α' → Parser β'} {S : Program → Program → β → β' → Prop}
    (h : Leads aim x x' s s' R)
    (hf : ∀ a a' t t', Onward aim s.built s'.built t.built t'.built → R t.program t'.program a a' →
      Leads aim (f a) (f' a') t t' S) :
    Leads aim (x >>= f) (x' >>= f') s s' S := by
  refine Pair.bind h fun a a' t t' ⟨ht, ha⟩ => ?_
  have hnext := hf a a' t t' ht ha
  unfold Leads Pair at *
  split
  · next heq heq' =>
    rw [heq, heq'] at hnext
    exact ⟨ht.trans hnext.1, hnext.2⟩
  · next heq heq' =>
    rw [heq, heq'] at hnext
    exact hnext
  · trivial

/-- The results may be said to be related by less. -/
theorem Leads.mono {S : Program → Program → α → α' → Prop} (h : Leads aim x x' s s' R)
    (hR : ∀ a a' (t t' : ParserState), Onward aim s.built s'.built t.built t'.built →
      R t.program t'.program a a' → S t.program t'.program a a') :
    Leads aim x x' s s' S := by
  unfold Leads Pair at h ⊢
  split
  · next heq heq' =>
    rw [heq, heq'] at h
    exact ⟨h.1, hR _ _ _ _ h.1 h.2⟩
  · next heq heq' =>
    rw [heq, heq'] at h
    exact h
  · trivial

theorem Leads.pure {a : α} {a' : α'} (hs : BuiltAlike aim s.built s'.built)
    (h : R s.program s'.program a a') :
    Leads aim (Pure.pure a) (Pure.pure a') s s' R := ⟨.refl hs, h⟩

/-- Results may be changed on both sides. -/
theorem Leads.map {f : α → β} {f' : α' → β'} {S : Program → Program → β → β' → Prop}
    (h : Leads aim x x' s s' R)
    (hf : ∀ a a' p p', R p p' a a' → S p p' (f a) (f' a')) :
    Leads aim (f <$> x) (f' <$> x') s s' S := by
  rw [map_eq_pure_bind, map_eq_pure_bind]
  exact h.bind fun a a' t t' ht ha => .pure ht.alike (hf a a' _ _ ha)

/-- The second parser goes on where the first has its result. -/
theorem Leads.then_right {f' : α' → Parser β'} {S : Program → Program → α → β' → Prop}
    (h : Leads aim x x' s s' R)
    (hf : ∀ a a' t t', Onward aim s.built s'.built t.built t'.built → R t.program t'.program a a' →
      Leads aim (Pure.pure a) (f' a') t t' S) :
    Leads aim x (x' >>= f') s s' S := by
  rw [← bind_pure x]
  exact h.bind hf

theorem Leads.here {f : Location → Parser β} {f' : Location → Parser β'}
    {S : Program → Program → β → β' → Prop}
    (h : ∀ loc loc', Leads aim (f loc) (f' loc') s s' S) :
    Leads aim (here >>= f) (here >>= f') s s' S := h _ _

/-- The second parser may ask for its place alone. -/
theorem Leads.here_right {f' : Location → Parser β'} {S : Program → Program → α → β' → Prop}
    (h : ∀ loc', Leads aim x (f' loc') s s' S) : Leads aim x (Parser.here >>= f') s s' S := h _

theorem Leads.advance {f : Unit → Parser β} {f' : Unit → Parser β'}
    {S : Program → Program → β → β' → Prop}
    (h : Leads aim (f ()) (f' ()) { s with rest := s.rest.tail }
      { s' with rest := s'.rest.tail } S) :
    Leads aim (advance >>= f) (advance >>= f') s s' S := h

/-- The second parser may skip a parenthesis alone. -/
theorem Leads.advance_right {f' : Unit → Parser β'} {S : Program → Program → α → β' → Prop}
    (h : Leads aim x (f' ()) s { s' with rest := s'.rest.tail } S) :
    Leads aim x (Parser.advance >>= f') s s' S := h

theorem leads_skip (n : Nat) (hs : BuiltAlike aim s.built s'.built) :
    Leads aim (Written.skip n) (Written.skip n) s s' fun _ _ _ _ => True := by
  induction n generalizing s s' with
  | zero => exact .pure hs trivial
  | succ n ih => exact .advance (ih hs)

theorem Leads.get {f : ParserState → Parser β} {f' : ParserState → Parser β'}
    {S : Program → Program → β → β' → Prop} (h : Leads aim (f s) (f' s') s s' S) :
    Leads aim (get >>= f) (get >>= f') s s' S := h

theorem Leads.declOf {d : DeclId} {f : Decl → Parser β} {f' : Decl → Parser β'}
    {S : Program → Program → β → β' → Prop}
    (h : Leads aim (f (s.program.decl d)) (f' (s'.program.decl d)) s s' S) :
    Leads aim (declOf d >>= f) (declOf d >>= f') s s' S := h

theorem Leads.typeOf {e e' : ExprId} {f : CType → Parser β} {f' : CType → Parser β'}
    {S : Program → Program → β → β' → Prop}
    (h : Leads aim (f (s.program.expr e).type) (f' (s'.program.expr e').type) s s' S) :
    Leads aim (typeOf e >>= f) (typeOf e' >>= f') s s' S := h

/-- Where the first parser fails, nothing is asked of the second. -/
theorem leads_fail {fault fault' : ParseFault} {loc loc' : Location} :
    Leads aim (fail fault loc : Parser α) (fail fault' loc' : Parser α') s s' R := trivial

/-- The second parser may look at a type alone, as it does for a pair of parentheses. -/
theorem Leads.typeOf_right {e' : ExprId} {f' : CType → Parser β'}
    {S : Program → Program → α → β' → Prop}
    (h : Leads aim x (f' (s'.program.expr e').type) s s' S) :
    Leads aim x (Parser.typeOf e' >>= f') s s' S := h

/-- The parsers go on if a condition holds. -/
theorem Leads.unless {b b' : Bool} {fault fault' : ParseFault} {loc loc' : Location}
    {f : Parser β} {f' : Parser β'}
    {S : Program → Program → β → β' → Prop} (hb : b = b') (h : b = true → Leads aim f f' s s' S) :
    Leads aim (do
      unless b do fail fault loc
      f) (do
      unless b' do fail fault' loc'
      f') s s' S := by
  subst hb
  cases b with
  | true => exact h rfl
  | false => exact trivial

/-! ## Adding nodes -/

/-- Names in scope stay sensible while declarations are kept and functions do not come to return
arrays. -/
theorem Sensible.of_keepsDecls {b : Built} {q : Program} (h : Sensible b)
    (hq : Written.KeepsDecls b.program q)
    (hresults : ∀ {d}, (q.decl d).isFunction = true → (q.decl d).type.result.isArray = false) :
    Sensible ⟨q, b.scopes⟩ where
  names hmem := by
    obtain ⟨hlt, hname⟩ := h.names hmem
    exact ⟨Nat.lt_of_lt_of_le hlt hq.size, (hq.name hlt).trans hname⟩
  results := hresults

/-- Expressions that are alike may be added to both programs. -/
theorem leads_addExpr {c : Demand} {kind kind' : ExprKind} {type type' : CType}
    {loc loc' : Location} (hs : BuiltAlike aim s.built s'.built) (htype : type' = type)
    (hkind : KindAlike (ExprAlike s.program s'.program) c type kind kind') :
    Leads aim (addExpr kind type loc) (addExpr kind' type' loc') s s' fun p p' e e' =>
      NodeAlike (ExprAlike p p') p p' c e e' ∧ p.expr e = ⟨kind, type, loc⟩ := by
  subst htype
  have hleft := keeps_pushExpr s.program ⟨kind, type', loc⟩
  have hright := keeps_pushExpr s'.program ⟨kind', type', loc'⟩
  have hself := Program.expr_pushExpr_self s.program ⟨kind, type', loc⟩
  have hself' := Program.expr_pushExpr_self s'.program ⟨kind', type', loc'⟩
  have hsensible : Sensible ⟨(s.program.pushExpr ⟨kind, type', loc⟩).1, s.scopes⟩ :=
    ⟨hs.sensible.names, hs.sensible.results⟩
  have hnode : NodeAlike
      (ExprAlike (s.program.pushExpr ⟨kind, type', loc⟩).1
        (s'.program.pushExpr ⟨kind', type', loc'⟩).1)
      (s.program.pushExpr ⟨kind, type', loc⟩).1 (s'.program.pushExpr ⟨kind', type', loc'⟩).1 c
      (s.program.pushExpr ⟨kind, type', loc⟩).2 (s'.program.pushExpr ⟨kind', type', loc'⟩).2 := by
    refine ⟨by simp [Program.pushExpr], by simp [Program.pushExpr], by rw [hself, hself'], ?_⟩
    rw [hself, hself']
    exact hkind.mono fun _ _ _ h => h.keeps hleft hright
  exact ⟨⟨⟨hs.program.pushExpr _ _, hs.scopes, hsensible⟩, hleft, hright⟩, hnode, hself⟩

/-- Statements that are alike get the same id. -/
theorem leads_addStmt {kind kind' : StmtKind} {loc loc' : Location}
    (hs : BuiltAlike aim s.built s'.built) (hkind : StmtAlike aim s.program s'.program kind kind') :
    Leads aim (addStmt kind loc) (addStmt kind' loc') s s' fun _ _ id id' => id' = id := by
  have hsensible : Sensible ⟨(s.program.pushStmt ⟨kind, loc⟩).1, s.scopes⟩ :=
    ⟨hs.sensible.names, hs.sensible.results⟩
  exact ⟨⟨⟨hs.program.pushStmt hkind, hs.scopes, hsensible⟩, keeps_pushStmt _ _,
    keeps_pushStmt _ _⟩, hs.program.pushStmt_id ⟨kind, loc⟩ ⟨kind', loc'⟩⟩

/-- Declarations that are alike get the same id. -/
theorem leads_addDecl {x : String} {kind kind' : DeclKind} {loc loc' : Location}
    (hs : BuiltAlike aim s.built s'.built) (hkind : DeclAlike aim s.program s'.program kind kind')
    (hresult : (Decl.mk x kind loc).isFunction = true →
      (Decl.mk x kind loc).type.result.isArray = false) :
    Leads aim (addDecl x kind loc) (addDecl x kind' loc') s s' fun p _ d d' =>
      d' = d ∧ d.index < p.decls.size ∧ p.decl d = ⟨x, kind, loc⟩ := by
  have hself := Program.decl_pushDecl_self s.program ⟨x, kind, loc⟩
  have hkeeps := keeps_pushDecl s.program ⟨x, kind, loc⟩
  have hsensible : Sensible ⟨(s.program.pushDecl ⟨x, kind, loc⟩).1, s.scopes⟩ := by
    refine hs.sensible.of_keepsDecls hkeeps.toKeepsDecls fun {d} hd => ?_
    by_cases hid : d = (s.program.pushDecl ⟨x, kind, loc⟩).2
    · rw [hid, hself] at hd ⊢
      exact hresult hd
    · rw [Program.decl_pushDecl_of_ne s.program _ hid] at hd ⊢
      exact hs.sensible.results hd
  exact ⟨⟨⟨hs.program.pushDecl rfl hkind, hs.scopes, hsensible⟩, hkeeps, keeps_pushDecl _ _⟩,
    hs.program.pushDecl_id ⟨x, kind, loc⟩ ⟨x, kind', loc'⟩, Program.index_pushDecl_lt _ _, hself⟩

theorem leads_addItem (item : Item) (hs : BuiltAlike aim s.built s'.built) :
    Leads aim (addItem item) (addItem item) s s' fun _ _ _ _ => True := by
  have hsensible : Sensible ⟨s.program.pushItem item, s.scopes⟩ :=
    ⟨hs.sensible.names, hs.sensible.results⟩
  exact ⟨⟨⟨hs.program.pushItem item, hs.scopes, hsensible⟩, keeps_pushItem _ _, keeps_pushItem _ _⟩,
    trivial⟩

/-- A declaration may be changed on both sides if it stays alike. -/
theorem leads_modifyDecl {d : DeclId} {f f' : Decl → Decl} (hs : BuiltAlike aim s.built s'.built)
    (hleft : Keeps s.program (s.program.modifyDecl d f))
    (hright : Keeps s'.program (s'.program.modifyDecl d f'))
    (hkind : DeclAlike aim s.program s'.program (f (s.program.decl d)).kind
      (f' (s'.program.decl d)).kind) :
    Leads aim (modifyDecl d f) (modifyDecl d f') s s' fun _ _ _ _ => True := by
  have hsensible : Sensible ⟨s.program.modifyDecl d f, s.scopes⟩ := by
    refine hs.sensible.of_keepsDecls hleft.toKeepsDecls fun {id} hid => ?_
    have hlt : id.index < s.program.decls.size := by
      have hlt := Program.lt_size_of_isFunction hid
      rwa [Program.size_modifyDecl] at hlt
    rw [hleft.isFunction hlt] at hid
    rw [hleft.type hlt]
    exact hs.sensible.results hid
  exact ⟨⟨⟨hs.program.modifyDecl hleft hright hkind, hs.scopes, hsensible⟩, hleft, hright⟩, trivial⟩

/-! ## Names -/

/-- A name means the same declaration on both sides. -/
theorem leads_resolve {x : String} {loc loc' : Location} (hs : BuiltAlike aim s.built s'.built) :
    Leads aim (resolve x loc) (resolve x loc') s s' fun p _ d d' =>
      d' = d ∧ d.index < p.decls.size ∧ (p.decl d).name = x := by
  unfold resolve
  refine .get ?_
  have hscopes : s'.scopes = s.scopes := hs.scopes
  rw [hscopes]
  cases hx : s.scopes.resolve? x with
  | none => exact leads_fail
  | some d => exact .pure hs ⟨rfl, hs.sensible.names (Scopes.mem_entries_of_resolve? hx)⟩

/-- A name is declared on both sides, or on none. -/
theorem leads_declare {x : String} {d : DeclId} {loc loc' : Location}
    (hs : BuiltAlike aim s.built s'.built)
    (hd : d.index < s.program.decls.size ∧ (s.program.decl d).name = x) :
    Leads aim (declare x d loc) (declare x d loc') s s' fun _ _ _ _ => True := by
  unfold declare
  refine .get ?_
  have hscopes : s'.scopes = s.scopes := hs.scopes
  rw [hscopes]
  split
  · exact leads_fail
  · have hsensible : Sensible ⟨s.program, s.scopes.declare x d⟩ := by
      refine ⟨fun hmem => ?_, hs.sensible.results⟩
      rcases Scopes.mem_entries_declare hmem with heq | hmem
      · cases heq
        exact hd
      · exact hs.sensible.names hmem
    exact ⟨⟨⟨hs.program, congrArg (·.declare x d) hscopes, hsensible⟩, .refl _, .refl _⟩, trivial⟩

theorem leads_declareInFile {x : String} {d : DeclId} (hs : BuiltAlike aim s.built s'.built)
    (hd : d.index < s.program.decls.size ∧ (s.program.decl d).name = x) :
    Leads aim (declareInFile x d) (declareInFile x d) s s' fun _ _ _ _ => True := by
  have hsensible : Sensible ⟨s.program, s.scopes.declareInFile x d⟩ := by
    refine ⟨fun hmem => ?_, hs.sensible.results⟩
    rcases Scopes.mem_entries_declareInFile hmem with heq | hmem
    · cases heq
      exact hd
    · exact hs.sensible.names hmem
  exact ⟨⟨⟨hs.program, congrArg (·.declareInFile x d) hs.scopes, hsensible⟩, .refl _, .refl _⟩,
    trivial⟩

/-- Scopes are entered and left on both sides. -/
theorem InStep.inScope (hx : InStep aim R x x') : InStep aim R (inScope x) (inScope x') := by
  intro s s' hs
  have henter : BuiltAlike aim (ParserState.built { s with scopes := s.scopes.enter })
      (ParserState.built { s' with scopes := s'.scopes.enter }) :=
    ⟨hs.program, congrArg Scopes.enter hs.scopes, hs.sensible.names, hs.sensible.results⟩
  refine Leads.bind (R := fun _ _ _ _ => True) ⟨⟨henter, .refl _, .refl _⟩, trivial⟩
    fun _ _ t t' ht _ => ?_
  refine (hx _ _ ht.alike).bind fun a a' u u' hu ha => ?_
  have hleave : BuiltAlike aim (ParserState.built { u with scopes := u.scopes.leave })
      (ParserState.built { u' with scopes := u'.scopes.leave }) :=
    ⟨hu.alike.program, congrArg Scopes.leave hu.alike.scopes,
      fun hmem => hu.alike.sensible.names (Scopes.mem_entries_leave hmem),
        hu.alike.sensible.results⟩
  exact ⟨⟨hleave, .refl _, .refl _⟩, ha⟩

end Parenthesised

end MiniC
