import MiniC.Proofs.LexicalScope
import MiniC.Proofs.WellFormed

/-!
# Tables of names

While a program is built, the parser keeps a table of names for every open scope. `Written.Tracks`
relates them to the names in the text so far: the table of a scope has just the names that are
declared there, with the ids of their declarations, and what an expression names is what its name
means. A name that cannot mean anything, or cannot be declared, is `Written.Faulty`.
-/

set_option autoImplicit false

namespace MiniC

/-- What an expression mentions, and how. -/
def ExprKind.mention? : ExprKind → Option (Written.Role × DeclId)
  | .declRef d => some (.reference, d)
  | .call callee _ => some (.call, callee)
  | _ => none

/-- Expressions use names, and declare none. -/
theorem ExprKind.declares_of_mention? {kind : ExprKind} {role : Written.Role} {d : DeclId}
    (h : kind.mention? = some (role, d)) : role.declares = false := by
  unfold mention? at h
  split at h <;> first | cases h; rfl | cases h

namespace Written

/-! ## Growing texts -/

/-- More of a text: names that are used have all names before them already. -/
structure Grows (marks marks' : List Mark) : Prop where
  subset : ∀ m ∈ marks, m ∈ marks'
  before : ∀ use ∈ marks, use.role.declares = false → ∀ m ∈ marks', m.pos < use.pos → m ∈ marks

variable {marks marks' new : List Mark}

/-- A text may go on with names that come after those that are used. -/
theorem Grows.append (h : ∀ use ∈ marks, use.role.declares = false → ∀ m ∈ new, use.pos ≤ m.pos) :
    Grows marks (marks ++ new) where
  subset m hm := List.mem_append_left _ hm
  before use huse hrole m hm hlt := by
    rcases List.mem_append.1 hm with hm | hm
    · exact hm
    · exact absurd (h use huse hrole m hm) (Nat.not_le.2 hlt)

/-- What a name means depends on the names before it only. -/
theorem visible_congr {decl use : Mark}
    (h : ∀ m : Mark, m.pos < use.pos → (m ∈ marks ↔ m ∈ marks')) :
    Visible marks decl use ↔ Visible marks' decl use := by
  constructor
  · rintro ⟨hmem, hdecl, hname, hbefore, hencloses, hinner⟩
    refine ⟨(h decl hbefore).1 hmem, hdecl, hname, hbefore,
      hencloses, fun other hother hd hn hlt => ?_⟩
    exact hinner other ((h other hlt).2 hother) hd hn hlt
  · rintro ⟨hmem, hdecl, hname, hbefore, hencloses, hinner⟩
    refine ⟨(h decl hbefore).2 hmem, hdecl, hname, hbefore,
      hencloses, fun other hother hd hn hlt => ?_⟩
    exact hinner other ((h other hlt).1 hother) hd hn hlt

/-- What a name means does not depend on what comes after it. -/
theorem Grows.visible_iff (h : Grows marks marks') {decl use : Mark} (huse : use ∈ marks)
    (hrole : use.role.declares = false) : Visible marks decl use ↔ Visible marks' decl use :=
  visible_congr fun m hm => ⟨h.subset m, fun hmem => h.before use huse hrole m hmem hm⟩

/-! ## Faults -/

/-- A name cannot do what it does in the text. -/
inductive Faulty (marks : List Mark) (m : Mark) : ParseFault → Prop
  | undeclared : m.role.declares = false → (∀ decl, ¬ Visible marks decl m) →
    Faulty marks m (.undeclared m.name)
  | notAFunction (decl : Mark) : m.role = .call → Visible marks decl m →
    decl.role.isFunction = false →
      Faulty marks m (.notAFunction m.name)
  | redefinition (other : Mark) : m.role = .variable → other ∈ marks → other.role.declares = true →
      other.scope = m.scope → other.name = m.name → other ≠ m →
        Faulty marks m (.redefinition m.name)
  | differentKind (other : Mark) :
    m.role.isFunction = true → other ∈ marks → other.role = .variable →
      other.scope = m.scope → other.name = m.name → Faulty marks m (.differentKind m.name)
  | functionRedefinition (other : Mark) :
    m.role = .definition → other ∈ marks → other.role = .definition →
      other.name = m.name → other ≠ m → Faulty marks m (.functionRedefinition m.name)

/-- A name that is faulty stays so, however the text goes on. -/
theorem Faulty.grows {m : Mark} {fault : ParseFault} (h : Faulty marks m fault) (hm : m ∈ marks)
    (hgrows : Grows marks marks') : Faulty marks' m fault := by
  cases h with
  | undeclared hrole hnone =>
    exact .undeclared hrole fun decl h => hnone decl ((hgrows.visible_iff hm hrole).2 h)
  | notAFunction decl hrole hdecl hkind =>
    exact .notAFunction decl hrole ((hgrows.visible_iff hm (by rw [hrole]; rfl)).1 hdecl) hkind
  | redefinition other hrole hother hdecl hscope hname hne =>
    exact .redefinition other hrole (hgrows.subset _ hother) hdecl hscope hname hne
  | differentKind other hrole hother hkind hscope hname =>
    exact .differentKind other hrole (hgrows.subset _ hother) hkind hscope hname
  | functionRedefinition other hrole hother hkind hname hne =>
    exact .functionRedefinition other hrole (hgrows.subset _ hother) hkind hname hne

/-- No scope declares a name twice, except for functions. -/
def Single (marks : List Mark) : Prop :=
  ∀ m ∈ marks, ∀ m' ∈ marks, m.role.declares = true → m'.role.declares = true → m.scope = m'.scope →
    m.name = m'.name → m = m' ∨ m.role.isFunction = true ∧ m'.role.isFunction = true

instance (marks : List Mark) : Decidable (Single marks) :=
  inferInstanceAs (Decidable (∀ m ∈ marks, ∀ m' ∈ marks, _))

/-! ## Tables -/

variable {ident ident' : Mark → DeclId} {σ : List Nat} {table file : Scope} {tables : List Scope}

/-- A table has the names that are declared in a scope. -/
structure Table (ident : Mark → DeclId) (marks : List Mark) (σ : List Nat)
    (table : Scope) : Prop where
  mark : ∀ {x d}, table.lookup x = some d →
    ∃ m ∈ marks, m.role.declares = true ∧ m.scope = σ ∧ m.name = x ∧ ident m = d
  lookup : ∀ {m}, m ∈ marks → m.role.declares = true → m.scope = σ →
    table.lookup m.name = some (ident m)

namespace Table

/-- Names of other scopes do not matter. -/
theorem mono (h : Table ident marks σ table) (hident : ∀ m ∈ marks, ident' m = ident m)
    (hsub : ∀ m ∈ marks, m ∈ marks')
    (hnew : ∀ m ∈ marks', m.role.declares = true → m.scope = σ → m ∈ marks) :
    Table ident' marks' σ table where
  mark hx := by
    obtain ⟨m, hm, hdecl, hscope, hname, rfl⟩ := h.mark hx
    exact ⟨m, hsub m hm, hdecl, hscope, hname, hident m hm⟩
  lookup hm hdecl hscope := by
    have hold := hnew _ hm hdecl hscope
    rw [hident _ hold]
    exact h.lookup hold hdecl hscope

/-- A name that was declared before in the same scope, with the same id. -/
theorem again {m : Mark} (h : Table ident marks σ table) (hident : ∀ m ∈ marks, ident' m = ident m)
    (hm : table.lookup m.name = some (ident' m)) : Table ident' (marks ++ [m]) σ table where
  mark hx := by
    obtain ⟨m', hm', hdecl, hscope, hname, rfl⟩ := h.mark hx
    exact ⟨m', List.mem_append_left _ hm', hdecl, hscope, hname, hident m' hm'⟩
  lookup {m'} hm' hdecl hscope := by
    rcases List.mem_append.1 hm' with hold | hnew
    · rw [hident _ hold]
      exact h.lookup hold hdecl hscope
    · rw [List.mem_singleton] at hnew
      rw [hnew]
      exact hm

/-- A name that was not declared before in the scope. -/
theorem add {m : Mark} (h : Table ident marks σ table) (hident : ∀ m ∈ marks, ident' m = ident m)
    (hdecl : m.role.declares = true) (hscope : m.scope = σ) (hnone : table.lookup m.name = none) :
    Table ident' (marks ++ [m]) σ ((m.name, ident' m) :: table) where
  mark {x d} hx := by
    rw [List.lookup_cons] at hx
    split at hx
    · next heq =>
      cases hx
      exact ⟨m, by simp, hdecl, hscope, (beq_iff_eq.1 heq).symm, rfl⟩
    · obtain ⟨m', hm', hdecl', hscope', hname, rfl⟩ := h.mark hx
      exact ⟨m', List.mem_append_left _ hm', hdecl', hscope', hname, hident m' hm'⟩
  lookup {m'} hm' hdecl' hscope' := by
    rw [List.lookup_cons]
    rcases List.mem_append.1 hm' with hold | hnew
    · have hlookup := h.lookup hold hdecl' hscope'
      have hne : (m'.name == m.name) = false := by
        rw [beq_eq_false_iff_ne]
        intro heq
        rw [heq, hnone] at hlookup
        cases hlookup
      rw [hne, hident _ hold]
      exact hlookup
    · rw [List.mem_singleton] at hnew
      rw [hnew, beq_self_eq_true]

/-- The table of a scope that opens here. -/
theorem nil (h : ∀ m ∈ marks, m.scope ≠ σ) : Table ident marks σ [] where
  mark hx := by cases hx
  lookup hm _ hscope := absurd hscope (h _ hm)

end Table

/-- The tables of the open scopes inside the file. -/
def Open (ident : Mark → DeclId) (marks : List Mark) : List Nat → List Scope → Prop
  | [], [] => True
  | i :: σ, table :: tables => Table ident marks (i :: σ) table ∧ Open ident marks σ tables
  | [], _ :: _ | _ :: _, [] => False

/-- Tables of open scopes stay while no name is declared in them. -/
theorem Open.mono (h : Open ident marks σ tables) (hident : ∀ m ∈ marks, ident' m = ident m)
    (hsub : ∀ m ∈ marks, m ∈ marks')
    (hnew : ∀ m ∈ marks', m.role.declares = true → m.scope ≠ [] → m.scope <:+ σ → m ∈ marks) :
    Open ident' marks' σ tables := by
  induction σ generalizing tables with
  | nil =>
    cases tables with
    | nil => trivial
    | cons table tables => exact h
  | cons i σ ih =>
    cases tables with
    | nil => exact h
    | cons table tables =>
      constructor
      · refine h.1.mono hident hsub fun m hm hdecl hscope => hnew m hm hdecl ?_ ?_
        · rw [hscope]
          exact List.cons_ne_nil _ _
        · exact hscope ▸ List.suffix_refl _
      · refine ih h.2 fun m hm hdecl hne hsuffix => hnew m hm hdecl hne ?_
        exact hsuffix.trans (List.suffix_cons i σ)

/-- Looking a name up from the innermost table on finds what is visible. -/
theorem Open.visible {use : Mark} (h : Open ident marks use.scope tables)
    (hfile : Table ident marks [] file) (hbefore : ∀ m ∈ marks, m.pos < use.pos) :
    match (tables ++ [file]).findSome? (List.lookup use.name) with
    | some d => ∃ decl, Visible marks decl use ∧ ident decl = d
    | none => ∀ decl, ¬ Visible marks decl use := by
  obtain ⟨⟨pos, σ⟩, x, role⟩ := use
  dsimp only at h hbefore ⊢
  induction tables generalizing σ with
  | nil =>
    cases σ with
    | cons i σ => exact absurd h id
    | nil =>
      rw [List.nil_append, List.findSome?_cons, List.findSome?_nil]
      cases hlookup : file.lookup x with
      | some d =>
        obtain ⟨decl, hmem, hdecl, hscope, hname, hd⟩ := hfile.mark hlookup
        refine ⟨decl, ⟨hmem, hdecl, hname, hbefore decl hmem, ?_, fun other _ _ _ _ hother => ?_⟩,
          hd⟩
        · exact hscope ▸ List.suffix_refl _
        · rw [hscope]
          exact hother
      | none =>
        rintro decl hv
        have hfound := hfile.lookup hv.mem hv.declares (List.suffix_nil.1 hv.encloses)
        have hname : decl.name = x := hv.name
        rw [hname, hlookup] at hfound
        cases hfound
  | cons table tables ih =>
    cases σ with
    | nil => exact absurd h id
    | cons i σ =>
      rw [List.cons_append, List.findSome?_cons]
      cases hlookup : table.lookup x with
      | some d =>
        obtain ⟨decl, hmem, hdecl, hscope, hname, hd⟩ := h.1.mark hlookup
        refine ⟨decl, ⟨hmem, hdecl, hname, hbefore decl hmem, ?_, fun other _ _ _ _ hother => ?_⟩,
          hd⟩
        · exact hscope ▸ List.suffix_refl _
        · rw [hscope]
          exact hother
      | none =>
        -- the innermost scope does not have the name, so the scopes around it decide
        have houter {m : Mark} (hm : m ∈ marks) (hdecl : m.role.declares = true)
          (hname : m.name = x)
            (hsuffix : m.scope <:+ i :: σ) : m.scope <:+ σ := by
          rcases List.suffix_cons_iff.1 hsuffix with heq | hsuffix
          · have hfound := h.1.lookup hm hdecl heq
            rw [hname, hlookup] at hfound
            cases hfound
          · exact hsuffix
        have hrest := ih σ h.2
        dsimp only at hrest ⊢
        split at hrest
        · next d hd =>
          rw [hd]
          obtain ⟨decl, hv, hident⟩ := hrest
          refine ⟨decl, { hv with
            encloses := hv.encloses.trans (List.suffix_cons i σ)
            innermost := fun other hother hdecl hname hlt hsuffix => ?_ }, hident⟩
          exact hv.innermost other hother hdecl hname hlt (houter hother hdecl hname hsuffix)
        · next hd =>
          rw [hd]
          intro decl hv
          refine hrest decl { hv with
            encloses := houter hv.mem hv.declares hv.name hv.encloses
            innermost := fun other hother hdecl hname hlt hsuffix => ?_ }
          exact hv.innermost other hother hdecl hname hlt (hsuffix.trans (List.suffix_cons i σ))

/-! ## Declarations of the program -/

/-- The place of a token; after the last one, the place where the file ends. -/
def place (stream : TokenStream) (pos : Nat) : Location :=
  (stream.tokens[pos]?.map Token.loc).getD stream.endLoc

/-- The program has a declaration for a name that declares something. A function lies at the place
of its definition. -/
structure Denotes (stream : TokenStream) (p : Program) (m : Mark) (d : DeclId) : Prop where
  lt : d.index < p.decls.size
  name : (p.decl d).name = m.name
  isFunction : (p.decl d).isFunction = m.role.isFunction
  loc : m.role.isFunction = false → (p.decl d).loc = place stream m.pos

/-- Declarations keep their names and kinds, and variables their places. -/
structure KeepsDecls (p q : Program) : Prop where
  size : p.decls.size ≤ q.decls.size
  name : ∀ {d}, d.index < p.decls.size → (q.decl d).name = (p.decl d).name
  isFunction : ∀ {d}, d.index < p.decls.size → (q.decl d).isFunction = (p.decl d).isFunction
  loc : ∀ {d}, d.index < p.decls.size → (p.decl d).isFunction = false →
    (q.decl d).loc = (p.decl d).loc

variable {stream : TokenStream} {p q : Program}

/-- What a declaration stands for stays when others are added. -/
theorem Denotes.keeps {m : Mark} {d : DeclId} (h : Denotes stream p m d) (hq : KeepsDecls p q) :
    Denotes stream q m d where
  lt := Nat.lt_of_lt_of_le h.lt hq.size
  name := by rw [hq.name h.lt, h.name]
  isFunction := by rw [hq.isFunction h.lt, h.isFunction]
  loc hm := by rw [hq.loc h.lt (h.isFunction.trans hm), h.loc hm]

/-- Only declarations are looked at. -/
theorem keepsDecls_of_eq (h : q.decls = p.decls) : KeepsDecls p q where
  size := Nat.le_of_eq (by rw [h])
  name _ := by rw [Program.decl, Program.decl, h]
  isFunction _ := by rw [Program.decl, Program.decl, h]
  loc _ _ := by rw [Program.decl, Program.decl, h]

/-- A new declaration leaves the others. -/
theorem keepsDecls_pushDecl (p : Program) (d : Decl) : KeepsDecls p (p.pushDecl d).1 := by
  have hsame {id : DeclId} (h : id.index < p.decls.size) : (p.pushDecl d).1.decl id = p.decl id :=
    Program.decl_pushDecl_of_lt p d h
  exact {
    size := by simp [Program.pushDecl]
    name := fun h => by rw [hsame h]
    isFunction := fun h => by rw [hsame h]
    loc := fun h _ => by rw [hsame h] }

/-- A declaration may be changed if its name, its kind and the place of a variable stay. -/
theorem keepsDecls_modifyDecl (p : Program) {d : DeclId} {f : Decl → Decl}
    (hname : (f (p.decl d)).name = (p.decl d).name)
    (hkind : (f (p.decl d)).isFunction = (p.decl d).isFunction)
    (hloc : (p.decl d).isFunction = false → (f (p.decl d)).loc = (p.decl d).loc) :
    KeepsDecls p (p.modifyDecl d f) where
  size := Nat.le_of_eq (Program.size_modifyDecl p d f).symm
  name {id} h := by
    by_cases heq : id = d
    · subst heq
      rw [Program.decl_modifyDecl_self p f h, hname]
    · rw [Program.decl_modifyDecl_of_ne p f heq]
  isFunction {id} h := by
    by_cases heq : id = d
    · subst heq
      rw [Program.decl_modifyDecl_self p f h, hkind]
    · rw [Program.decl_modifyDecl_of_ne p f heq]
  loc {id} h hid := by
    by_cases heq : id = d
    · subst heq
      rw [Program.decl_modifyDecl_self p f h, hloc hid]
    · rw [Program.decl_modifyDecl_of_ne p f heq]

/-- The expression at a place uses a name there, and names the declaration that the name means. -/
def Named (stream : TokenStream) (ident : Mark → DeclId) (marks : List Mark)
    (loc : Location) (role : Role) (d : DeclId) : Prop :=
  ∃ use ∈ marks, use.role = role ∧ loc = place stream use.pos ∧
    ∃ decl, Visible marks decl use ∧ ident decl = d

/-- What a name means in the program stays, however the text goes on. -/
theorem Named.grows {loc : Location} {role : Role} {d : DeclId}
    (h : Named stream ident marks loc role d)
    (hrole : role.declares = false) (hgrows : Grows marks marks')
    (hident : ∀ m ∈ marks, ident' m = ident m) :
    Named stream ident' marks' loc role d := by
  obtain ⟨use, huse, rfl, hloc, decl, hdecl, hd⟩ := h
  refine ⟨use, hgrows.subset use huse, rfl, hloc, decl, (hgrows.visible_iff huse hrole).1 hdecl, ?_⟩
  rw [hident decl hdecl.mem, hd]

/-! ## Programs under construction -/

/-- What is built is what the names in the text so far, up to a position, stand for. -/
structure Tracks (stream : TokenStream) (ident : Mark → DeclId) (marks : List Mark) (spot : Spot)
    (s : ParserState) : Prop where
  rest : s.rest = stream.tokens.drop spot.pos
  endLoc : s.endLoc = stream.endLoc
  opened : ∀ i ∈ spot.scope, i ≤ spot.pos
  before : ∀ m ∈ marks, m.pos < spot.pos ∧ ∀ i ∈ m.scope, i ≤ m.pos
  functions : ∀ m ∈ marks, m.role.isFunction = true → m.scope = []
  inner : Open ident marks spot.scope s.scopes.inner
  file : Table ident marks [] s.scopes.file
  single : Single marks
  denotes : ∀ m ∈ marks, m.role.declares = true → Denotes stream s.program m (ident m)
  mentions : ∀ e : ExprId, e.index < s.program.exprs.size → ∀ role d,
    (s.program.expr e).kind.mention? = some (role, d) →
      Named stream ident marks (s.program.expr e).loc role d
  uses : ∀ m ∈ marks, m.role.declares = false → ∃ decl, Visible marks decl m
  bodies : ∀ d : DeclId, (s.program.decl d).hasBody = true →
    ∃ m ∈ marks, m.role = .definition ∧ m.name = (s.program.decl d).name

namespace Tracks

variable {spot : Spot} {s : ParserState}

/-- The place that the parser sees is that of the position. -/
theorem here (h : Tracks stream ident marks spot s) :
    (s.rest.head?.map Token.loc).getD s.endLoc = place stream spot.pos := by
  rw [h.rest, h.endLoc, List.head?_drop]
  rfl

/-- A token that is taken moves the position on. -/
theorem token (h : Tracks stream ident marks spot s) :
    Tracks stream ident marks ⟨spot.pos + 1, spot.scope⟩ { s with rest := s.rest.tail } :=
  { h with
    rest := by rw [h.rest, List.tail_drop]
    opened := fun i hi => Nat.le_succ_of_le (h.opened i hi)
    before := fun m hm => ⟨Nat.lt_succ_of_lt (h.before m hm).1, (h.before m hm).2⟩ }

/-- A scope begins with an empty table. -/
theorem enter (h : Tracks stream ident marks spot s) :
    Tracks stream ident marks (spot.step .enter) { s with scopes := s.scopes.enter } :=
  { h with
    opened := List.forall_mem_cons.2 ⟨Nat.le_refl _, h.opened⟩
    inner := by
      refine ⟨.nil fun m hm hscope => ?_, h.inner⟩
      have hle := (h.before m hm).2 spot.pos (by rw [hscope]; exact List.mem_cons_self)
      exact Nat.not_lt.2 hle (h.before m hm).1 }

/-- The table of a scope is dropped with it. -/
theorem leave (h : Tracks stream ident marks spot s) :
    Tracks stream ident marks (spot.step .leave) { s with scopes := s.scopes.leave } :=
  { h with
    opened := fun i hi => h.opened i (List.mem_of_mem_tail hi)
    inner := by
      have hinner := h.inner
      change Open ident marks spot.scope.tail s.scopes.inner.tail
      revert hinner
      cases spot.scope with
      | nil =>
        cases s.scopes.inner with
        | nil => exact id
        | cons _ _ => exact False.elim
      | cons i σ =>
        cases s.scopes.inner with
        | nil => exact False.elim
        | cons table tables => exact And.right }

/-- The order of the names does not matter. -/
theorem of_mem (h : Tracks stream ident marks spot s) (hmem : ∀ m, m ∈ marks ↔ m ∈ marks') :
    Tracks stream ident marks' spot s := by
  have hgrows : Grows marks marks' := ⟨fun m => (hmem m).1, fun _ _ _ m hm _ => (hmem m).2 hm⟩
  exact { h with
    before := fun m hm => h.before m ((hmem m).2 hm)
    functions := fun m hm => h.functions m ((hmem m).2 hm)
    inner := h.inner.mono (fun _ _ => rfl) hgrows.subset fun m hm _ _ _ => (hmem m).2 hm
    file := h.file.mono (fun _ _ => rfl) hgrows.subset fun m hm _ _ => (hmem m).2 hm
    single := fun m hm m' hm' => h.single m ((hmem m).2 hm) m' ((hmem m').2 hm')
    denotes := fun m hm => h.denotes m ((hmem m).2 hm)
    mentions := fun e he role d hd =>
      (h.mentions e he role d hd).grows (ExprKind.declares_of_mention? hd) hgrows fun _ _ => rfl
    uses := fun m hm hrole => by
      obtain ⟨decl, hdecl⟩ := h.uses m ((hmem m).2 hm) hrole
      exact ⟨decl, (hgrows.visible_iff ((hmem m).2 hm) hrole).1 hdecl⟩
    bodies := fun d hd => by
      obtain ⟨m, hm, hrole⟩ := h.bodies d hd
      exact ⟨m, (hmem m).1 hm, hrole⟩ }

/-- Changes that names do not see. -/
theorem of_program (h : Tracks stream ident marks spot s) {p : Program}
    (hp : KeepsDecls s.program p) (hexprs : p.exprs = s.program.exprs)
    (hbodies : ∀ d : DeclId, (p.decl d).hasBody = true →
      ∃ m ∈ marks, m.role = .definition ∧ m.name = (p.decl d).name) :
    Tracks stream ident marks spot { s with program := p } :=
  { h with
    denotes := fun m hm hrole => (h.denotes m hm hrole).keeps hp
    mentions := fun e he role d hd => by
      rw [hexprs] at he
      simp only [Program.expr, hexprs] at hd ⊢
      exact h.mentions e he role d hd
    bodies := hbodies }

/-- Statements mention no names themselves. -/
theorem addStmt (h : Tracks stream ident marks spot s) (node : MiniC.Stmt) :
    Tracks stream ident marks spot { s with program := (s.program.pushStmt node).1 } :=
  h.of_program (keepsDecls_of_eq rfl) rfl h.bodies

theorem addItem (h : Tracks stream ident marks spot s) (item : MiniC.Item) :
    Tracks stream ident marks spot { s with program := s.program.pushItem item } :=
  h.of_program (keepsDecls_of_eq rfl) rfl h.bodies

/-- An expression may be added that names what its name means. -/
theorem addExpr (h : Tracks stream ident marks spot s) {node : MiniC.Expr}
    (hnode : ∀ role d, node.kind.mention? = some (role, d) →
      Named stream ident marks node.loc role d) :
    Tracks stream ident marks spot { s with program := (s.program.pushExpr node).1 } :=
  { h with
    denotes := fun m hm hrole => (h.denotes m hm hrole).keeps (keepsDecls_of_eq rfl)
    mentions := fun e he => by
      have he : e.index < s.program.exprs.size + 1 := by simpa [Program.pushExpr] using he
      by_cases hlast : e.index = s.program.exprs.size
      · obtain rfl : e = (s.program.pushExpr node).2 := congrArg ExprId.mk hlast
        rw [Program.expr_pushExpr_self]
        exact hnode
      · have hlt : e.index < s.program.exprs.size := by omega
        rw [Program.expr_pushExpr_of_lt _ _ hlt]
        exact h.mentions e hlt }

/-- A declaration may be changed; if it gets a body, the text has a definition of it. -/
theorem modifyDecl (h : Tracks stream ident marks spot s) {d : DeclId} {f : Decl → Decl}
    (hp : KeepsDecls s.program (s.program.modifyDecl d f))
    (hbody : (f (s.program.decl d)).hasBody = true →
      ∃ m ∈ marks, m.role = .definition ∧ m.name = (s.program.decl d).name) :
    Tracks stream ident marks spot { s with program := s.program.modifyDecl d f } := by
  refine h.of_program hp rfl fun id hid => ?_
  by_cases hd : id = d ∧ id.index < s.program.decls.size
  · obtain ⟨rfl, hlt⟩ := hd
    rw [Program.decl_modifyDecl_self _ _ hlt] at hid
    rw [hp.name hlt]
    exact hbody hid
  · have hsame : (s.program.modifyDecl d f).decl id = s.program.decl id := by
      by_cases heq : id = d
      · have hge : ¬ id.index < s.program.decls.size := fun hlt => hd ⟨heq, hlt⟩
        simp [Program.decl, Array.getD, Program.size_modifyDecl, hge]
      · exact Program.decl_modifyDecl_of_ne _ _ heq
    rw [hsame] at hid ⊢
    exact h.bodies id hid

/-! ### Names that are used -/

/-- What the tables say about a name that is used here. -/
theorem resolve (h : Tracks stream ident marks spot s) (x : String) (role : Role) :
    match s.scopes.resolve? x with
    | some d => ∃ decl, Visible marks decl ⟨spot, x, role⟩ ∧ ident decl = d
    | none => ∀ decl, ¬ Visible marks decl ⟨spot, x, role⟩ :=
  have hinner : Open ident marks (⟨spot, x, role⟩ : Mark).scope s.scopes.inner := h.inner
  hinner.visible h.file fun m hm => (h.before m hm).1

/-- Names in front of a position are before everything from there on. -/
theorem grows (h : Tracks stream ident marks spot s) (hnew : ∀ m ∈ new, spot.pos ≤ m.pos) :
    Grows marks (marks ++ new) :=
  .append fun use huse _ m hm => Nat.le_of_lt (Nat.lt_of_lt_of_le (h.before use huse).1 (hnew m hm))

/-- A name that is used here means the same if it counts as one of the names in the text. -/
theorem visible_append_self {decl use : Mark} :
    Visible (marks ++ [use]) decl use ↔ Visible marks decl use := by
  refine visible_congr fun m hm => ?_
  have hne : m ≠ use := fun heq => Nat.lt_irrefl _ (heq ▸ hm)
  simp [hne]

/-- A name that is used is taken. -/
theorem use (h : Tracks stream ident marks spot s) {decl : Mark} {x : String} {role : Role}
    (hrole : role.declares = false) (hdecl : Visible marks decl ⟨spot, x, role⟩) :
    Tracks stream ident (marks ++ [⟨spot, x, role⟩]) ⟨spot.pos + 1, spot.scope⟩
      { s with rest := s.rest.tail } := by
  have hgrows : Grows marks (marks ++ [(⟨spot, x, role⟩ : Mark)]) := h.grows (by simp)
  -- a use declares nothing, so all declarations are older
  have hold {m : Mark} (hm : m ∈ marks ++ [(⟨spot, x, role⟩ : Mark)])
    (hm' : m.role.declares = true) :
      m ∈ marks := by
    rcases List.mem_append.1 hm with hm | hm
    · exact hm
    · rw [List.mem_singleton] at hm
      rw [hm, hrole] at hm'
      cases hm'
  exact { h.token with
    before := by
      intro m hm
      rcases List.mem_append.1 hm with hm | hm
      · exact h.token.before m hm
      · rw [List.mem_singleton] at hm
        rw [hm]
        exact ⟨Nat.lt_succ_self _, h.opened⟩
    functions := fun m hm hm' => h.functions m (hold hm (Role.declares_of_isFunction hm')) hm'
    inner := h.inner.mono (fun _ _ => rfl) hgrows.subset fun m hm hm' _ _ => hold hm hm'
    file := h.file.mono (fun _ _ => rfl) hgrows.subset fun m hm hm' _ => hold hm hm'
    single := fun m hm m' hm' hd hd' => h.single m (hold hm hd) m' (hold hm' hd') hd hd'
    denotes := fun m hm hm' => h.denotes m (hold hm hm') hm'
    mentions := fun e he role d hd =>
      (h.mentions e he role d hd).grows (ExprKind.declares_of_mention? hd) hgrows fun _ _ => rfl
    uses := fun m hm hm' => by
      rcases List.mem_append.1 hm with hm | hm
      · obtain ⟨decl, hdecl⟩ := h.uses m hm hm'
        exact ⟨decl, (hgrows.visible_iff hm hm').1 hdecl⟩
      · rw [List.mem_singleton] at hm
        rw [hm]
        exact ⟨decl, visible_append_self.2 hdecl⟩
    bodies := fun d hd => by
      obtain ⟨m, hm, hm'⟩ := h.bodies d hd
      exact ⟨m, List.mem_append_left _ hm, hm'⟩ }

/-! ### Names that are declared -/

/-- A name is declared: the tables and the program have it, and it is new in its scope unless it
names a function again. -/
theorem add (h : Tracks stream ident marks spot s) {m : Mark} {d : DeclId} {t : ParserState}
    (hdecl : m.role.declares = true) (hpos : m.pos < spot.pos) (hscope : ∀ i ∈ m.scope, i ≤ m.pos)
    (hfunction : m.role.isFunction = true → m.scope = [])
    (huses : ∀ use ∈ marks, use.role.declares = false → use.pos ≤ m.pos)
    (hsingle : ∀ m' ∈ marks, m'.role.declares = true → m'.scope = m.scope → m'.name = m.name →
      m'.role.isFunction = true ∧ m.role.isFunction = true)
    (hrest : t.rest = s.rest) (hend : t.endLoc = s.endLoc)
    (hp : KeepsDecls s.program t.program) (hexprs : t.program.exprs = s.program.exprs)
    (hbodies : ∀ d : DeclId, (t.program.decl d).hasBody = true →
      ∃ m ∈ marks, m.role = .definition ∧ m.name = (t.program.decl d).name)
    (hdenotes : Denotes stream t.program m d) (hident : ∀ m ∈ marks, ident' m = ident m)
    (hd : ident' m = d)
    (hinner : Open ident' (marks ++ [m]) spot.scope t.scopes.inner)
    (hfile : Table ident' (marks ++ [m]) [] t.scopes.file) :
    Tracks stream ident' (marks ++ [m]) spot t := by
  -- the name comes after all uses so far, so each of them still sees what it saw
  have hgrows : Grows marks (marks ++ [m]) := by
    refine .append fun use huse hrole m' hm' => ?_
    rw [List.mem_singleton] at hm'
    rw [hm']
    exact huses use huse hrole
  have hold {m' : Mark} (hm' : m' ∈ marks ++ [m]) (hrole : m'.role.declares = false) :
      m' ∈ marks := by
    rcases List.mem_append.1 hm' with hm' | hm'
    · exact hm'
    · rw [List.mem_singleton] at hm'
      rw [hm', hdecl] at hrole
      cases hrole
  have hboth {P : Mark → Prop} (hall : ∀ m' ∈ marks, P m') (hm : P m) :
      ∀ m' ∈ marks ++ [m], P m' := by
    intro m' hm'
    rcases List.mem_append.1 hm' with hm' | hm'
    · exact hall m' hm'
    · rw [List.mem_singleton] at hm'
      rwa [hm']
  have hkept := h.of_program hp hexprs hbodies
  exact {
    rest := hrest.trans h.rest
    endLoc := hend.trans h.endLoc
    opened := h.opened
    before := hboth h.before ⟨hpos, hscope⟩
    functions := hboth h.functions hfunction
    inner := hinner
    file := hfile
    single := by
      refine hboth (fun m₁ hm₁ => hboth (h.single m₁ hm₁) fun hd₁ _ hs hn => ?_)
        (hboth (fun m₂ hm₂ _ hd₂ hs hn => ?_) fun _ _ _ _ => .inl rfl)
      · exact .inr (hsingle m₁ hm₁ hd₁ hs hn)
      · exact .inr (hsingle m₂ hm₂ hd₂ hs.symm hn.symm).symm
    denotes := by
      refine hboth (fun m' hm' hrole => ?_) fun _ => hd ▸ hdenotes
      rw [hident m' hm']
      exact hkept.denotes m' hm' hrole
    mentions := fun e he role d hmention =>
      (hkept.mentions e he role d hmention).grows
        (ExprKind.declares_of_mention? hmention) hgrows hident
    uses := fun m' hm' hrole => by
      obtain ⟨decl, hv⟩ := h.uses m' (hold hm' hrole) hrole
      exact ⟨decl, (hgrows.visible_iff (hold hm' hrole) hrole).1 hv⟩
    bodies := fun d hd => by
      obtain ⟨m', hm', hrole⟩ := hbodies d hd
      exact ⟨m', List.mem_append_left _ hm', hrole⟩ }

/-- Ids of declarations, with that of one more name. -/
def assign (ident : Mark → DeclId) (m : Mark) (d : DeclId) : Mark → DeclId :=
  fun m' => if m' = m then d else ident m'

theorem assign_self (ident : Mark → DeclId) (m : Mark) (d : DeclId) : assign ident m d m = d :=
  if_pos rfl

/-- A new name leaves the ids of the others. -/
theorem assign_of_ne (ident : Mark → DeclId) (d : DeclId) {m : Mark} (h : ∀ m' ∈ marks, m' ≠ m) :
    ∀ m' ∈ marks, assign ident m d m' = ident m' := fun m' hm' => if_neg (h m' hm')

/-- The innermost table is that of the scope at the position. -/
theorem innermost (h : Tracks stream ident marks spot s) :
    Table ident marks spot.scope s.scopes.innermost := by
  have hinner := h.inner
  have hfile := h.file
  revert hinner
  unfold Scopes.innermost
  cases spot.scope with
  | nil =>
    cases s.scopes.inner with
    | nil => exact fun _ => hfile
    | cons _ _ => exact False.elim
  | cons i σ =>
    cases s.scopes.inner with
    | nil => exact False.elim
    | cons table tables => exact And.left

/-- A new declaration without a body gives no function a body. -/
theorem bodies_pushDecl (h : Tracks stream ident marks spot s) {node : Decl}
    (hnode : node.hasBody = false)
    (d : DeclId) (hd : ((s.program.pushDecl node).1.decl d).hasBody = true) :
    ∃ m ∈ marks, m.role = .definition ∧ m.name = ((s.program.pushDecl node).1.decl d).name := by
  by_cases heq : d = (s.program.pushDecl node).2
  · rw [heq, Program.decl_pushDecl_self, hnode] at hd
    cases hd
  · rw [Program.decl_pushDecl_of_ne _ _ heq] at hd ⊢
    exact h.bodies d hd

/-- A declaration without a name is not in any table. -/
theorem unnamed (h : Tracks stream ident marks spot s) {node : Decl}
    (hnode : node.hasBody = false) :
    Tracks stream ident marks spot { s with program := (s.program.pushDecl node).1 } :=
  h.of_program (keepsDecls_pushDecl _ _) rfl (h.bodies_pushDecl hnode)

/-- The innermost table gets a name, and the tables around it stay as they are. -/
theorem tables_declare (h : Tracks stream ident marks spot s) {m : Mark}
    (hident : ∀ m' ∈ marks, ident' m' = ident m')
    (hdecl : m.role.declares = true) (hscope : m.scope = spot.scope)
    (hnone : s.scopes.innermost.lookup m.name = none) :
    Open ident' (marks ++ [m]) spot.scope (s.scopes.declare m.name (ident' m)).inner ∧
      Table ident' (marks ++ [m]) [] (s.scopes.declare m.name (ident' m)).file := by
  have hsub : ∀ m' ∈ marks, m' ∈ marks ++ [m] := fun m' => List.mem_append_left _
  -- the tables of other scopes do not get the name
  have hother {σ : List Nat} (hne : m.scope ≠ σ) :
      ∀ m' ∈ marks ++ [m], m'.role.declares = true → m'.scope = σ → m' ∈ marks := by
    intro m' hm' _ hσ
    rcases List.mem_append.1 hm' with hm' | hm'
    · exact hm'
    · rw [List.mem_singleton] at hm'
      exact absurd (hm' ▸ hσ) hne
  have hadd := h.innermost.add hident hdecl hscope hnone
  have hinner := h.inner
  revert hinner hadd
  unfold Scopes.innermost Scopes.declare
  -- outside all functions the innermost table is that of the file
  cases hσ : spot.scope with
  | nil =>
    cases s.scopes.inner with
    | nil => exact fun hadd _ => ⟨trivial, hadd⟩
    | cons _ _ => exact fun _ => False.elim
  | cons i σ =>
    cases s.scopes.inner with
    | nil => exact fun _ => False.elim
    | cons table tables =>
      refine fun hadd hinner =>
        ⟨⟨hadd, hinner.2.mono hident hsub fun m' hm' hd _ hsuffix => ?_⟩, ?_⟩
      · refine hother (fun heq => ?_) m' hm' hd rfl
        have hlength := hsuffix.length_le
        rw [← heq, hscope, hσ, List.length_cons] at hlength
        omega
      · refine h.file.mono hident hsub (hother ?_)
        rw [hscope, hσ]
        exact List.cons_ne_nil _ _

/-- A variable is declared in the innermost scope. -/
theorem newVariable (h : Tracks stream ident marks spot s) {m : Mark} (hrole : m.role = .variable)
    (hscope : m.scope = spot.scope) (hpos : m.pos < spot.pos) (hopened : ∀ i ∈ m.scope, i ≤ m.pos)
    (hbefore : ∀ m' ∈ marks, m'.pos < m.pos)
    (hnone : s.scopes.innermost.lookup m.name = none) (type : CType)
    (storage : Storage) :
    let node : Decl := ⟨m.name, .variable type none storage, place stream m.pos⟩
    Tracks stream (assign ident m (s.program.pushDecl node).2) (marks ++ [m]) spot
      { s with
        program := (s.program.pushDecl node).1,
        scopes := s.scopes.declare m.name (s.program.pushDecl node).2 } := by
  intro node
  have hdecl : m.role.declares = true := by rw [hrole]; rfl
  have hfunction : m.role.isFunction = false := by rw [hrole]; rfl
  have hident := assign_of_ne ident (s.program.pushDecl node).2 fun m' hm' heq =>
    Nat.lt_irrefl _ (heq ▸ hbefore m' hm')
  have hself := assign_self ident m (s.program.pushDecl node).2
  have htables := h.tables_declare hident hdecl hscope hnone
  rw [hself] at htables
  refine h.add hdecl hpos hopened (fun hf => ?_) (fun use huse _ => Nat.le_of_lt (hbefore use huse))
    (fun m' hm' hd hs hn => ?_) rfl rfl (keepsDecls_pushDecl _ _) rfl
      (h.bodies_pushDecl rfl) ?_ hident
    hself htables.1 htables.2
  · rw [hfunction] at hf
    cases hf
  -- a variable of this name in the same scope would be in the innermost table
  · have hlookup := h.innermost.lookup hm' hd (hs.trans hscope)
    rw [hn, hnone] at hlookup
    cases hlookup
  · constructor
    · exact Program.index_pushDecl_lt _ _
    · rw [Program.decl_pushDecl_self]
    · rw [Program.decl_pushDecl_self, hfunction]
      rfl
    · intro _
      rw [Program.decl_pushDecl_self]

section Functions

variable {m : Mark} (h : Tracks stream ident marks spot s) (hrole : m.role.isFunction = true)
  (hscope : m.scope = []) (hpos : m.pos < spot.pos) (hne : ∀ m' ∈ marks, m' ≠ m)
  (huses : ∀ use ∈ marks, use.role.declares = false → use.pos ≤ m.pos)
include h hrole hscope hpos hne huses

/-- What the table of the file has under the name of a function that is declared again. -/
theorem sameFunction {d : DeclId} (hlookup : s.scopes.file.lookup m.name = some d)
    (hd : (s.program.decl d).isFunction = true) :
    Tracks stream (assign ident m d) (marks ++ [m]) spot s := by
  have hdecl := Role.declares_of_isFunction hrole
  have hident := assign_of_ne ident d hne
  have hself := assign_self ident m d
  have hsub : ∀ m' ∈ marks, m' ∈ marks ++ [m] := fun m' => List.mem_append_left _
  obtain ⟨first, hfirst, hfirstDecl, -, hname, rfl⟩ := h.file.mark hlookup
  have hdenotes := h.denotes first hfirst hfirstDecl
  refine h.add hdecl hpos (by simp [hscope]) (fun _ => hscope) huses
    (fun m' hm' hd' hs hn => ⟨?_, hrole⟩) rfl rfl
    (keepsDecls_of_eq rfl) rfl h.bodies ?_ hident hself ?_ ?_
  · have hfound := h.file.lookup hm' hd' (hs.trans hscope)
    rw [hn, hlookup] at hfound
    rw [← (h.denotes m' hm' hd').isFunction, ← Option.some.inj hfound, hd]
  · refine ⟨hdenotes.lt, hdenotes.name.trans hname, hd.trans hrole.symm, fun hf => ?_⟩
    rw [hrole] at hf
    cases hf
  · refine h.inner.mono hident hsub fun m' hm' _ hnil _ => ?_
    rcases List.mem_append.1 hm' with hm' | hm'
    · exact hm'
    · rw [List.mem_singleton] at hm'
      exact absurd (hm' ▸ hscope) hnil
  · exact h.file.again hident (hlookup.trans (congrArg some hself.symm))

/-- A function is declared for the first time. -/
theorem newFunction (hnone : s.scopes.file.lookup m.name = none) (returnType : CType)
    (params : List DeclId) (loc : Location) :
    let node : Decl := ⟨m.name, .function returnType params none, loc⟩
    Tracks stream (assign ident m (s.program.pushDecl node).2) (marks ++ [m]) spot
      { s with
        program := (s.program.pushDecl node).1.pushItem (.function (s.program.pushDecl node).2),
        scopes := s.scopes.declareInFile m.name (s.program.pushDecl node).2 } := by
  intro node
  have hdecl := Role.declares_of_isFunction hrole
  have hident := assign_of_ne ident (s.program.pushDecl node).2 hne
  have hself := assign_self ident m (s.program.pushDecl node).2
  have hsub : ∀ m' ∈ marks, m' ∈ marks ++ [m] := fun m' => List.mem_append_left _
  refine h.add hdecl hpos (by simp [hscope]) (fun _ => hscope) huses
    (fun m' hm' hd' hs hn => ?_) rfl rfl ?_ rfl
    (h.bodies_pushDecl (show node.hasBody = false from rfl)) ?_ hident hself ?_ ?_
  · -- a name that was declared in the file would have been found
    have hfound := h.file.lookup hm' hd' (hs.trans hscope)
    rw [hn, hnone] at hfound
    cases hfound
  · exact { keepsDecls_pushDecl s.program node with }
  · constructor
    · exact Program.index_pushDecl_lt _ _
    · exact congrArg Decl.name (Program.decl_pushDecl_self _ _)
    · exact (congrArg Decl.isFunction (Program.decl_pushDecl_self _ _)).trans hrole.symm
    · intro hf
      rw [hrole] at hf
      cases hf
  · -- names of the file are in none of the scopes inside it
    refine h.inner.mono hident hsub fun m' hm' _ hnil _ => ?_
    rcases List.mem_append.1 hm' with hm' | hm'
    · exact hm'
    · rw [List.mem_singleton] at hm'
      exact absurd (hm' ▸ hscope) hnil
  · have hadd := h.file.add hident hdecl hscope hnone
    rwa [hself] at hadd

end Functions

end Tracks

end Written

end MiniC
