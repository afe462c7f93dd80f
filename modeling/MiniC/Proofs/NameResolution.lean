import MiniC.Proofs.NameTracking
import MiniC.Proofs.ParsedProgram
import MiniC.Proofs.TokenPlaces

/-!
# Resolution of names

Names are resolved lexically (`Written.names_are_lexical`): an expression that names a declaration
names the one that is visible at its token. The trees of a text say which names are in which scopes;
the declarations of a program that stand for them are distinct, except that all declarations of a
function share one.
-/

set_option autoImplicit false

namespace MiniC

namespace Written

open MiniC.Parser

variable {stream : TokenStream} {ident : Mark → DeclId} {marks : List Mark}
    {spot : Spot} {s : ParserState}

/-- The names of a program mean what the text says: every declaration has an id of its own, except
that all declarations of a function share one; every name that is used means a declaration; and what
an expression names is the declaration that the name at its place means. -/
structure Resolution (stream : TokenStream) (p : Program) (marks : List Mark)
    (ident : Mark → DeclId) :
    Prop where
  tokens : ∀ m ∈ marks, stream.tokens[m.pos]?.map Token.lexeme = some (.identifier m.name)
  denotes : ∀ m ∈ marks, m.role.declares = true → Denotes stream p m (ident m)
  ident_eq_iff : ∀ m ∈ marks, ∀ m' ∈ marks, m.role.declares = true → m'.role.declares = true →
    (ident m = ident m' ↔ m = m' ∨ m.role.isFunction = true ∧
      m'.role.isFunction = true ∧ m.name = m'.name)
  single : Single marks
  uses : ∀ use ∈ marks, use.role.declares = false → ∃ decl, Visible marks decl use
  mentions : ∀ e : ExprId, e.index < p.exprs.size →
    ∀ role d, (p.expr e).kind.mention? = some (role, d) →
    Named stream ident marks (p.expr e).loc role d

/-- The names of a text have no other fault than that some may not be declared. -/
structure OtherwiseFine (marks : List Mark) : Prop where
  single : Single marks
  callees : ∀ use ∈ marks, use.role = .call → ∀ decl, Visible marks decl use →
    decl.role.isFunction = true
  definitions : ∀ m ∈ marks, ∀ m' ∈ marks, m.role = .definition → m'.role = .definition →
    m.name = m'.name → m = m'

instance (marks : List Mark) : Decidable (OtherwiseFine marks) :=
  decidable_of_iff (Single marks ∧
      (∀ use ∈ marks, use.role = .call → ∀ decl ∈ marks, Visible marks decl use →
        decl.role.isFunction = true) ∧
      ∀ m ∈ marks, ∀ m' ∈ marks, m.role = .definition → m'.role = .definition →
        m.name = m'.name → m = m')
    ⟨fun ⟨hsingle, hcallees, hdefinitions⟩ =>
        ⟨hsingle, fun use huse hcall decl hdecl => hcallees use huse hcall decl hdecl.mem hdecl,
          hdefinitions⟩,
      fun ⟨hsingle, hcallees, hdefinitions⟩ =>
        ⟨hsingle, fun use huse hcall decl _ hdecl => hcallees use huse hcall decl hdecl,
          hdefinitions⟩⟩

theorem OtherwiseFine.undeclared {m : Mark} {fault : ParseFault}
    (h : OtherwiseFine marks) (hm : m ∈ marks) (hfault : Faulty marks m fault) :
    fault = .undeclared m.name ∧ m.role.declares = false ∧ ∀ decl, ¬ Visible marks decl m := by
  cases hfault with
  | undeclared hrole hnone => exact ⟨rfl, hrole, hnone⟩
  | notAFunction decl hrole hdecl hkind =>
    rw [h.callees m hm hrole decl hdecl] at hkind
    cases hkind
  | redefinition other hrole hother hdecl hscope hname hne =>
    rcases h.single other hother m hm hdecl (by rw [hrole]; rfl) hscope hname with
      heq | ⟨-, hfunction⟩
    · exact absurd heq hne
    · rw [hrole] at hfunction
      cases hfunction
  | differentKind other hrole hother hkind hscope hname =>
    rcases h.single other hother m hm (by rw [hkind]; rfl)
        (Role.declares_of_isFunction hrole) hscope hname with
      rfl | ⟨hfunction, -⟩
    · rw [hkind] at hrole
      cases hrole
    · rw [hkind] at hfunction
      cases hfunction
  | functionRedefinition other hrole hother hdefinition hname hne =>
    exact absurd (h.definitions other hother m hm hdefinition hrole hname) hne

theorem place_injective (hplaces : (stream.tokens.map Token.loc).Nodup) {pos pos' : Nat}
    (hpos : pos < stream.tokens.length) (hpos' : pos' < stream.tokens.length)
    (h : place stream pos = place stream pos') : pos = pos' := by
  rw [place, place, List.getElem?_eq_getElem hpos, List.getElem?_eq_getElem hpos'] at h
  have hloc : stream.tokens[pos].loc = stream.tokens[pos'].loc := h
  have hne {i j : Nat} (hj : j < stream.tokens.length) (hlt : i < j) :
      stream.tokens[i].loc ≠ stream.tokens[j].loc := by
    have hpair := List.pairwise_iff_getElem.1 hplaces i j (by rw [List.length_map]; omega)
      (by rwa [List.length_map]) hlt
    rwa [List.getElem_map, List.getElem_map] at hpair
  rcases Nat.lt_trichotomy pos pos' with hlt | heq | hlt
  · exact absurd hloc (hne hpos' hlt)
  · exact heq
  · exact absurd hloc.symm (hne hpos hlt)

/-- The names of a file are identifiers among its tokens. -/
theorem Writes.token_of_mem {file : File} {m : Mark} (h : Writes stream file)
    (hm : m ∈ file.marks) :
    stream.tokens[m.pos]?.map Token.lexeme = some (.identifier m.name) := by
  have hget := (spell_getElem_of_mem hm).2
  rw [file.spell_trace, ← h.lexemes, List.getElem?_map] at hget
  exact hget

theorem Writes.lt_of_mem {file : File} {m : Mark} (h : Writes stream file) (hm : m ∈ file.marks) :
    m.pos < stream.tokens.length := by
  obtain ⟨token, htoken, -⟩ := Option.map_eq_some_iff.1 (h.token_of_mem hm)
  exact (List.getElem?_eq_some_iff.1 htoken).1

theorem Tracks.resolution {file : File} (hs : Tracks stream ident file.marks spot s)
    (hfile : Writes stream file) (hplaces : (stream.tokens.map Token.loc).Nodup) :
    Resolution stream s.program file.marks ident where
  tokens m hm := hfile.token_of_mem hm
  denotes := hs.denotes
  single := hs.single
  uses := hs.uses
  mentions := hs.mentions
  ident_eq_iff m hm m' hm' hdecl hdecl' := by
    have hd := hs.denotes m hm hdecl
    have hd' := hs.denotes m' hm' hdecl'
    constructor
    · intro heq
      have hkind : m.role.isFunction = m'.role.isFunction := by
        rw [← hd.isFunction, ← hd'.isFunction, heq]
      cases hfunction : m'.role.isFunction with
      | true =>
        refine .inr ⟨hkind.trans hfunction, rfl, ?_⟩
        rw [← hd.name, ← hd'.name, heq]
      | false =>
        have hplace : place stream m.pos = place stream m'.pos := by
          rw [← hd.loc (hkind.trans hfunction), ← hd'.loc hfunction, heq]
        exact .inl (eq_of_pos_eq hm hm'
          (place_injective hplaces (hfile.lt_of_mem hm) (hfile.lt_of_mem hm') hplace))
    · rintro (rfl | ⟨hfunction, hfunction', hname⟩)
      · rfl
      · have hlookup := hs.file.lookup hm hdecl (hs.functions m hm hfunction)
        have hlookup' := hs.file.lookup hm' hdecl' (hs.functions m' hm' hfunction')
        rw [hname, hlookup'] at hlookup
        exact (Option.some.inj hlookup).symm

/-- The program of a file has its names resolved, or a name of the file is faulty. -/
theorem Writes.resolves {file : File} (h : Writes stream file)
    (hplaces : (stream.tokens.map Token.loc).Nodup) :
    match Program.ofTokens stream with
    | .ok p => ∃ ident, Resolution stream p file.marks ident
    | .error e =>
      ∃ m ∈ file.marks, ∃ fault, Faulty file.marks m fault ∧ e = ⟨fault, place stream m.pos⟩ := by
  rw [ofTokens_eq_build h.wellFormed h.lexemes]
  have hbuild := file.performs_build (fun _ => default) [] (.start stream) (tracks_start stream _)
  unfold Gives at hbuild
  split at hbuild
  · next t ht =>
    obtain ⟨ident, -, htracks⟩ := hbuild
    rw [ht]
    exact ⟨ident, Tracks.resolution htracks h hplaces⟩
  · next e he =>
    rw [he]
    exact hbuild

theorem parse_eq_ofTokens {source : String} (h : tokenize source = .ok stream) :
    Program.parse source = Program.ofTokens stream := by
  rw [Program.parse, h]

/-- Names are resolved lexically. In a program that is accepted, what an expression names is the
declaration that is visible at its token, and no scope declares a name twice unless it is that of a
function; and where nothing else is wrong, a program is rejected for an undeclared name just when no
declaration of some name is visible. -/
theorem names_are_lexical (source : String) :
    (∀ p, Program.parse source = .ok p →
      ∃ stream, tokenize source = .ok stream ∧ (∃ file, Writes stream file) ∧
        ∀ file, Writes stream file → ∃ ident, Resolution stream p file.marks ident) ∧
    ∀ stream file, tokenize source = .ok stream → Writes stream file → OtherwiseFine file.marks →
      ((∃ x loc, Program.parse source = .error ⟨.undeclared x, loc⟩) ↔
        ∃ use ∈ file.marks, use.role.declares = false ∧ ∀ decl, ¬ Visible file.marks decl use) := by
  constructor
  · intro p hp
    obtain ⟨stream, file, hstream, hfile, hlexemes, -⟩ := exists_file_of_parse hp
    refine ⟨stream, hstream, ⟨file, hfile, hlexemes⟩, fun file hfile => ?_⟩
    have hresolves := hfile.resolves (nodup_places_of_tokenize hstream)
    rwa [← parse_eq_ofTokens hstream, hp] at hresolves
  · intro stream file hstream hfile hfine
    have hresolves := hfile.resolves (nodup_places_of_tokenize hstream)
    rw [← parse_eq_ofTokens hstream] at hresolves
    constructor
    · -- the fault is that of a name, and a file that is otherwise fine has no other faults
      rintro ⟨x, loc, herror⟩
      rw [herror] at hresolves
      obtain ⟨m, hm, fault, hfault, -⟩ := hresolves
      exact ⟨m, hm, (hfine.undeclared hm hfault).2⟩
    · -- if the text had a program, the name would mean something
      rintro ⟨use, huse, hrole, hnone⟩
      split at hresolves
      · obtain ⟨ident, hresolution⟩ := hresolves
        obtain ⟨decl, hdecl⟩ := hresolution.uses use huse hrole
        exact absurd hdecl (hnone decl)
      · next e he =>
        obtain ⟨m, hm, fault, hfault, rfl⟩ := hresolves
        obtain ⟨rfl, -⟩ := hfine.undeclared hm hfault
        exact ⟨_, _, he⟩

/-! Names in two small texts: `hidingFile` hides a variable of the file, `undeclaredFile` declares
none. -/

/-- `int x; int main() { int x; return x; }` -/
def hidingFile : File where
  declarations :=
    [⟨false, .declaration ⟨.int, ⟨0, "x", none, none⟩, []⟩⟩,
      ⟨false, .function ⟨⟨.int, 0⟩, "main", .list [], some
        [.declare ⟨.int, ⟨0, "x", none, none⟩, []⟩, .ret (some (.name "x"))]⟩⟩]

/-- `int main() { return x; }` -/
def undeclaredFile : File where
  declarations := [⟨false, .function ⟨⟨.int, 0⟩, "main", .list [], some [.ret (some (.name "x"))]⟩⟩]

theorem exists_stream_of_lexemes (source : String) {file : File} (hfile : file.WellFormed)
    (h : (tokenize source).toOption.any (fun stream =>
      stream.tokens.map Token.lexeme = file.lexemes) = true) :
    ∃ stream, tokenize source = .ok stream ∧ Writes stream file := by
  cases hstream : tokenize source with
  | ok stream =>
    rw [hstream] at h
    exact ⟨stream, rfl, hfile, of_decide_eq_true h⟩
  | error e =>
    rw [hstream] at h
    cases h

theorem wellFormed_hidingFile : hidingFile.WellFormed := by
  have hx : Declarator.WellFormed .int ⟨0, "x", none, none⟩ := ⟨rfl, by simp, fun _ => rfl, by simp⟩
  have hmain : Function.WellFormed ⟨⟨.int, 0⟩, "main", .list [], some
      [.declare ⟨.int, ⟨0, "x", none, none⟩, []⟩, .ret (some (.name "x"))]⟩ :=
    ⟨by simp [Params.WellFormed], by
      simp [Stmt.WellFormed, Declaration.WellFormed, Declaration.declarators, hx, Expr.WellFormed]⟩
  simp [File.WellFormed, hidingFile, Item.WellFormed, Declaration.WellFormed,
    Declaration.declarators, hx, hmain]

theorem wellFormed_undeclaredFile : undeclaredFile.WellFormed := by
  have hmain : Function.WellFormed ⟨⟨.int, 0⟩, "main", .list [], some [.ret (some (.name "x"))]⟩ :=
    ⟨by simp [Params.WellFormed], by simp [Stmt.WellFormed, Expr.WellFormed]⟩
  simp [File.WellFormed, undeclaredFile, Item.WellFormed, hmain]

/-- The reference is to the variable of the block, and without any variable there is no program. -/
theorem names_of_hiding_block :
    (∃ p stream ident, Program.parse "int x; int main() { int x; return x; }" = .ok p ∧
      tokenize "int x; int main() { int x; return x; }" = .ok stream ∧
        (p.expr ⟨0⟩).kind.mention? = some (.reference, ⟨2⟩) ∧
          Resolution stream p hidingFile.marks ident) ∧
    ∃ x loc, Program.parse "int main() { return x; }" = .error ⟨.undeclared x, loc⟩ := by
  constructor
  · have hparse : ∃ p, Program.parse "int x; int main() { int x; return x; }" = .ok p ∧
        (p.expr ⟨0⟩).kind.mention? = some (.reference, ⟨2⟩) :=
          Program.exists_of_parse (by decide +kernel)
    obtain ⟨p, hp, hkind⟩ := hparse
    obtain ⟨stream, hstream, hwrites⟩ :=
      exists_stream_of_lexemes "int x; int main() { int x; return x; }"
      wellFormed_hidingFile (by decide +kernel)
    obtain ⟨stream', hstream', -, hresolution⟩ := (names_are_lexical _).1 p hp
    obtain rfl : stream = stream' := Except.ok.inj (hstream.symm.trans hstream')
    obtain ⟨ident, hident⟩ := hresolution hidingFile hwrites
    exact ⟨p, stream, ident, hp, hstream, hkind, hident⟩
  · obtain ⟨stream, hstream, hwrites⟩ := exists_stream_of_lexemes "int main() { return x; }"
      wellFormed_undeclaredFile (by decide +kernel)
    have hmarks : undeclaredFile.marks =
        [⟨⟨1, []⟩, "main", .definition⟩, ⟨⟨6, [3]⟩, "x", .reference⟩] := by decide
    have hnone (decl : Mark) : ¬ Visible undeclaredFile.marks decl ⟨⟨6, [3]⟩, "x", .reference⟩ := by
      rintro ⟨hmem, -, hname, hbefore, -, -⟩
      rw [hmarks, List.mem_cons, List.mem_singleton] at hmem
      rcases hmem with rfl | rfl
      · exact absurd hname (by decide)
      · exact Nat.lt_irrefl _ hbefore
    refine ((names_are_lexical _).2 stream undeclaredFile hstream hwrites ?_).2
      ⟨_, by rw [hmarks]; simp, rfl, hnone⟩
    rw [hmarks]
    exact ⟨by simp [Single, Role.declares], by simp, by simp⟩

end Written

end MiniC
