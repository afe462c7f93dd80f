import MiniC.Proofs.GrowingPrograms
import MiniC.Proofs.NameTracking
import MiniC.Proofs.ParsedProgram
import MiniC.Proofs.UnfoldedBuilding

/-!
# The records of functions

A text may declare a function many times (`Written.declarationsOf`), and the program has one
declaration for all of them. Its record says what that one is made of (`Written.FunctionRecord`):
the return type is that of the first declaration in the text, the parameters and the place are those
of the definition if there is one, and else those of the first declaration.

Between two declarations of a file the functions that were declared so far have their records, names
of the file mean the functions and variables of the file (`Written.Tabled`), and the items are in
the order in which their names were first declared (`Written.Listed`). The lemmas say how these stay
while a program grows.
-/

set_option autoImplicit false

namespace MiniC

namespace Written

/-! ## Functions of a text -/

/-- A declaration of a function in a text, with the position of its name. -/
structure FunctionAt where
  pos : Nat
  declared : Function

/-- The function that is declared at a position, if it is one. -/
def Item.functions (pos : Nat) : Item → List FunctionAt
  | .declaration _ => []
  | .function f => [⟨pos + f.returnType.lexemes.length, f⟩]

/-- The functions among declarations that begin at a position. -/
def functionsFrom : Nat → List TopLevel → List FunctionAt
  | _, [] => []
  | pos, d :: ds =>
    d.item.functions (pos + if d.isExtern then 1 else 0) ++
      functionsFrom (pos + d.lexemes.length) ds

/-- The declarations of functions in a file. -/
def File.functions (file : File) : List FunctionAt := functionsFrom 0 file.declarations

/-- The names that are declared in the file. -/
def Item.names : Item → List String
  | .declaration d => d.declarators.map Declarator.name
  | .function f => [f.name]

/-- The names that a file declares, each as often as it does. -/
def File.names (file : File) : List String := file.declarations.flatMap fun d => d.item.names

/-- The declarations of the functions of one name. -/
def declarationsOf (fs : List FunctionAt) (x : String) : List FunctionAt :=
  fs.filter (·.declared.name = x)

/-- One more declaration of a function is the last one of its name. -/
theorem declarationsOf_concat_self (fs : List FunctionAt) (g : FunctionAt) :
    declarationsOf (fs ++ [g]) g.declared.name = declarationsOf fs g.declared.name ++ [g] := by
  simp [declarationsOf]

/-- Declarations of other functions are not counted. -/
theorem declarationsOf_concat_of_ne {fs : List FunctionAt} {g : FunctionAt} {x : String}
    (hx : x ≠ g.declared.name) :
    declarationsOf (fs ++ [g]) x = declarationsOf fs x := by
  simp [declarationsOf, hx.symm]

/-! ## Records -/

/-- Declarations that stand for the parameters which the text has from a position on. They lie at
the names of the parameters; one without a name lies at the token after its type. -/
inductive ParamsAt (stream : TokenStream) (p : Program) : Nat → List Param → List DeclId → Prop
  | nil (pos : Nat) : ParamsAt stream p pos [] []
  | cons {pos : Nat} {v : Param} {vs : List Param} {d : DeclId} {ds : List DeclId} :
      p.decl d = ⟨v.name.getD "", .variable v.type none .param,
        place stream (pos + v.typeName.lexemes.length)⟩ →
      ParamsAt stream p (pos + v.lexemes.length + 1) vs ds →
        ParamsAt stream p pos (v :: vs) (d :: ds)

/-- What a declaration is for a function that a text declares as given: `first` is the first of
these declarations, and `source` the one that the parameters are from. -/
structure FunctionRecord (stream : TokenStream) (p : Program) (x : String)
    (declarations : List FunctionAt) (d : DeclId)
    (first source : FunctionAt) (params : List DeclId) (body : Option StmtId) : Prop where
  decl :
    p.decl d = ⟨x, .function first.declared.returnType.type params body, place stream source.pos⟩
  head : declarations.head? = some first
  definitions : declarations.filter (·.declared.body.isSome) = body.toList.map fun _ => source
  prototype : body = none → source = first
  paramsAt : ParamsAt stream p (source.pos + 2) source.declared.params.toList params
  increasing : params.Pairwise (·.index < ·.index)

/-- The declaration is the record of a function that a text declares as given. -/
def Recorded (stream : TokenStream) (p : Program) (x : String) (declarations : List FunctionAt)
    (d : DeclId) : Prop :=
  ∃ first source params body, FunctionRecord stream p x declarations d first source params body

variable {stream : TokenStream} {p q r : Program} {x : String} {d : DeclId}
    {fs declarations : List FunctionAt}
  {g : FunctionAt} {xs : List String} {b b' : Built}

/-- Only the declarations of parameters matter. -/
theorem ParamsAt.of_kept {pos : Nat} {vs : List Param} {ds : List DeclId}
    (h : ParamsAt stream p pos vs ds)
    (hkept : ∀ {d type init}, (p.decl d).kind = .variable type init .param → q.decl d = p.decl d) :
    ParamsAt stream q pos vs ds := by
  induction h with
  | nil pos => exact .nil pos
  | cons hd _ ih => exact .cons ((hkept (congrArg Decl.kind hd)).trans hd) ih

/-- A record stays while the declaration and the parameters stay. -/
theorem Recorded.of_kept (h : Recorded stream p x declarations d) (hd : q.decl d = p.decl d)
    (hkept : ∀ {d type init}, (p.decl d).kind = .variable type init .param → q.decl d = p.decl d) :
    Recorded stream q x declarations d := by
  obtain ⟨first, source, params, body, h⟩ := h
  exact ⟨first, source, params, body,
    { h with decl := hd.trans h.decl, paramsAt := h.paramsAt.of_kept hkept }⟩

/-- Another declaration without a body changes nothing. -/
theorem Recorded.prototype (h : Recorded stream p x declarations d) (hg : g.declared.body = none) :
    Recorded stream p x (declarations ++ [g]) d := by
  obtain ⟨first, source, params, body, h⟩ := h
  refine ⟨first, source, params, body, { h with head := ?_, definitions := ?_ }⟩
  · rw [List.head?_append, h.head, Option.some_or]
  · rw [List.filter_append, h.definitions]
    simp [hg]

/-- A parameter is one of the program. -/
theorem lt_size_of_isParam {type : CType} {init : Option ExprId}
    (h : (p.decl d).kind = .variable type init .param) :
    d.index < p.decls.size := by
  refine Nat.lt_of_not_le fun hle => ?_
  simp [Program.decl, Array.getD, Nat.not_lt.2 hle, default] at h

/-! ## Programs whose file stays -/

theorem isFileLevel_of_isFunction {decl : Decl} (h : decl.isFunction = true) :
    decl.isFileLevel = true := by
  rw [Decl.isFunction] at h
  rw [Decl.isFileLevel]
  cases hkind : decl.kind with
  | function => rfl
  | «variable» =>
    rw [hkind] at h
    cases h

/-- Functions are declared in the file. -/
theorem fileLevel_of_isFunction (h : (p.decl d).isFunction = true) : p.FileLevel d :=
  ⟨Program.lt_size_of_isFunction h, isFileLevel_of_isFunction h⟩

/-- A function is not a variable of the file. -/
theorem ne_of_isGlobal {d' : DeclId} (h : p.IsGlobal d') (hd : (p.decl d).isFunction = true) :
    d' ≠ d := by
  rintro rfl
  obtain ⟨type, init, hkind⟩ := h.kind
  rw [Decl.isFunction, hkind] at hd
  cases hd

/-- Of the declarations only functions of one name were changed, and none was added to the file. -/
structure Spares (x : String) (p q : Program) : Prop extends KeepsDecls p q where
  decl : ∀ {d : DeclId}, d.index < p.decls.size →
    ((p.decl d).isFunction = true → (p.decl d).name ≠ x) → q.decl d = p.decl d
  new : ∀ {d : DeclId}, q.FileLevel d → d.index < p.decls.size
  items : q.items = p.items

namespace Spares

/-- Functions of one name may be changed twice. -/
theorem trans (h : Spares x p q) (h' : Spares x q r) : Spares x p r where
  size := Nat.le_trans h.size h'.size
  name hd := (h'.name (Nat.lt_of_lt_of_le hd h.size)).trans (h.name hd)
  isFunction hd := (h'.isFunction (Nat.lt_of_lt_of_le hd h.size)).trans (h.isFunction hd)
  loc hd hkind :=
    (h'.loc (Nat.lt_of_lt_of_le hd h.size) ((h.isFunction hd).trans hkind)).trans (h.loc hd hkind)
  decl hd hx := by
    have hdecl := h.decl hd hx
    rw [h'.decl (Nat.lt_of_lt_of_le hd h.size) (by rwa [hdecl]), hdecl]
  new {d} hd := by
    have hlt : d.index < q.decls.size := h'.new hd
    -- what changed on the way is a function, before and after
    cases hkind : (q.decl d).isFunction with
    | true => exact h.new ⟨hlt, isFileLevel_of_isFunction hkind⟩
    | false =>
      refine h.new ⟨hlt, ?_⟩
      rw [← h'.decl hlt (fun hfunction => absurd (hkind.symm.trans hfunction) (by decide))]
      exact hd.isFileLevel
  items := h'.items.trans h.items

/-- What is in the file after such a change was in it before. -/
theorem fileLevel (h : Spares x p q) (hd : q.FileLevel d) : p.FileLevel d := by
  have hlt : d.index < p.decls.size := h.new hd
  refine ⟨hlt, ?_⟩
  cases hkind : (p.decl d).isFunction with
  | true => exact isFileLevel_of_isFunction hkind
  | false =>
    rw [← h.decl hlt (fun hfunction => absurd (hkind.symm.trans hfunction) (by decide))]
    exact hd.isFileLevel

/-- Parameters are not changed with the function. -/
theorem param (h : Spares x p q) {type : CType} {init : Option ExprId}
    (hd : (p.decl d).kind = .variable type init .param) :
    q.decl d = p.decl d := by
  refine h.decl (lt_size_of_isParam hd) fun hfunction => ?_
  rw [Decl.isFunction, hd] at hfunction
  cases hfunction

/-- What only adds variables of functions spares the file. -/
theorem of_grows {storage : Storage} (h : p.Grows storage q) (hstorage : storage ≠ .global) :
    Spares x p q where
  size := h.size
  name hd := by rw [h.decl hd]
  isFunction hd := by rw [h.decl hd]
  loc hd _ := by rw [h.decl hd]
  decl hd _ := h.decl hd
  new {d} hd := by
    refine Nat.lt_of_not_le fun hle => hstorage ?_
    obtain ⟨type, init, hkind⟩ := h.exists_kind hle hd.lt
    have hlevel := hd.isFileLevel
    rw [Decl.isFileLevel, hkind] at hlevel
    exact of_decide_eq_true hlevel
  items := h.items

theorem refl (x : String) (p : Program) : Spares x p p := of_grows (.refl : p.Grows .local p) nofun

/-- A function was changed. -/
theorem modifyDecl {f : Decl → Decl} (hd : (p.decl d).isFunction = true) (hx : (p.decl d).name = x)
    (h : KeepsDecls p (p.modifyDecl d f)) : Spares x p (p.modifyDecl d f) :=
  { h with
    decl := fun {d'} _ hd' => by
      refine Program.decl_modifyDecl_of_ne p f ?_
      rintro rfl
      exact hd' hd hx
    new := fun {d'} hd' => Nat.lt_of_lt_of_le hd'.lt (Nat.le_of_eq (Program.size_modifyDecl p d f))
    items := rfl }

end Spares

/-! ## Names of the file -/

/-- The table of the file has the names that were declared, and they mean the functions and
variables of the file. -/
structure Tabled (xs : List String) (b : Built) : Prop where
  entry : ∀ {x d}, b.scopes.file.lookup x = some d → d.index < b.program.decls.size ∧
    (b.program.decl d).name = x
  lookup : ∀ {d}, b.program.FileLevel d → b.scopes.file.lookup (b.program.decl d).name = some d
  names : ∀ {x}, x ∈ xs ↔ ∃ d, b.scopes.file.lookup x = some d

/-- A declaration was added under a name that is new in the file. -/
structure Introduced (b : Built) (d : DeclId) (x : String) (b' : Built) : Prop where
  new : d.index = b.program.decls.size
  size : b'.program.decls.size = b.program.decls.size + 1
  decl : ∀ {d' : DeclId}, d'.index < b.program.decls.size → b'.program.decl d' = b.program.decl d'
  name : (b'.program.decl d).name = x
  free : b.scopes.file.lookup x = none
  file : b'.scopes.file = (x, d) :: b.scopes.file

/-- The new declaration is one of the program. -/
theorem Introduced.lt (h : Introduced b d x b') : d.index < b'.program.decls.size := by
  rw [h.size, h.new]
  exact Nat.lt_succ_self _

/-- It is the only new one. -/
theorem Introduced.eq_or_lt (h : Introduced b d x b') {d' : DeclId}
    (hd' : d'.index < b'.program.decls.size) :
    d' = d ∨ d'.index < b.program.decls.size := by
  rw [h.size, Nat.lt_succ_iff, Nat.le_iff_lt_or_eq, ← h.new] at hd'
  rcases hd' with hlt | heq
  · exact .inr (h.new ▸ hlt)
  · exact .inl (congrArg DeclId.mk heq)

namespace Tabled

/-- At first the file has no names. -/
theorem nil_start (stream : TokenStream) : Tabled [] (ParserState.start stream).built where
  entry h := by cases h
  lookup h := absurd h.lt (Nat.not_lt_zero _)
  names := ⟨nofun, fun ⟨_, h⟩ => by cases h⟩

/-- Only one declaration of the file has a name. -/
theorem eq_of_name_eq (h : Tabled xs b) {d d' : DeclId} (hd : b.program.FileLevel d)
    (hd' : b.program.FileLevel d')
    (hname : (b.program.decl d).name = (b.program.decl d').name) : d = d' := by
  have hlookup := h.lookup hd
  rw [hname, h.lookup hd'] at hlookup
  exact (Option.some.inj hlookup).symm

/-- Changing a function gives no names. -/
theorem spares (h : Tabled xs b) (hq : Spares x b.program b'.program)
    (hfile : b'.scopes.file = b.scopes.file) :
    Tabled xs b' where
  entry hx := by
    rw [hfile] at hx
    obtain ⟨hlt, hname⟩ := h.entry hx
    exact ⟨Nat.lt_of_lt_of_le hlt hq.size, (hq.name hlt).trans hname⟩
  lookup hd := by
    have hold := hq.fileLevel hd
    rw [hfile, hq.name hold.lt]
    exact h.lookup hold
  names := by
    rw [hfile]
    exact h.names

/-- A new name is given to the new declaration. -/
theorem introduce (h : Tabled xs b) (hb : Introduced b d x b') : Tabled (xs ++ [x]) b' where
  entry {y d'} hy := by
    rw [hb.file] at hy
    rcases eq_or_lookup_of_added hy with ⟨rfl, rfl⟩ | hy
    · exact ⟨hb.lt, hb.name⟩
    · obtain ⟨hlt, hname⟩ := h.entry hy
      exact ⟨by rw [hb.size]; exact Nat.lt_succ_of_lt hlt, by rw [hb.decl hlt, hname]⟩
  lookup {d'} hd' := by
    rw [hb.file]
    rcases hb.eq_or_lt hd'.lt with rfl | hlt
    · rw [hb.name]
      exact List.lookup_cons_self
    · -- the new name is that of no earlier declaration, so the new entry hides none
      have hlevel := hd'.isFileLevel
      rw [hb.decl hlt] at hlevel ⊢
      exact lookup_of_new hb.free (h.lookup ⟨hlt, hlevel⟩)
  names {y} := by
    rw [hb.file, List.mem_append, List.mem_singleton, h.names]
    constructor
    · rintro (⟨d', hd'⟩ | rfl)
      · exact ⟨d', lookup_of_new hb.free hd'⟩
      · exact ⟨d, List.lookup_cons_self⟩
    · rintro ⟨d', hd'⟩
      rcases eq_or_lookup_of_added hd' with ⟨rfl, -⟩ | hd'
      · exact .inr rfl
      · exact .inl ⟨d', hd'⟩

/-- What has no declaration was not declared. -/
theorem not_mem (h : Tabled xs b) (hx : b.scopes.file.lookup x = none) : x ∉ xs := by
  intro hmem
  obtain ⟨d, hd⟩ := h.names.1 hmem
  rw [hx] at hd
  cases hd

/-- A name is declared again. -/
theorem again (h : Tabled xs b) (hx : b.scopes.file.lookup x = some d) : Tabled (xs ++ [x]) b :=
  { h with
    names := fun {y} => by
      rw [List.mem_append, List.mem_singleton, h.names]
      refine ⟨?_, .inl⟩
      rintro (hy | rfl)
      · exact hy
      · exact ⟨d, hx⟩ }

end Tabled

/-! ## Items -/

/-- The declaration of an item is a function or a variable of the file, as the item says. -/
def Fits (p : Program) : MiniC.Item → Prop
  | .function d => (p.decl d).isFunction = true
  | .variable d => p.IsGlobal d

/-- The items are declarations of the file, in the order in which their names were declared
first. -/
structure Listed (xs : List String) (p : Program) : Prop where
  names : p.items.toList.map (fun item => (p.decl item.decl).name) = xs.eraseDups
  inOrder : p.items.toList.Pairwise (fun item item' => item.decl.index < item'.decl.index)
  fits : ∀ item ∈ p.items.toList, Fits p item

theorem Fits.lt {item : MiniC.Item} (h : Fits p item) : item.decl.index < p.decls.size := by
  cases item with
  | function d => exact Program.lt_size_of_isFunction h
  | «variable» d => exact Program.IsGlobal.lt h

/-- An item fits as long as its declaration stays. -/
theorem Fits.of_decl_eq {item : MiniC.Item} (h : Fits p item) (hsize : p.decls.size ≤ q.decls.size)
    (hdecl : q.decl item.decl = p.decl item.decl) : Fits q item := by
  cases item with
  | function d =>
    change q.decl d = p.decl d at hdecl
    change (q.decl d).isFunction = true
    rwa [hdecl]
  | «variable» d =>
    obtain ⟨hlt, hkind⟩ : p.IsGlobal d := h
    change q.decl d = p.decl d at hdecl
    exact ⟨Nat.lt_of_lt_of_le hlt hsize, by rwa [hdecl]⟩

/-- An item still fits after a function was changed. -/
theorem Fits.spares {item : MiniC.Item} (h : Fits p item) (hq : Spares x p q) : Fits q item := by
  cases item with
  | function d => exact (hq.isFunction (Program.lt_size_of_isFunction h)).trans h
  | «variable» d =>
    have hglobal : p.IsGlobal d := h
    exact h.of_decl_eq hq.size (hq.decl h.lt fun hfunction =>
      absurd rfl (ne_of_isGlobal hglobal hfunction))

/-- One more name counts if it is new. -/
theorem eraseDups_concat (xs : List String) (x : String) :
    (xs ++ [x]).eraseDups = if x ∈ xs then xs.eraseDups else xs.eraseDups ++ [x] := by
  rw [List.eraseDups_append]
  split
  · next hx => simp [List.removeAll, hx]
  · next hx => simp [List.removeAll, hx, List.eraseDups_cons]

namespace Listed

theorem nil_start (stream : TokenStream) : Listed [] (ParserState.start stream).program :=
  ⟨rfl, .nil, nofun⟩

theorem spares (h : Listed xs p) (hq : Spares x p q) : Listed xs q where
  names := by
    rw [hq.items, ← h.names]
    exact List.map_congr_left fun item hitem => hq.name (h.fits item hitem).lt
  inOrder := by
    rw [hq.items]
    exact h.inOrder
  fits := by
    rw [hq.items]
    exact fun item hitem => (h.fits item hitem).spares hq

/-- A name is declared again. -/
theorem again (h : Listed xs p) (hx : x ∈ xs) : Listed (xs ++ [x]) p :=
  { h with names := by rw [h.names, eraseDups_concat, if_pos hx] }

/-- A declaration is introduced, with an item for it. -/
theorem introduceItem (h : Listed xs b.program) (hb : Introduced b d x b') {item : MiniC.Item}
    (hitem : item.decl = d) (hitems : b'.program.items = b.program.items.push item) (hnew : x ∉ xs)
    (hfits : Fits b'.program item) : Listed (xs ++ [x]) b'.program := by
  have hlist : b'.program.items.toList = b.program.items.toList ++ [item] := by
    rw [hitems, Array.toList_push]
  have hold {item' : MiniC.Item} (hmem : item' ∈ b.program.items.toList) :
      b'.program.decl item'.decl = b.program.decl item'.decl := hb.decl (h.fits item' hmem).lt
  constructor
  · rw [hlist, List.map_append, eraseDups_concat, if_neg hnew, ← h.names,
      List.map_singleton, hitem, hb.name]
    exact congrArg (· ++ [x]) (List.map_congr_left fun item' hmem => by rw [hold hmem])
  · rw [hlist, List.pairwise_append]
    refine ⟨h.inOrder, List.pairwise_singleton _ _, fun item' hmem =>
      List.forall_mem_singleton.2 ?_⟩
    -- a declaration gets the index that comes after all others
    rw [hitem, hb.new]
    exact (h.fits item' hmem).lt
  · rw [hlist, List.forall_mem_append]
    refine ⟨fun item' hmem => ?_, List.forall_mem_singleton.2 hfits⟩
    exact (h.fits item' hmem).of_decl_eq (Nat.le_of_lt (hb.size ▸ Nat.lt_succ_self _)) (hold hmem)

end Listed

end Written

end MiniC
