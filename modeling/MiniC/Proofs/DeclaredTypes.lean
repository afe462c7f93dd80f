import MiniC.Proofs.ParsedProgram

/-!
# Declared types

Every variable of a program that was read has a type with values: an integer, a pointer or an array
(`Program.type_of_parse`). A declarator that would declare anything else is refused, and so are an
array of no elements that is no parameter, and an initialiser of an array; a parameter never has one
(`Decl.Proper`).

A parser keeps the program proper (`Parser.KeepsProper`) if it does so with the declarations that it
adds and changes. Only three parsers do any of this: those of a variable, of a parameter and of a
function.
-/

set_option autoImplicit false

namespace MiniC

/-! ## Types -/

/-- A base type with any number of stars. -/
def CType.IsPlain : CType → Prop
  | value _ _ none => True
  | _ => False

/-- An object that is no array without elements. -/
structure CType.IsVariable (type : CType) : Prop where
  object : type.isFunction = false
  length : type.length? ≠ some 0

namespace CType.IsPlain

variable {type : CType}

theorem withPointer (h : type.IsPlain) : type.withPointer.IsPlain := by
  rcases type with ⟨base, pointers, _ | length⟩ | result
  · trivial
  · exact h.elim
  · exact h.elim

/-- With brackets, a plain type is that of an array of their length. -/
theorem withLength (h : type.IsPlain) (length : Nat) :
    (type.withLength length).isFunction = false ∧
      (type.withLength length).length? = some length := by
  rcases type with ⟨base, pointers, _ | _⟩ | result
  · exact ⟨rfl, rfl⟩
  · exact h.elim
  · exact h.elim

/-- A plain type is that of an object, and has no length. -/
theorem isVariable (h : type.IsPlain) : type.IsVariable := by
  rcases type with ⟨base, pointers, _ | _⟩ | result
  · exact ⟨rfl, nofun⟩
  · exact h.elim
  · exact h.elim

end CType.IsPlain

/-- An object of a type that is written with at most one pair of brackets has values unless it is
`void`. -/
theorem CType.hasValues_of_proper {type : CType} (hf : type.isFunction = false)
    (hv : type.isVoid = false) :
    type.isInteger = true ∨ type.isPointer = true ∨ type.isArray = true := by
  cases type with
  | function result => cases hf
  | value base pointers length =>
    cases length with
    | some n => exact .inr (.inr rfl)
    | none =>
      cases pointers with
      | succ n => exact .inr (.inl rfl)
      | zero =>
        cases base with
        | void => cases hv
        | int | char => exact .inl rfl

/-- What a program that was read says of the type and the initialiser of a variable. -/
structure DeclKind.ProperVariable (type : CType) (init : Option ExprId)
    (storage : Storage) : Prop where
  object : type.isFunction = false
  notVoid : type.isVoid = false
  length : storage ≠ .param → type.length? ≠ some 0
  array : type.isArray = true → init = none
  param : storage = .param → init = none

/-- A function, or a proper variable. -/
def Decl.Proper (d : Decl) : Prop :=
  ∀ type init storage, d.kind = .variable type init storage →
    DeclKind.ProperVariable type init storage

/-- Nothing is asked of a function. -/
theorem Decl.proper_of_isFunction {d : Decl} (h : d.isFunction = true) : d.Proper := by
  intro type init storage hk
  rw [isFunction, hk] at h
  cases h

theorem Decl.proper_default : (default : Decl).Proper := by
  rintro _ _ _ ⟨⟩
  exact ⟨rfl, rfl, nofun, nofun, nofun⟩

/-! ## Programs -/

namespace Program

variable {p : Program}

/-- Every declaration is proper. -/
def ProperDecls (p : Program) : Prop := ∀ d, (p.decl d).Proper

/-- Whether declarations are proper depends on them alone. -/
theorem ProperDecls.of_decls_eq {q : Program} (h : p.ProperDecls) (hdecls : q.decls = p.decls) :
    q.ProperDecls := by
  intro d
  rw [decl, hdecls]
  exact h d

/-- A proper declaration may be added. -/
theorem ProperDecls.pushDecl (h : p.ProperDecls) {new : Decl} (hnew : new.Proper) :
    (p.pushDecl new).1.ProperDecls := by
  intro d
  by_cases hd : d = (p.pushDecl new).2
  · rw [hd, decl_pushDecl_self]
    exact hnew
  · rw [decl_pushDecl_of_ne p new hd]
    exact h d

/-- A declaration may be changed so that it stays proper; outside the program nothing changes. -/
theorem ProperDecls.modifyDecl (h : p.ProperDecls) {d : DeclId} {f : Decl → Decl}
    (hf : d.index < p.decls.size → (f (p.decl d)).Proper) : (p.modifyDecl d f).ProperDecls := by
  intro d'
  by_cases hd : d' = d
  · subst hd
    by_cases hlt : d'.index < p.decls.size
    · rw [decl_modifyDecl_self p f hlt]
      exact hf hlt
    · have hout : (p.modifyDecl d' f).decl d' = default := by
        rw [decl, Array.getD, dif_neg (by rwa [size_modifyDecl])]
      rw [hout]
      exact Decl.proper_default
  · rw [decl_modifyDecl_of_ne p f hd]
    exact h d'

end Program

namespace Parser

variable {α β : Type}

/-- What is built is a tree of proper declarations. -/
structure Proper (s : Built) : Prop where
  tree : s.program.Tree
  decls : s.program.ProperDecls

/-- The parser keeps the program proper, and its results are as the second relation says. -/
abbrev KeepsProper (x : Parser α) (P : α → Prop) : Prop :=
  Reads Proper (fun _ a t => Proper t ∧ P a) x

/-- Any result will do. -/
abbrev Any : α → Prop := fun _ => True

variable {s t : Built}

/-- What is built stays proper while its expressions and declarations are the same. -/
theorem Proper.of_eq (h : Proper s) (hexprs : t.program.exprs = s.program.exprs)
    (hdecls : t.program.decls = s.program.decls) : Proper t := by
  have hoperands (e : ExprId) : t.program.operands e = s.program.operands e := by
    rw [Program.operands, Program.operands, Program.expr, Program.expr, hexprs]
  constructor
  · constructor
    · intro e c hc
      rw [hoperands] at hc
      exact h.tree.lt hc
    · intro e f c he hf
      rw [hoperands] at he hf
      exact h.tree.unique he hf
    · intro e
      rw [hoperands]
      exact h.tree.nodup e
  · exact h.decls.of_decls_eq hdecls

namespace KeepsProper

variable {x : Parser α} {P : α → Prop}

/-- Parsers that only take tokens keep the program proper. -/
theorem of_tokens (hx : TokensOnly x) : KeepsProper x Any := by
  intro s hs
  apply (hx s).mono
  rintro a _ ⟨rest, -, rfl⟩
  exact ⟨hs, trivial⟩

theorem pure {a : α} (ha : P a) : KeepsProper (pure a) P := fun _ hs => ⟨hs, ha⟩

theorem fail (fault : ParseFault) (loc : Location) : KeepsProper (fail fault loc : Parser α) P :=
  fun _ _ => ensures_fail

/-- The second parser may use what is known of the result of the first. -/
theorem bind {f : α → Parser β} {R : β → Prop} (hx : KeepsProper x P)
    (hf : ∀ a, P a → KeepsProper (f a) R) :
    KeepsProper (x >>= f) R := fun _ hs => hx.ensures_bind hs fun a t ht => hf a ht.2 t ht.1

theorem ite {c : Bool} {y : Parser α} (hx : KeepsProper x P) (hy : KeepsProper y P) :
    KeepsProper (if c then x else y) P := by
  split
  · exact hx
  · exact hy

/-- Several items are read one after the other. -/
theorem sequence (P : α → Prop) :
    Sequence Proper (fun _ a t => Proper t ∧ P a) fun _ as t => Proper t ∧ Any as where
  keeps _ h := h.1
  nil h := ⟨h, trivial⟩
  cons _ h := ⟨h.1, trivial⟩

theorem afterCommas (hx : KeepsProper x P) (bound : Nat) : KeepsProper (afterCommas x bound) Any :=
  Reads.afterCommas (sequence P) hx bound

theorem commaSeparated (hx : KeepsProper x P) : KeepsProper (commaSeparated x) Any :=
  Reads.commaSeparated (sequence P) hx

/-- A loop keeps the program proper if every item does. -/
theorem repeatUntil {stop : Parser Bool} (hstop : TokensOnly stop)
    (hx : KeepsProper x P) (bound : Nat) :
    KeepsProper (repeatUntil stop x bound) Any := Reads.repeatUntil (sequence P) hstop hx bound

end KeepsProper

/-! ## Expressions and written types -/

/-- An expression adds no declarations and changes none. -/
theorem keepsProper_expression : KeepsProper expression Any := by
  intro s hs
  apply (readsExpr_expression s hs.tree).mono
  intro e t ht
  exact ⟨⟨ht.grown.tree, hs.decls.of_decls_eq ht.grown.decls⟩, trivial⟩

theorem keepsProper_expressionUnless (sign : Punct) : KeepsProper (expressionUnless sign) Any := by
  refine (KeepsProper.of_tokens (tokensOnly_check sign)).bind fun found _ => ?_
  refine .ite (.pure trivial) ?_
  intro s hs
  rw [ensures_map]
  exact (keepsProper_expression s hs).mono fun _ _ h => h

theorem keepsProper_baseType : KeepsProper baseType CType.IsPlain := by
  refine (KeepsProper.of_tokens tokensOnly_peek).bind fun found _ => ?_
  split
  · exact (KeepsProper.of_tokens tokensOnly_advance).bind fun _ _ => .pure trivial
  · exact (KeepsProper.of_tokens tokensOnly_here).bind fun _ _ => .fail _ _

/-- Stars are added to a plain type. -/
theorem keepsProper_starsWithin {type : CType} (h : type.IsPlain) (bound : Nat) :
    KeepsProper (starsWithin bound type) CType.IsPlain := by
  induction bound generalizing type with
  | zero => exact .pure h
  | succ bound ih =>
    refine (KeepsProper.of_tokens (tokensOnly_accept _)).bind fun found _ => ?_
    exact .ite (ih (h.withPointer)) (.pure h)

theorem keepsProper_stars {type : CType} (h : type.IsPlain) :
    KeepsProper (stars type) CType.IsPlain :=
  (KeepsProper.of_tokens tokensOnly_remaining).bind fun _ _ => keepsProper_starsWithin h _

theorem keepsProper_typeName : KeepsProper typeName CType.IsPlain :=
  keepsProper_baseType.bind fun _ h => keepsProper_stars h

/-! ## Variables -/

/-- The length of an array that is no parameter is positive. -/
theorem keepsProper_arrayLength : KeepsProper arrayLength (0 < ·) := by
  refine (KeepsProper.of_tokens tokensOnly_peek).bind fun found _ => ?_
  split
  · refine (KeepsProper.of_tokens tokensOnly_advance).bind fun _ _ => ?_
    exact (KeepsProper.of_tokens (tokensOnly_expect _)).bind fun _ _ => .pure (Nat.succ_pos _)
  · exact (KeepsProper.of_tokens tokensOnly_here).bind fun _ _ => .fail _ _

/-- The type of a variable is never that of an array without elements. -/
theorem keepsProper_variableType {type : CType} (h : type.IsPlain) :
    KeepsProper (variableType type) CType.IsVariable := by
  refine (KeepsProper.of_tokens (tokensOnly_accept _)).bind fun found _ => ?_
  refine .ite ?_ (.pure h.isVariable)
  refine keepsProper_arrayLength.bind fun length hlength => ?_
  refine (KeepsProper.of_tokens (tokensOnly_check _)).bind fun another _ => ?_
  obtain ⟨hobject, hlen⟩ := h.withLength length
  have htype : CType.IsVariable (type.withLength length) := by
    refine ⟨hobject, ?_⟩
    rw [hlen]
    rintro ⟨⟩
    exact Nat.lt_irrefl 0 hlength
  split
  · exact (KeepsProper.of_tokens tokensOnly_here).bind fun _ _ =>
      (KeepsProper.fail (P := Any) _ _).bind fun _ _ => .pure htype
  · exact .pure htype

/-- A variable with a proper type may be declared. -/
theorem Proper.addVariable (h : Proper s) {type : CType} {init : Option ExprId} {storage : Storage}
    (hnew : DeclKind.ProperVariable type init storage) (name : String) (loc : Location)
    (scopes : Scopes) :
    Proper ⟨(s.program.pushDecl ⟨name, .variable type init storage, loc⟩).1, scopes⟩ where
  tree := ⟨h.tree.lt, h.tree.unique, h.tree.nodup⟩
  decls := by
    apply h.decls.pushDecl
    rintro _ _ _ ⟨⟩
    exact hnew

theorem Proper.modifyDecl (h : Proper s) {d : DeclId} {f : Decl → Decl}
    (hf : (f (s.program.decl d)).Proper) (scopes : Scopes) :
    Proper ⟨s.program.modifyDecl d f, scopes⟩ where
  tree := ⟨h.tree.lt, h.tree.unique, h.tree.nodup⟩
  decls := h.decls.modifyDecl fun _ => hf

/-- An initialiser is given to a variable that may have one. -/
theorem proper_withInit {d : Decl} {type : CType} {storage : Storage}
    (hk : d.kind = .variable type none storage)
    (h : DeclKind.ProperVariable type none storage) (harray : type.isArray = false)
    (hparam : storage ≠ .param)
    (init : ExprId) : (d.withInit init).Proper := by
  rintro type' init' storage' hk'
  rw [Decl.withInit, hk] at hk'
  cases hk'
  exact ⟨h.object, h.notVoid, h.length, fun h => (Bool.eq_false_iff.1 harray h).elim, fun h =>
    (hparam h).elim⟩

/-- A variable is refused if it is `void`, and an initialiser if it is an array. -/
theorem keepsProper_variableRest {type : CType} (h : type.IsPlain) (name : String) (loc : Location)
    {storage : Storage} (hparam : storage ≠ .param) :
    KeepsProper (variableRest type name loc storage) Any := by
  refine (keepsProper_variableType h).bind fun type htype s hs => ?_
  dsimp only
  split
  · exact ensures_bind.2 ensures_fail
  next hvoid =>
  have hnew : DeclKind.ProperVariable type none storage :=
    ⟨htype.object, Bool.eq_false_iff.2 hvoid, fun _ => htype.length, fun _ => rfl, fun _ => rfl⟩
  refine ensures_bind.2 (ensures_addDecl.2 (ensures_bind.2 (ensures_declare ?_)))
  refine tokensOnly_here.ensures_bind fun equals _ =>
    (tokensOnly_accept _).ensures_bind fun assigned _ => ?_
  have hadded := hs.addVariable hnew name loc
    (s.scopes.declare name (s.program.pushDecl ⟨name, .variable type none storage, loc⟩).2)
  split
  · dsimp only
    split
    · exact ensures_bind.2 ensures_fail
    next harray =>
    -- the expression leaves the variable as it was declared
    refine readsExpr_expression.ensures_bind hadded.tree fun init u hinit => ?_
    have hu : Proper u.built := ⟨hinit.grown.tree, hadded.decls.of_decls_eq hinit.grown.decls⟩
    rw [ensures_bind]
    refine ⟨hu.modifyDecl ?_ u.scopes, trivial⟩
    refine proper_withInit ?_ hnew (Bool.eq_false_iff.2 harray) hparam init
    rw [Program.decl, hinit.grown.decls]
    exact congrArg Decl.kind
      (Program.decl_pushDecl_self s.program ⟨name, .variable type none storage, loc⟩)
  · exact ⟨hadded, trivial⟩

theorem keepsProper_declarator {base : CType} (h : base.IsPlain) {storage : Storage}
    (hparam : storage ≠ .param) :
    KeepsProper (declarator base storage) Any := by
  refine (keepsProper_stars h).bind fun type htype => ?_
  refine (KeepsProper.of_tokens tokensOnly_here).bind fun loc _ => ?_
  exact (KeepsProper.of_tokens tokensOnly_identifier).bind fun name _ =>
    keepsProper_variableRest htype name loc hparam

theorem keepsProper_otherDeclarators {base : CType} (h : base.IsPlain) {storage : Storage}
    (hparam : storage ≠ .param) : KeepsProper (otherDeclarators base storage) Any := by
  refine (KeepsProper.of_tokens tokensOnly_remaining).bind fun bound _ => ?_
  refine ((keepsProper_declarator h hparam).afterCommas bound).bind fun others _ => ?_
  exact (KeepsProper.of_tokens (tokensOnly_expect _)).bind fun _ _ => .pure trivial

theorem keepsProper_localDeclaration : KeepsProper localDeclaration Any :=
  have hlocal : Storage.local ≠ .param := nofun
  keepsProper_baseType.bind fun _ h => (keepsProper_declarator h hlocal).bind fun _ _ =>
    (keepsProper_otherDeclarators h hlocal).bind fun _ _ => .pure trivial

/-! ## Statements -/

theorem keepsProper_addStmt (kind : StmtKind) (loc : Location) :
    KeepsProper (addStmt kind loc) Any :=
  fun _ hs => ⟨hs.of_eq rfl rfl, trivial⟩

theorem keepsProper_inScope {x : Parser α} (hx : KeepsProper x Any) :
    KeepsProper (inScope x) Any := by
  intro s hs
  rw [ensures_inScope]
  have hstart : Proper (ParserState.built { s with scopes := s.scopes.enter }) := hs.of_eq rfl rfl
  exact (hx _ hstart).mono fun _ _ h => ⟨h.1.of_eq rfl rfl, trivial⟩

theorem KeepsProper.some {x : Parser α} (hx : KeepsProper x Any) :
    KeepsProper (Option.some <$> x) Any := by
  intro s hs
  rw [ensures_map]
  exact (hx s hs).mono fun _ _ h => ⟨h.1, trivial⟩

section Statements

variable {statement : Parser StmtId} (h : KeepsProper statement Any)
include h

theorem keepsProper_blockBody : KeepsProper (blockBody statement) Any :=
  (KeepsProper.of_tokens tokensOnly_remaining).bind fun bound _ =>
    h.repeatUntil tokensOnly_blockEnds bound

theorem keepsProper_block (loc : Location) : KeepsProper (blockRest statement loc) Any :=
  (keepsProper_inScope (keepsProper_blockBody h)).bind fun _ _ =>
    (KeepsProper.of_tokens (tokensOnly_expect _)).bind fun _ _ => keepsProper_addStmt _ loc

theorem keepsProper_if (loc : Location) : KeepsProper (ifRest statement loc) Any := by
  refine (KeepsProper.of_tokens (tokensOnly_expect _)).bind fun _ _ => ?_
  refine keepsProper_expression.bind fun condition _ => ?_
  refine (KeepsProper.of_tokens (tokensOnly_expect _)).bind fun _ _ => ?_
  refine h.bind fun thenBranch _ =>
    (KeepsProper.of_tokens (tokensOnly_accept _)).bind fun found _ => .ite ?_ ?_
  · exact h.some.bind fun elseBranch _ => keepsProper_addStmt _ loc
  · exact keepsProper_addStmt _ loc

theorem keepsProper_while (loc : Location) : KeepsProper (whileRest statement loc) Any := by
  refine (KeepsProper.of_tokens (tokensOnly_expect _)).bind fun _ _ => ?_
  refine keepsProper_expression.bind fun condition _ => ?_
  refine (KeepsProper.of_tokens (tokensOnly_expect _)).bind fun _ _ => ?_
  exact h.bind fun body _ => keepsProper_addStmt _ loc

omit h in
theorem keepsProper_forInit : KeepsProper forInit Any := by
  refine (KeepsProper.of_tokens tokensOnly_here).bind fun loc _ => ?_
  refine (KeepsProper.of_tokens (tokensOnly_accept _)).bind fun semicolon _ =>
    .ite (.pure trivial) ?_
  refine (KeepsProper.of_tokens tokensOnly_startsType).bind fun type _ => .ite ?_ ?_
  · exact keepsProper_localDeclaration.bind fun ds _ => (keepsProper_addStmt _ loc).some
  · exact keepsProper_expression.bind fun e _ =>
      (KeepsProper.of_tokens (tokensOnly_expect _)).bind fun _ _ => (keepsProper_addStmt _ loc).some

theorem keepsProper_for (loc : Location) : KeepsProper (forRest statement loc) Any := by
  apply keepsProper_inScope
  refine (KeepsProper.of_tokens (tokensOnly_expect _)).bind fun _ _ => ?_
  refine keepsProper_forInit.bind fun init _ =>
    (keepsProper_expressionUnless _).bind fun condition _ => ?_
  refine (KeepsProper.of_tokens (tokensOnly_expect _)).bind fun _ _ => ?_
  refine (keepsProper_expressionUnless _).bind fun increment _ => ?_
  refine (KeepsProper.of_tokens (tokensOnly_expect _)).bind fun _ _ => ?_
  exact h.bind fun body _ => keepsProper_addStmt _ loc

omit h in
theorem keepsProper_return (loc : Location) : KeepsProper (returnRest loc) Any :=
  (keepsProper_expressionUnless _).bind fun _ _ =>
    (KeepsProper.of_tokens (tokensOnly_expect _)).bind fun _ _ => keepsProper_addStmt _ loc

/-- A statement keeps the program proper if the statements in it do. -/
theorem keepsProper_statementStep : KeepsProper (statementStep statement) Any := by
  refine (KeepsProper.of_tokens tokensOnly_here).bind fun loc _ => ?_
  refine (KeepsProper.of_tokens (tokensOnly_accept _)).bind fun _ _ =>
    .ite (keepsProper_block h loc) ?_
  refine (KeepsProper.of_tokens (tokensOnly_accept _)).bind fun _ _ =>
    .ite (keepsProper_return loc) ?_
  refine (KeepsProper.of_tokens (tokensOnly_accept _)).bind fun _ _ =>
    .ite (keepsProper_if h loc) ?_
  refine (KeepsProper.of_tokens (tokensOnly_accept _)).bind fun _ _ =>
    .ite (keepsProper_while h loc) ?_
  refine (KeepsProper.of_tokens (tokensOnly_accept _)).bind fun _ _ =>
    .ite (keepsProper_for h loc) ?_
  refine (KeepsProper.of_tokens (tokensOnly_accept _)).bind fun _ _ =>
    .ite (keepsProper_addStmt _ loc) ?_
  refine (KeepsProper.of_tokens tokensOnly_startsType).bind fun _ _ => .ite ?_ ?_
  · exact keepsProper_localDeclaration.bind fun ds _ => keepsProper_addStmt _ loc
  · exact keepsProper_expression.bind fun e _ =>
      (KeepsProper.of_tokens (tokensOnly_expect _)).bind fun _ _ => keepsProper_addStmt _ loc

end Statements

/-- Statements keep the program proper, to whatever depth they nest. -/
theorem keepsProper_statementWithin (bound : Nat) : KeepsProper (statementWithin bound) Any := by
  induction bound with
  | zero => exact reads_unexpected
  | succ bound ih => exact keepsProper_statementStep ih

theorem keepsProper_functionStatements : KeepsProper functionStatements Any :=
  (KeepsProper.of_tokens tokensOnly_remaining).bind fun bound _ =>
    keepsProper_blockBody (keepsProper_statementWithin bound)

/-! ## Functions -/

/-- A parameter has any type but that of a function. -/
theorem keepsProper_parameterType {type : CType} (h : type.IsPlain) :
    KeepsProper (parameterType type) fun type => type.isFunction = false := by
  refine (KeepsProper.of_tokens (tokensOnly_accept _)).bind fun found _ =>
    .ite ?_ (.pure h.isVariable.object)
  refine (KeepsProper.of_tokens tokensOnly_peek).bind fun size _ => ?_
  have hclose (length : Nat) : KeepsProper (do
      expect .parameterArrayClose
      return type.withLength length) fun type => type.isFunction = false :=
    (KeepsProper.of_tokens (tokensOnly_expect _)).bind fun _ _ => .pure (h.withLength length).1
  dsimp only
  split
  · exact (KeepsProper.of_tokens tokensOnly_advance).bind fun _ _ => hclose _
  · exact hclose 0

/-- A parameter is refused if it is `void`, and never has an initialiser. -/
theorem keepsProper_parameter : KeepsProper parameter Any := by
  refine keepsProper_typeName.bind fun type htype => ?_
  refine (KeepsProper.of_tokens tokensOnly_here).bind fun loc _ => ?_
  refine (KeepsProper.of_tokens tokensOnly_parameterName).bind fun name _ => ?_
  refine (keepsProper_parameterType htype).bind fun type hobject s hs => ?_
  dsimp only
  split
  · exact ensures_bind.2 ensures_fail
  next hvoid =>
  have hnew : DeclKind.ProperVariable type none .param :=
    ⟨hobject, Bool.eq_false_iff.2 hvoid, fun h => (h rfl).elim, fun _ => rfl, fun _ => rfl⟩
  refine ensures_bind.2 (ensures_addDecl.2 ?_)
  dsimp only
  split
  · exact ⟨hs.addVariable hnew name loc _, trivial⟩
  · exact ensures_bind.2 (ensures_declare ⟨hs.addVariable hnew name loc _, trivial⟩)

theorem keepsProper_parameters : KeepsProper parameters Any := by
  refine (KeepsProper.of_tokens (tokensOnly_check _)).bind fun _ _ => .ite (.pure trivial) ?_
  refine (KeepsProper.of_tokens tokensOnly_startsVoidList).bind fun _ _ =>
    .ite ?_ keepsProper_parameter.commaSeparated
  exact (KeepsProper.of_tokens tokensOnly_advance).bind fun _ _ => .pure trivial

theorem keepsProper_functionDecl (returnType : CType) (name : String) (loc : Location)
    (params : List DeclId) :
    KeepsProper (functionDecl returnType name loc params) Any := by
  intro s hs
  unfold functionDecl
  refine TokensOnly.ensures_bind (.of_same fun _ => rfl) fun found _ => ?_
  split
  · refine (tokensOnly_declOf _).ensures_bind fun decl _ => ?_
    split
    · exact ⟨hs, trivial⟩
    · exact ensures_bind.2 ensures_fail
  · refine ensures_bind.2 (ensures_addDecl.2 ?_)
    refine ⟨⟨⟨hs.tree.lt, hs.tree.unique, hs.tree.nodup⟩, ?_⟩, trivial⟩
    exact hs.decls.pushDecl (Decl.proper_of_isFunction rfl)

theorem proper_withParams {d : Decl} (h : d.Proper) (params : List DeclId) (loc : Location) :
    (d.withParams params loc).Proper := by
  unfold Decl.withParams
  split
  · exact Decl.proper_of_isFunction rfl
  · next hk =>
    intro type init storage hk'
    exact h type init storage hk'

theorem proper_withBody {d : Decl} (h : d.Proper) (body : StmtId) : (d.withBody body).Proper := by
  unfold Decl.withBody
  split
  · exact Decl.proper_of_isFunction rfl
  · exact h

/-- Of a function with a body only its own declaration is changed. -/
theorem keepsProper_functionBody (d : DeclId) (name : String) (loc opening : Location)
    (params : List DeclId) :
    KeepsProper (functionBody d name loc opening params) Any := by
  intro s hs
  refine (tokensOnly_declOf d).ensures_bind fun decl _ => ?_
  dsimp only
  split
  · exact ensures_bind.2 ensures_fail
  · have hparams := hs.modifyDecl (proper_withParams (hs.decls d) params loc) s.scopes
    refine ensures_bind.2 (keepsProper_functionStatements.ensures_bind hparams
      fun statements t ht => ?_)
    refine (tokensOnly_expect _).ensures_bind fun _ _ => ensures_bind.2 ?_
    have hadded : Proper ⟨(t.program.pushStmt ⟨.block statements, opening⟩).1, t.scopes⟩ :=
      ht.1.of_eq rfl rfl
    exact ⟨hadded.modifyDecl (proper_withBody (hadded.decls d) _) t.scopes, trivial⟩

theorem keepsProper_functionRest (returnType : CType) (name : String) (loc : Location) :
    KeepsProper (functionRest returnType name loc) Any := by
  apply keepsProper_inScope
  refine keepsProper_parameters.bind fun params _ => ?_
  refine (KeepsProper.of_tokens (tokensOnly_expect _)).bind fun _ _ => ?_
  refine (keepsProper_functionDecl returnType name loc params).bind fun d _ => ?_
  refine (KeepsProper.of_tokens tokensOnly_here).bind fun opening _ => ?_
  refine (KeepsProper.of_tokens (tokensOnly_accept _)).bind fun _ _ => .ite ?_ ?_
  · exact keepsProper_functionBody d name loc opening params
  · exact .of_tokens (tokensOnly_expect _)

/-! ## Files -/

theorem keepsProper_topLevel : KeepsProper topLevel Any := by
  have hitems (ds : List DeclId) : KeepsProper (ds.forM fun d => addItem (.variable d)) Any := by
    induction ds with
    | nil => exact .pure trivial
    | cons d ds ih =>
      have hitem : KeepsProper (addItem (.variable d)) Any :=
        fun _ hs => ⟨hs.of_eq rfl rfl, trivial⟩
      exact hitem.bind fun _ _ => ih
  have hglobal : Storage.global ≠ .param := nofun
  refine (KeepsProper.of_tokens (tokensOnly_accept _)).bind fun _ _ => ?_
  refine keepsProper_baseType.bind fun base hbase =>
    (keepsProper_stars hbase).bind fun type htype => ?_
  refine (KeepsProper.of_tokens tokensOnly_here).bind fun loc _ => ?_
  refine (KeepsProper.of_tokens tokensOnly_identifier).bind fun name _ => ?_
  refine (KeepsProper.of_tokens (tokensOnly_accept _)).bind fun _ _ => .ite ?_ ?_
  · exact keepsProper_functionRest type name loc
  · refine (keepsProper_variableRest htype name loc hglobal).bind fun first _ => ?_
    exact (keepsProper_otherDeclarators hbase hglobal).bind fun others _ => hitems (first :: others)

/-- A file that is read adds proper declarations only. -/
theorem keepsProper_translationUnit : KeepsProper translationUnit Any := by
  have hatEnd : TokensOnly atEnd := .of_same fun _ => rfl
  refine (KeepsProper.of_tokens tokensOnly_remaining).bind fun bound _ => ?_
  exact (keepsProper_topLevel.repeatUntil hatEnd bound).bind fun _ _ => .pure trivial

/-- Nothing is declared at first. -/
theorem proper_start (stream : TokenStream) : Proper (ParserState.start stream).built where
  tree := Program.tree_empty
  decls d := by
    have hdefault : Program.empty.decl d = default := by
      simp [Program.empty, Program.decl, Array.getD]
    change (Program.empty.decl d).Proper
    rw [hdefault]
    exact Decl.proper_default

end Parser

namespace Program

/-- Every declaration of a program that a text writes is proper. -/
theorem properDecls_of_parse {source : String} {p : Program} (h : parse source = .ok p) :
    p.ProperDecls := by
  unfold parse at h
  split at h
  · next stream _ =>
    unfold ofTokens Except.map at h
    split at h
    · cases h
    · next result hresult =>
      cases h
      have hread := Parser.keepsProper_translationUnit _ (Parser.proper_start stream)
      exact (hread.of_ok hresult).1.decls
  · cases h

/-- Every variable of a program that a text writes has a type with values. -/
theorem type_of_parse {source : String} {p : Program} (h : parse source = .ok p)
    {d : DeclId} {type : CType}
    {init : Option ExprId} {storage : Storage}
    (hk : (p.decl d).kind = .variable type init storage) :
    type.isInteger = true ∨ type.isPointer = true ∨ type.isArray = true := by
  have hproper := properDecls_of_parse h d type init storage hk
  exact CType.hasValues_of_proper hproper.object hproper.notVoid

end Program

end MiniC
