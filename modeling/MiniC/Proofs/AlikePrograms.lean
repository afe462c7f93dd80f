import Mathlib.Data.List.Forall2
import MiniC.Proofs.AddedParentheses
import MiniC.Proofs.ScopeTables

/-!
# Programs that differ in parentheses

Two programs are alike if they have the same declarations and statements and the same expressions,
except that one of two expressions may have a pair of parentheses around it.
`Parenthesised.ExprAlike` is the largest relation between the expressions of two programs that goes
on from expressions to their operands; what becomes of the value of an expression is carried along
as its `Demand`. Expressions that are alike stay so while the programs grow (`Parenthesised.Keeps`).
-/

set_option autoImplicit false

namespace MiniC.Parenthesised

variable {aim : Aim} {p p' q q' : Program} {c : Demand} {e e' : ExprId}

/-! ## Forms of expressions -/

/-- Expressions of the same form, whose operands are related. -/
inductive KindAlike (R : Demand → ExprId → ExprId → Prop) (c : Demand) (type : CType) :
    ExprKind → ExprKind → Prop
  | intLiteral (value : Int32) : KindAlike R c type (.intLiteral value) (.intLiteral value)
  | declRef (d : DeclId) : KindAlike R c type (.declRef d) (.declRef d)
  | unary (op : UnaryOp) {operand operand' : ExprId} : R (c.operand op) operand operand' →
      KindAlike R c type (.unary op operand) (.unary op operand')
  | binary (op : BinaryOp) {lhs lhs' rhs rhs' : ExprId} :
    R (c.lhs op) lhs lhs' → R (c.rhs op) rhs rhs' →
      KindAlike R c type (.binary op lhs rhs) (.binary op lhs' rhs')
  | call (callee : DeclId) {args args' : List ExprId} : List.Forall₂ (R c.arg) args args' →
      KindAlike R c type (.call callee args) (.call callee args')
  | subscript {base base' index index' : ExprId} : R c.base base base' → R c.index index index' →
      KindAlike R c type (.subscript base index) (.subscript base' index')
  | cast {operand operand' : ExprId} : R (c.casted type) operand operand' →
      KindAlike R c type (.cast operand) (.cast operand')
  | paren {inner inner' : ExprId} : R c.paren inner inner' →
      KindAlike R c type (.paren inner) (.paren inner')
  | sizeOf (sized : CType) : KindAlike R c type (.sizeOf sized) (.sizeOf sized)

section KindAlike

variable {R R' : Demand → ExprId → ExprId → Prop} {type : CType} {kind kind' : ExprKind}

theorem KindAlike.mono (h : KindAlike R c type kind kind') (hR : ∀ c e e', R c e e' → R' c e e') :
    KindAlike R' c type kind kind' := by
  cases h with
  | intLiteral value => exact .intLiteral value
  | declRef d => exact .declRef d
  | unary op ho => exact .unary op (hR _ _ _ ho)
  | binary op hl hr => exact .binary op (hR _ _ _ hl) (hR _ _ _ hr)
  | call callee hargs => exact .call callee (hargs.imp fun _ _ => hR _ _ _)
  | subscript hb hi => exact .subscript (hR _ _ _ hb) (hR _ _ _ hi)
  | cast ho => exact .cast (hR _ _ _ ho)
  | paren hi => exact .paren (hR _ _ _ hi)
  | sizeOf sized => exact .sizeOf sized

/-- Likeness of forms has no direction if that of the operands has none. -/
theorem KindAlike.symm (h : KindAlike R c type kind kind') (hR : ∀ c e e', R c e e' → R' c e' e) :
    KindAlike R' c type kind' kind := by
  cases h with
  | intLiteral value => exact .intLiteral value
  | declRef d => exact .declRef d
  | unary op ho => exact .unary op (hR _ _ _ ho)
  | binary op hl hr => exact .binary op (hR _ _ _ hl) (hR _ _ _ hr)
  | call callee hargs => exact .call callee (hargs.imp fun _ _ => hR _ _ _).flip
  | subscript hb hi => exact .subscript (hR _ _ _ hb) (hR _ _ _ hi)
  | cast ho => exact .cast (hR _ _ _ ho)
  | paren hi => exact .paren (hR _ _ _ hi)
  | sizeOf sized => exact .sizeOf sized

end KindAlike

/-! ## Parentheses -/

/-- A function is not one of those that give nothing back. -/
def GivesBack (p : Program) (d : DeclId) : Prop :=
  (p.decl d).name ≠ Builtin.print.name ∧ (p.decl d).name ≠ Builtin.free.name

/-- An expression has a value whenever it is evaluated. -/
def Yields (p : Program) (e : ExprId) : Prop :=
  match (p.expr e).kind with
  | .call callee _ => callee.index < p.decls.size ∧ GivesBack p callee
  | .cast _ => (p.expr e).type.isVoid = false
  | _ => True

/-- Parentheses around an expression do not ask for a value that it does not have, or not before it
would be asked for anyway. -/
def Enclosable (p : Program) (c : Demand) (e : ExprId) : Prop :=
  Yields p e ∨ c ≠ .later ∧ (p.expr e).type.isArray = false

/-- An expression is a pair of parentheses around another one. -/
structure IsParen (p : Program) (e inner : ExprId) : Prop where
  lt : e.index < p.exprs.size
  kind : (p.expr e).kind = .paren inner
  type : (p.expr e).type = (p.expr inner).type

/-- Expressions of the same type and form, whose operands are related. -/
structure NodeAlike (R : Demand → ExprId → ExprId → Prop) (p p' : Program)
    (c : Demand) (e e' : ExprId) :
    Prop where
  lt : e.index < p.exprs.size
  lt' : e'.index < p'.exprs.size
  type : (p'.expr e').type = (p.expr e).type
  kind : KindAlike R c (p.expr e).type (p.expr e).kind (p'.expr e').kind

/-- The same for expressions one of which may have parentheses around it. -/
inductive EnclosedAlike (R : Demand → ExprId → ExprId → Prop) (p p' : Program)
    (c : Demand) (e e' : ExprId) :
    Prop where
  | node (h : NodeAlike R p p' c e e')
  | left {inner : ExprId} (hparen : IsParen p e inner) (h : NodeAlike R p p' c inner e')
      (hother : Enclosable p' c e')
  | right {inner : ExprId} (hparen : IsParen p' e' inner) (h : NodeAlike R p p' c e inner)
      (hother : Enclosable p c e)

theorem NodeAlike.mono {R R' : Demand → ExprId → ExprId → Prop} (h : NodeAlike R p p' c e e')
    (hR : ∀ c e e', R c e e' → R' c e e') : NodeAlike R' p p' c e e' :=
  { h with kind := h.kind.mono hR }

theorem NodeAlike.symm {R R' : Demand → ExprId → ExprId → Prop} (h : NodeAlike R p p' c e e')
    (hR : ∀ c e e', R c e e' → R' c e' e) : NodeAlike R' p' p c e' e where
  lt := h.lt'
  lt' := h.lt
  type := h.type.symm
  kind := by
    rw [h.type]
    exact h.kind.symm hR

theorem EnclosedAlike.mono {R R' : Demand → ExprId → ExprId → Prop}
    (h : EnclosedAlike R p p' c e e')
    (hR : ∀ c e e', R c e e' → R' c e e') : EnclosedAlike R' p p' c e e' := by
  cases h with
  | node h => exact .node (h.mono hR)
  | left hparen h hother => exact .left hparen (h.mono hR) hother
  | right hparen h hother => exact .right hparen (h.mono hR) hother

theorem EnclosedAlike.type {R : Demand → ExprId → ExprId → Prop} (h : EnclosedAlike R p p' c e e') :
    (p'.expr e').type = (p.expr e).type := by
  cases h with
  | node h => exact h.type
  | left hparen h => rw [hparen.type, h.type]
  | right hparen h => rw [hparen.type, h.type]

/-- Two expressions are the same, except for parentheses around them and around expressions inside
them. -/
def ExprAlike (p p' : Program) (c : Demand) (e e' : ExprId) : Prop :=
  ∃ R, (∀ c e e', R c e e' → EnclosedAlike R p p' c e e') ∧ R c e e'

/-- Expressions that are alike are so by their outermost nodes and the likeness of what is inside.
-/
theorem ExprAlike.enclosed (h : ExprAlike p p' c e e') :
    EnclosedAlike (ExprAlike p p') p p' c e e' := by
  obtain ⟨R, hclosed, hR⟩ := h
  exact (hclosed c e e' hR).mono fun c e e' hR => ⟨R, hclosed, hR⟩

/-- To be alike it is enough to be so by the outermost nodes. -/
theorem ExprAlike.of_enclosed (h : EnclosedAlike (ExprAlike p p') p p' c e e') :
    ExprAlike p p' c e e' :=
  ⟨EnclosedAlike (ExprAlike p p') p p', fun _ _ _ h => h.mono fun _ _ _ h => h.enclosed, h⟩

theorem EnclosedAlike.symm {R R' : Demand → ExprId → ExprId → Prop}
    (h : EnclosedAlike R p p' c e e')
    (hR : ∀ c e e', R c e e' → R' c e' e) : EnclosedAlike R' p' p c e' e := by
  cases h with
  | node h => exact .node (h.symm hR)
  | left hparen h hother => exact .right hparen (h.symm hR) hother
  | right hparen h hother => exact .left hparen (h.symm hR) hother

/-- It does not matter which of the two expressions has the parentheses. -/
theorem ExprAlike.symm (h : ExprAlike p p' c e e') : ExprAlike p' p c e' e := by
  obtain ⟨R, hclosed, hR⟩ := h
  exact ⟨fun c e' e => R c e e', fun c e' e h => (hclosed c e e' h).symm fun _ _ _ h => h, hR⟩

/-- Parentheses have the type of what is inside, so expressions that are alike have the same type.
-/
theorem ExprAlike.type (h : ExprAlike p p' c e e') : (p'.expr e').type = (p.expr e).type :=
  h.enclosed.type

/-! ## Programs that grow -/

/-- Expressions stay as they are, and declarations keep their names, kinds and types. -/
structure Keeps (p q : Program) : Prop extends Written.KeepsDecls p q where
  type : ∀ {d : DeclId}, d.index < p.decls.size → (q.decl d).type = (p.decl d).type
  exprs : p.exprs.size ≤ q.exprs.size
  expr : ∀ {e : ExprId}, e.index < p.exprs.size → q.expr e = p.expr e

/-- A program with the same expressions and declarations. -/
theorem Keeps.of_eq (hdecls : q.decls = p.decls) (hexprs : q.exprs = p.exprs) : Keeps p q :=
  { Written.keepsDecls_of_eq hdecls with
    type := fun _ => by rw [Program.decl, Program.decl, hdecls]
    exprs := Nat.le_of_eq (by rw [hexprs])
    expr := fun _ => by rw [Program.expr, Program.expr, hexprs] }

theorem Keeps.refl (p : Program) : Keeps p p := .of_eq rfl rfl

theorem Keeps.trans {r : Program} (hq : Keeps p q) (hr : Keeps q r) : Keeps p r where
  size := Nat.le_trans hq.size hr.size
  name hd := by rw [hr.name (Nat.lt_of_lt_of_le hd hq.size), hq.name hd]
  isFunction hd := by rw [hr.isFunction (Nat.lt_of_lt_of_le hd hq.size), hq.isFunction hd]
  loc hd hf := by
    rw [hr.loc (Nat.lt_of_lt_of_le hd hq.size) ((hq.isFunction hd).trans hf), hq.loc hd hf]
  type hd := by rw [hr.type (Nat.lt_of_lt_of_le hd hq.size), hq.type hd]
  exprs := Nat.le_trans hq.exprs hr.exprs
  expr he := by rw [hr.expr (Nat.lt_of_lt_of_le he hq.exprs), hq.expr he]

/-- A new expression leaves those that are there. -/
theorem keeps_pushExpr (p : Program) (node : Expr) : Keeps p (p.pushExpr node).1 :=
  { Written.keepsDecls_of_eq rfl with
    type := fun _ => rfl
    exprs := by simp [Program.pushExpr]
    expr := fun he => Program.expr_pushExpr_of_lt p node he }

theorem keeps_pushStmt (p : Program) (stmt : Stmt) : Keeps p (p.pushStmt stmt).1 := .of_eq rfl rfl

theorem keeps_pushItem (p : Program) (item : Item) : Keeps p (p.pushItem item) := .of_eq rfl rfl

/-- A new declaration leaves those that are there. -/
theorem keeps_pushDecl (p : Program) (d : Decl) : Keeps p (p.pushDecl d).1 :=
  { Written.keepsDecls_pushDecl p d with
    type := fun hd => by rw [Program.decl_pushDecl_of_lt p d hd]
    exprs := Nat.le_refl _
    expr := fun _ => rfl }

/-- A declaration may be changed as long as its name, its type and its being a function stay. -/
theorem keeps_modifyDecl (p : Program) {d : DeclId} {f : Decl → Decl}
    (hname : (f (p.decl d)).name = (p.decl d).name)
    (hkind : (f (p.decl d)).isFunction = (p.decl d).isFunction)
    (hloc : (p.decl d).isFunction = false → (f (p.decl d)).loc = (p.decl d).loc)
    (htype : (f (p.decl d)).type = (p.decl d).type) : Keeps p (p.modifyDecl d f) :=
  { Written.keepsDecls_modifyDecl p hname hkind hloc with
    type := fun {id} hid => by
      by_cases heq : id = d
      · subst heq
        rw [Program.decl_modifyDecl_self p f hid, htype]
      · rw [Program.decl_modifyDecl_of_ne p f heq]
    exprs := Nat.le_refl _
    expr := fun _ => rfl }

/-- An initialiser is nothing that has to be kept. -/
theorem keeps_withInit (p : Program) (d : DeclId) (e : ExprId) :
    Keeps p (p.modifyDecl d (Decl.withInit e)) := by
  apply keeps_modifyDecl <;> rcases p.decl d with ⟨_, _ | _, _⟩ <;> intros <;> rfl

/-- The parameters of a function are nothing that has to be kept. -/
theorem keeps_withParams (p : Program) {d : DeclId} (hd : (p.decl d).isFunction = true)
    (params : List DeclId)
    (loc : Location) : Keeps p (p.modifyDecl d (Decl.withParams params loc)) := by
  refine keeps_modifyDecl p ?_ ?_ (fun h => absurd (hd.symm.trans h) (by decide)) ?_ <;>
    rcases p.decl d with ⟨_, _ | _, _⟩ <;> rfl

/-- The body of a function is nothing that has to be kept. -/
theorem keeps_withBody (p : Program) (d : DeclId) (body : StmtId) :
    Keeps p (p.modifyDecl d (Decl.withBody body)) := by
  apply keeps_modifyDecl <;> rcases p.decl d with ⟨_, _ | _, _⟩ <;> intros <;> rfl

/-- An expression that has a value still has one when nodes are added. -/
theorem Yields.keeps (h : Yields p e) (hq : Keeps p q) (he : e.index < p.exprs.size) :
    Yields q e := by
  rw [Yields, hq.expr he]
  rw [Yields] at h
  split at h
  · exact ⟨Nat.lt_of_lt_of_le h.1 hq.size, by rw [GivesBack, hq.name h.1]; exact h.2⟩
  · exact h
  · trivial

/-- Parentheses that do no harm still do none when nodes are added. -/
theorem Enclosable.keeps (h : Enclosable p c e) (hq : Keeps p q) (he : e.index < p.exprs.size) :
    Enclosable q c e := by
  rw [Enclosable, hq.expr he]
  exact h.imp_left (·.keeps hq he)

theorem IsParen.keeps {inner : ExprId} (h : IsParen p e inner) (hq : Keeps p q)
    (hinner : inner.index < p.exprs.size) : IsParen q e inner where
  lt := Nat.lt_of_lt_of_le h.lt hq.exprs
  kind := by rw [hq.expr h.lt, h.kind]
  type := by rw [hq.expr h.lt, hq.expr hinner, h.type]

theorem NodeAlike.keeps {R : Demand → ExprId → ExprId → Prop}
    (h : NodeAlike R p p' c e e') (hq : Keeps p q)
    (hq' : Keeps p' q') : NodeAlike R q q' c e e' where
  lt := Nat.lt_of_lt_of_le h.lt hq.exprs
  lt' := Nat.lt_of_lt_of_le h.lt' hq'.exprs
  type := by rw [hq.expr h.lt, hq'.expr h.lt', h.type]
  kind := by
    rw [hq.expr h.lt, hq'.expr h.lt']
    exact h.kind

theorem EnclosedAlike.keeps {R : Demand → ExprId → ExprId → Prop} (h : EnclosedAlike R p p' c e e')
    (hq : Keeps p q) (hq' : Keeps p' q') : EnclosedAlike R q q' c e e' := by
  cases h with
  | node h => exact .node (h.keeps hq hq')
  | left hparen h hother =>
    exact .left (hparen.keeps hq h.lt) (h.keeps hq hq') (hother.keeps hq' h.lt')
  | right hparen h hother =>
    exact .right (hparen.keeps hq' h.lt') (h.keeps hq hq') (hother.keeps hq h.lt)

/-- Expressions stay alike when nodes are added to both programs. -/
theorem ExprAlike.keeps (h : ExprAlike p p' c e e') (hq : Keeps p q) (hq' : Keeps p' q') :
    ExprAlike q q' c e e' := by
  obtain ⟨R, hclosed, hR⟩ := h
  exact ⟨R, fun c e e' h => (hclosed c e e' h).keeps hq hq', hR⟩

/-! ## Statements and declarations -/

/-- Expressions that may be missing, and are the same except for parentheses. -/
abbrev OptionAlike (p p' : Program) (c : Demand) : Option ExprId → Option ExprId → Prop :=
  Option.Rel (ExprAlike p p' c)

/-- Statements are the same except for parentheses in their expressions. -/
inductive StmtAlike (aim : Aim) (p p' : Program) : StmtKind → StmtKind → Prop
  | block (body : List StmtId) : StmtAlike aim p p' (.block body) (.block body)
  | declare (ds : List DeclId) : StmtAlike aim p p' (.declare ds) (.declare ds)
  | expr {e e' : ExprId} : ExprAlike p p' (aim.demand .later) e e' →
    StmtAlike aim p p' (.expr e) (.expr e')
  | ifElse {c c' : ExprId} (thenBranch : StmtId) (elseBranch : Option StmtId) :
    ExprAlike p p' (aim.demand .next) c c' →
      StmtAlike aim p p' (.ifElse c thenBranch elseBranch) (.ifElse c' thenBranch elseBranch)
  | whileLoop {c c' : ExprId} (body : StmtId) : ExprAlike p p' (aim.demand .next) c c' →
      StmtAlike aim p p' (.whileLoop c body) (.whileLoop c' body)
  | forLoop (init : Option StmtId) {c c' i i' : Option ExprId} (body : StmtId) :
      OptionAlike p p' (aim.demand .next) c c' → OptionAlike p p' (aim.demand .later) i i' →
      StmtAlike aim p p' (.forLoop init c i body) (.forLoop init c' i' body)
  | ret {value value' : Option ExprId} : OptionAlike p p' (aim.demand .next) value value' →
      StmtAlike aim p p' (.ret value) (.ret value')
  | empty : StmtAlike aim p p' .empty .empty

/-- Declarations are the same except for parentheses in initialisers, which arrays do not have. -/
inductive DeclAlike (aim : Aim) (p p' : Program) : DeclKind → DeclKind → Prop
  | variable (type : CType) {init init' : Option ExprId} (storage : Storage) :
      OptionAlike p p' (aim.demand .next) init init' → (init.isSome = true → type.length? = none) →
      DeclAlike aim p p' (.variable type init storage) (.variable type init' storage)
  | function (returnType : CType) (params : List DeclId) (body : Option StmtId) :
      DeclAlike aim p p' (.function returnType params body) (.function returnType params body)

theorem OptionAlike.symm {o o' : Option ExprId} (h : OptionAlike p p' c o o') :
    OptionAlike p' p c o' o := by
  cases h with
  | none => exact .none
  | some h => exact .some h.symm

theorem OptionAlike.keeps {o o' : Option ExprId} (h : OptionAlike p p' c o o') (hq : Keeps p q)
    (hq' : Keeps p' q') : OptionAlike q q' c o o' := by
  cases h with
  | none => exact .none
  | some h => exact .some (h.keeps hq hq')

theorem StmtAlike.symm {kind kind' : StmtKind} (h : StmtAlike aim p p' kind kind') :
    StmtAlike aim p' p kind' kind := by
  cases h with
  | block body => exact .block body
  | declare ds => exact .declare ds
  | expr h => exact .expr h.symm
  | ifElse t e h => exact .ifElse t e h.symm
  | whileLoop body h => exact .whileLoop body h.symm
  | forLoop init body hc hi => exact .forLoop init body hc.symm hi.symm
  | ret h => exact .ret h.symm
  | empty => exact .empty

/-- Statements stay alike when nodes are added to both programs. -/
theorem StmtAlike.keeps {kind kind' : StmtKind} (h : StmtAlike aim p p' kind kind') (hq : Keeps p q)
    (hq' : Keeps p' q') : StmtAlike aim q q' kind kind' := by
  cases h with
  | block body => exact .block body
  | declare ds => exact .declare ds
  | expr h => exact .expr (h.keeps hq hq')
  | ifElse t e h => exact .ifElse t e (h.keeps hq hq')
  | whileLoop body h => exact .whileLoop body (h.keeps hq hq')
  | forLoop init body hc hi => exact .forLoop init body (hc.keeps hq hq') (hi.keeps hq hq')
  | ret h => exact .ret (h.keeps hq hq')
  | empty => exact .empty

theorem DeclAlike.symm {kind kind' : DeclKind} (h : DeclAlike aim p p' kind kind') :
    DeclAlike aim p' p kind' kind := by
  cases h with
  | «variable» type storage h harray =>
    refine .variable type storage h.symm fun hsome => harray ?_
    cases h with
    | none => cases hsome
    | some h => rfl
  | function returnType params body => exact .function returnType params body

theorem DeclAlike.keeps {kind kind' : DeclKind} (h : DeclAlike aim p p' kind kind') (hq : Keeps p q)
    (hq' : Keeps p' q') : DeclAlike aim q q' kind kind' := by
  cases h with
  | «variable» type storage h harray => exact .variable type storage (h.keeps hq hq') harray
  | function returnType params body => exact .function returnType params body

/-- Initialisers that are alike may be added, unless the variable is an array. -/
theorem DeclAlike.withInit {d d' : Decl} (h : DeclAlike aim p p' d.kind d'.kind)
    (he : ExprAlike p p' (aim.demand .next) e e') (hlength : d.type.length? = none) :
    DeclAlike aim p p' (d.withInit e).kind (d'.withInit e').kind := by
  obtain ⟨_, kind, _⟩ := d
  obtain ⟨_, kind', _⟩ := d'
  cases h with
  | «variable» type storage _ _ => exact .variable type storage (.some he) fun _ => hlength
  | function returnType params body => exact .function returnType params body

/-- The same parameters may be given to both functions. -/
theorem DeclAlike.withParams {d d' : Decl} (h : DeclAlike aim p p' d.kind d'.kind)
    (params : List DeclId)
    (loc loc' : Location) :
    DeclAlike aim p p' (d.withParams params loc).kind (d'.withParams params loc').kind := by
  obtain ⟨_, kind, _⟩ := d
  obtain ⟨_, kind', _⟩ := d'
  cases h with
  | «variable» type storage h harray => exact .variable type storage h harray
  | function returnType _ body => exact .function returnType params body

/-- The same body may be given to both functions. -/
theorem DeclAlike.withBody {d d' : Decl} (h : DeclAlike aim p p' d.kind d'.kind) (body : StmtId) :
    DeclAlike aim p p' (d.withBody body).kind (d'.withBody body).kind := by
  obtain ⟨_, kind, _⟩ := d
  obtain ⟨_, kind', _⟩ := d'
  cases h with
  | «variable» type storage h harray => exact .variable type storage h harray
  | function returnType params _ => exact .function returnType params (some body)

/-! ## Programs -/

/-- Programs that are the same except for parentheses. -/
structure ProgramAlike (aim : Aim) (p p' : Program) : Prop where
  stmts : p'.stmts.size = p.stmts.size
  stmt : ∀ id, StmtAlike aim p p' (p.stmt id).kind (p'.stmt id).kind
  decls : p'.decls.size = p.decls.size
  decl : ∀ d, DeclAlike aim p p' (p.decl d).kind (p'.decl d).kind
  name : ∀ d, (p'.decl d).name = (p.decl d).name
  items : p'.items = p.items

/-- It does not matter which of the two programs has the parentheses. -/
theorem ProgramAlike.symm (h : ProgramAlike aim p p') : ProgramAlike aim p' p where
  stmts := h.stmts.symm
  stmt id := (h.stmt id).symm
  decls := h.decls.symm
  decl d := (h.decl d).symm
  name d := (h.name d).symm
  items := h.items.symm

/-- A declaration has the same type in programs that are alike. -/
theorem ProgramAlike.type (h : ProgramAlike aim p p') (d : DeclId) :
    (p'.decl d).type = (p.decl d).type := by
  have hkind := h.decl d
  rw [Decl.type, Decl.type]
  generalize (p.decl d).kind = kind, (p'.decl d).kind = kind' at hkind
  cases hkind <;> rfl

/-- A declaration is a function in both programs or in none. -/
theorem ProgramAlike.isFunction (h : ProgramAlike aim p p') (d : DeclId) :
    (p'.decl d).isFunction = (p.decl d).isFunction := by
  have hkind := h.decl d
  rw [Decl.isFunction, Decl.isFunction]
  generalize (p.decl d).kind = kind, (p'.decl d).kind = kind' at hkind
  cases hkind <;> rfl

/-- A function is defined in both programs or in none. -/
theorem ProgramAlike.hasBody (h : ProgramAlike aim p p') (d : DeclId) :
    (p'.decl d).hasBody = (p.decl d).hasBody := by
  have hkind := h.decl d
  rw [Decl.hasBody, Decl.hasBody]
  generalize (p.decl d).kind = kind, (p'.decl d).kind = kind' at hkind
  cases hkind <;> rfl

/-- Two programs without nodes are alike. -/
theorem programAlike_empty : ProgramAlike aim .empty .empty where
  stmts := rfl
  stmt _ := .empty
  decls := rfl
  decl _ := .variable .int .global .none nofun
  name _ := rfl
  items := rfl

namespace ProgramAlike

variable (h : ProgramAlike aim p p')
include h

/-- Statements and declarations are as they were. -/
theorem of_same (hq : Keeps p q) (hq' : Keeps p' q') (hstmts : q.stmts = p.stmts)
    (hstmts' : q'.stmts = p'.stmts)
    (hdecls : q.decls = p.decls) (hdecls' : q'.decls = p'.decls) (hitems : q'.items = q.items) :
    ProgramAlike aim q q' where
  stmts := by rw [hstmts, hstmts', h.stmts]
  stmt id := by
    rw [Program.stmt, Program.stmt, hstmts, hstmts']
    exact (h.stmt id).keeps hq hq'
  decls := by rw [hdecls, hdecls', h.decls]
  decl d := by
    rw [Program.decl, Program.decl, hdecls, hdecls']
    exact (h.decl d).keeps hq hq'
  name d := by
    rw [Program.decl, Program.decl, hdecls, hdecls']
    exact h.name d
  items := hitems

/-- Any expressions may be added, as long as nothing refers to them. -/
theorem pushExpr (node node' : Expr) : ProgramAlike aim (p.pushExpr node).1 (p'.pushExpr node').1 :=
  h.of_same (keeps_pushExpr p node) (keeps_pushExpr p' node') rfl rfl rfl rfl h.items

/-- Only the second program gets an expression. -/
theorem pushExpr_right (node' : Expr) : ProgramAlike aim p (p'.pushExpr node').1 :=
  h.of_same (.refl p) (keeps_pushExpr p' node') rfl rfl rfl rfl h.items

theorem pushItem (item : Item) : ProgramAlike aim (p.pushItem item) (p'.pushItem item) :=
  h.of_same (keeps_pushItem p item) (keeps_pushItem p' item) rfl rfl rfl rfl
    (congrArg (·.push item) h.items)

/-- A statement that is added gets the same id in both programs. -/
theorem pushStmt_id (stmt stmt' : Stmt) : (p'.pushStmt stmt').2 = (p.pushStmt stmt).2 :=
  congrArg StmtId.mk h.stmts

/-- Statements that are alike may be added. -/
theorem pushStmt {stmt stmt' : Stmt} (hkind : StmtAlike aim p p' stmt.kind stmt'.kind) :
    ProgramAlike aim (p.pushStmt stmt).1 (p'.pushStmt stmt').1 where
  stmts := by simp [Program.pushStmt, h.stmts]
  stmt id := by
    by_cases hid : id = (p.pushStmt stmt).2
    · rw [hid, Program.stmt_pushStmt_self, ← h.pushStmt_id stmt stmt', Program.stmt_pushStmt_self]
      exact hkind.keeps (keeps_pushStmt p stmt) (keeps_pushStmt p' stmt')
    · have hid' : id ≠ (p'.pushStmt stmt').2 := h.pushStmt_id stmt stmt' ▸ hid
      rw [Program.stmt_pushStmt_of_ne p stmt hid, Program.stmt_pushStmt_of_ne p' stmt' hid']
      exact (h.stmt id).keeps (keeps_pushStmt p stmt) (keeps_pushStmt p' stmt')
  decls := h.decls
  decl d := (h.decl d).keeps (keeps_pushStmt p stmt) (keeps_pushStmt p' stmt')
  name := h.name
  items := h.items

theorem pushDecl_id (d d' : Decl) : (p'.pushDecl d').2 = (p.pushDecl d).2 :=
  congrArg DeclId.mk h.decls

/-- Declarations of the same name that are alike may be added. -/
theorem pushDecl {d d' : Decl} (hname : d'.name = d.name)
    (hkind : DeclAlike aim p p' d.kind d'.kind) :
    ProgramAlike aim (p.pushDecl d).1 (p'.pushDecl d').1 := by
  -- the new declarations have the same id, and the others are as they were
  have hboth (id : DeclId) : (id = (p.pushDecl d).2 ∧ (p.pushDecl d).1.decl id = d ∧
      (p'.pushDecl d').1.decl id = d') ∨
      ((p.pushDecl d).1.decl id = p.decl id ∧ (p'.pushDecl d').1.decl id = p'.decl id) := by
    by_cases hid : id = (p.pushDecl d).2
    · refine .inl ⟨hid, hid ▸ Program.decl_pushDecl_self p d, ?_⟩
      rw [hid, ← h.pushDecl_id d d', Program.decl_pushDecl_self]
    · have hid' : id ≠ (p'.pushDecl d').2 := h.pushDecl_id d d' ▸ hid
      exact .inr ⟨Program.decl_pushDecl_of_ne p d hid, Program.decl_pushDecl_of_ne p' d' hid'⟩
  exact {
    stmts := h.stmts
    stmt := fun id => (h.stmt id).keeps (keeps_pushDecl p d) (keeps_pushDecl p' d')
    decls := by simp [Program.pushDecl, h.decls]
    decl := fun id => by
      rcases hboth id with ⟨-, hd, hd'⟩ | ⟨hd, hd'⟩
      · rw [hd, hd']
        exact hkind.keeps (keeps_pushDecl p d) (keeps_pushDecl p' d')
      · rw [hd, hd']
        exact (h.decl id).keeps (keeps_pushDecl p d) (keeps_pushDecl p' d')
    name := fun id => by
      rcases hboth id with ⟨-, hd, hd'⟩ | ⟨hd, hd'⟩
      · rw [hd, hd', hname]
      · rw [hd, hd', h.name]
    items := h.items }

/-- A declaration may be changed in both programs if it stays alike. -/
theorem modifyDecl {d : DeclId} {f f' : Decl → Decl} (hq : Keeps p (p.modifyDecl d f))
    (hq' : Keeps p' (p'.modifyDecl d f'))
    (hkind : DeclAlike aim p p' (f (p.decl d)).kind (f' (p'.decl d)).kind) :
    ProgramAlike aim (p.modifyDecl d f) (p'.modifyDecl d f') := by
  have hboth (id : DeclId) : ((p.modifyDecl d f).decl id = f (p.decl d) ∧
      (p'.modifyDecl d f').decl id = f' (p'.decl d)) ∨
      ((p.modifyDecl d f).decl id = p.decl id ∧ (p'.modifyDecl d f').decl id = p'.decl id) := by
    by_cases hid : id = d
    · subst hid
      by_cases hlt : id.index < p.decls.size
      · exact .inl ⟨Program.decl_modifyDecl_self p f hlt,
          Program.decl_modifyDecl_self p' f' (h.decls ▸ hlt)⟩
      · refine .inr ⟨?_, ?_⟩ <;> simp [Program.decl, Program.modifyDecl, Array.getD, hlt, h.decls]
    · exact .inr ⟨Program.decl_modifyDecl_of_ne p f hid, Program.decl_modifyDecl_of_ne p' f' hid⟩
  exact {
    stmts := h.stmts
    stmt := fun id => (h.stmt id).keeps hq hq'
    decls := by rw [Program.size_modifyDecl, Program.size_modifyDecl, h.decls]
    decl := fun id => by
      rcases hboth id with ⟨hd, hd'⟩ | ⟨hd, hd'⟩
      · rw [hd, hd']
        exact hkind.keeps hq hq'
      · rw [hd, hd']
        exact (h.decl id).keeps hq hq'
    name := fun id => by
      by_cases hlt : id.index < p.decls.size
      · rw [hq.name hlt, hq'.name (h.decls ▸ hlt), h.name]
      · simp [Program.decl, Program.modifyDecl, Array.getD, hlt, h.decls]
    items := h.items }

end ProgramAlike

end MiniC.Parenthesised
