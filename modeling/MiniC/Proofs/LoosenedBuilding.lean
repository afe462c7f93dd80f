import MiniC.Proofs.AddedParentheses
import MiniC.Proofs.AlikeBuilding
import MiniC.Proofs.FileReading

/-!
# Programs of trees with more parentheses

A tree with more parentheses is built in step with the tree without them, expression by expression
(`Written.Expr.Loosened.leads_build`), and so for statements, functions and files: whenever a file
has a program, so has the file with more parentheses, and the programs are alike
(`Written.File.Loosened.ofTokens_alike`).
-/

set_option autoImplicit false

namespace MiniC

open MiniC.Parser MiniC.Parenthesised

namespace Parenthesised

variable {aim : Aim} {s s' : ParserState} {c : Demand} {e e' : ExprId} {p p' : Program}

/-! ## Lists -/

section Lists

variable {α α' : Type} {R : Program → Program → α → α' → Prop}

/-- What the relation says of two results stays true while the programs grow. -/
def Lasting (R : Program → Program → α → α' → Prop) : Prop :=
  ∀ a a' p p' q q', R p p' a a' → Keeps p q → Keeps p' q' → R q q' a a'

/-- The results are the same. -/
def Same (_ _ : Program) (a a' : α) : Prop := a' = a

variable {xs : List (Parser α)} {xs' : List (Parser α')}

/-- Lists are built in step, member by member. -/
theorem inStep_cons {first : Parser α} {first' : Parser α'} {others : Parser (List α)}
    {others' : Parser (List α')} (hR : Lasting R) (hfirst : InStep aim R first first')
    (hothers : InStep aim (fun p p' => List.Forall₂ (R p p')) others others') :
    InStep aim (fun p p' => List.Forall₂ (R p p')) (do
      let a ← first
      let as ← others
      return a :: as) (do
      let a ← first'
      let as ← others'
      return a :: as) := by
  intro s s' hs
  refine (hfirst _ _ hs).bind fun a a' t t' ht ha => ?_
  refine (hothers _ _ ht.alike).bind fun as as' u u' hu has => ?_
  exact .pure hu.alike (.cons (hR _ _ _ _ _ _ ha hu.left hu.right) has)

/-- Lists in commas are built in step if their items are. -/
theorem inStep_inCommas (hR : Lasting R) (h : List.Forall₂ (InStep aim R) xs xs') :
    InStep aim (fun p p' => List.Forall₂ (R p p')) (Written.buildInCommas xs)
      (Written.buildInCommas xs') := by
  have hafter {xs : List (Parser α)} {xs' : List (Parser α')}
    (h : List.Forall₂ (InStep aim R) xs xs') :
      InStep aim (fun p p' => List.Forall₂ (R p p')) (Written.buildAfterCommas xs)
        (Written.buildAfterCommas xs') := by
    induction h with
    | nil => exact fun _ _ hs => .pure hs .nil
    | cons hx _ ih => exact fun _ _ hs => .advance (inStep_cons hR hx ih _ _ hs)
  cases h with
  | nil => exact fun _ _ hs => .pure hs .nil
  | cons hx hxs => exact inStep_cons hR hx (hafter hxs)

/-- So are lists of parts without results. -/
theorem inStep_forM {f : α → Parser Unit} {f' : α' → Parser Unit} {as : List α} {as' : List α'}
    (h : List.Forall₂ (fun a a' => InStep aim (fun _ _ _ _ => True) (f a) (f' a')) as as') :
    InStep aim (fun _ _ _ _ => True) (as.forM f) (as'.forM f') := by
  induction h with
  | nil => exact fun _ _ hs => .pure hs trivial
  | cons ha _ ih =>
    exact fun _ _ hs => .bind (ha _ _ hs) fun _ _ t t' ht _ => ih _ _ ht.alike

end Lists

/-! ## Expressions -/

/-- What is known of the expressions that are built from a tree and from one with more parentheses,
none of them around everything. -/
structure BuiltFrom (tree : Written.Expr) (c : Demand) (p p' : Program) (e e' : ExprId) : Prop where
  node : NodeAlike (ExprAlike p p') p p' c e e'
  valued : tree.HasValue → Yields p e
  plain : Yields p e ∨ (p.expr e).type.isArray = false

/-- Parentheses may be put around an expression where the tree allows for them. -/
theorem BuiltFrom.enclosable {tree : Written.Expr} (h : BuiltFrom tree c p p' e e')
    (hc : c = .later → tree.HasValue) : Enclosable p c e := by
  by_cases hlater : c = .later
  · exact .inl (h.valued (hc hlater))
  · exact h.plain.imp_right fun hplain => ⟨hlater, hplain⟩

/-- Expressions built from such trees are alike. -/
theorem BuiltFrom.alike {tree : Written.Expr} (h : BuiltFrom tree c p p' e e') :
    ExprAlike p p' c e e' :=
  .of_enclosed (.node h.node)

/-- Nothing else has to be shown of an expression that has a value. -/
theorem BuiltFrom.of_valued {tree : Written.Expr} (h : NodeAlike (ExprAlike p p') p p' c e e')
    (hv : Yields p e) :
    BuiltFrom tree c p p' e e' := ⟨h, fun _ => hv, .inl hv⟩

/-- An expression that is neither a call nor a conversion. -/
theorem leads_addValued {tree : Written.Expr} {kind kind' : ExprKind} {type type' : CType}
    {loc loc' : Location} (hs : BuiltAlike aim s.built s'.built) (htype : type' = type)
    (hkind : KindAlike (ExprAlike s.program s'.program) c type kind kind')
    (hv : ∀ {p e}, (Program.expr p e).kind = kind → Yields p e) :
    Leads aim (addExpr kind type loc) (addExpr kind' type' loc') s s' (BuiltFrom tree c) :=
  (leads_addExpr hs htype hkind).mono fun _ _ _ _ _ ⟨hnode, he⟩ =>
    .of_valued hnode (hv (congrArg Expr.kind he))

/-- An operator may be added to operands that are alike. -/
theorem leads_addUnary {operand : Written.Expr} {loc loc' : Location}
    (hs : BuiltAlike aim s.built s'.built) (op : UnaryOp)
    (he : ExprAlike s.program s'.program (c.operand op) e e') :
    Leads aim (addUnary op e loc) (addUnary op e' loc') s s' (BuiltFrom (.unary op operand) c) := by
  refine .typeOf ?_
  exact leads_addValued hs (by rw [he.type]) (.unary op he) fun h => by rw [Yields, h]; trivial

/-- A call has a value if its callee is named so, and it is never an array. -/
theorem leads_addCall {f : String} {args : List Written.Expr} {callee : DeclId}
    {as as' : List ExprId}
    {loc loc' : Location} (hs : BuiltAlike aim s.built s'.built)
    (hlt : callee.index < s.program.decls.size)
    (hname : (s.program.decl callee).name = f)
    (hfunction : (s.program.decl callee).isFunction = true)
    (has : List.Forall₂ (ExprAlike s.program s'.program c.arg) as as') :
    Leads aim (addExpr (.call callee as) (s.program.decl callee).type.result loc)
      (addExpr (.call callee as') (s'.program.decl callee).type.result loc') s s'
        (BuiltFrom (.call f args) c) := by
  have htype := congrArg CType.result (hs.program.type callee)
  refine (leads_addExpr hs htype (.call _ has)).mono fun e e' t t' ht ⟨hnode, he⟩ =>
    ⟨hnode, fun hvalue => ?_, ?_⟩
  · have hkeeps : Keeps s.program t.program := ht.left
    rw [Yields, he]
    refine ⟨Nat.lt_of_lt_of_le hlt hkeeps.size, ?_⟩
    rw [GivesBack, hkeeps.name hlt, hname]
    exact hvalue
  · rw [he]
    exact .inr (hs.sensible.results hfunction)

/-- A conversion may be added to operands that are alike. -/
theorem leads_addCast {type : Written.TypeName} {operand : Written.Expr} {loc loc' : Location}
    (hs : BuiltAlike aim s.built s'.built)
    (he : ExprAlike s.program s'.program (c.casted type.type) e e') :
    Leads aim (addExpr (.cast e) type.type loc) (addExpr (.cast e') type.type loc') s s'
      (BuiltFrom (.cast type operand) c) := by
  refine (leads_addExpr hs rfl (.cast he)).mono fun _ _ _ _ _ ⟨hnode, he⟩ =>
    ⟨hnode, fun hvalue => ?_, .inr ?_⟩
  · rw [Yields, he]
    exact hvalue
  · rw [he]
    exact type.type_isArray

/-- Parentheses around the second of two expressions. -/
theorem leads_addParen {loc' : Location} (hs : BuiltAlike aim s.built s'.built)
    (he : NodeAlike (ExprAlike s.program s'.program) s.program s'.program c e e')
    (hother : Enclosable s.program c e) :
    Leads aim (pure e) (addExpr (.paren e') (s'.program.expr e').type loc') s s'
      (ExprAlike · · c) := by
  have hright := keeps_pushExpr s'.program ⟨.paren e', (s'.program.expr e').type, loc'⟩
  have hself := Program.expr_pushExpr_self s'.program ⟨.paren e', (s'.program.expr e').type, loc'⟩
  have hnode := (he.mono fun _ _ _ h => h.keeps (.refl _) hright).keeps (.refl _) hright
  have hparen : IsParen (s'.program.pushExpr ⟨.paren e', (s'.program.expr e').type, loc'⟩).1
      (s'.program.pushExpr ⟨.paren e', (s'.program.expr e').type, loc'⟩).2 e' := by
    refine ⟨by simp [Program.pushExpr], by rw [hself], ?_⟩
    rw [hself, hright.expr he.lt']
  exact ⟨⟨⟨hs.program.pushExpr_right _, hs.scopes, hs.sensible⟩, .refl _, hright⟩,
    .of_enclosed (.right hparen hnode hother)⟩

/-- The name of a type is the same on both sides. -/
theorem leads_typeName (type : Written.TypeName) (hs : BuiltAlike aim s.built s'.built) :
    Leads aim type.build type.build s s' fun _ _ a a' => a = type.type ∧ a' = type.type := by
  refine .advance (.bind (leads_skip _ hs) fun _ _ t t' ht _ => ?_)
  exact .pure ht.alike ⟨rfl, rfl⟩

/-- Expressions stay alike while the programs grow. -/
theorem ExprAlike.lasting : Lasting fun p p' e e' => ExprAlike p p' c e e' :=
  fun _ _ _ _ _ _ h hq hq' => h.keeps hq hq'

end Parenthesised

namespace Written

variable {aim : Aim} {n : Nat} {c : Demand}

/-- Members that are related with a count are related without it. -/
theorem EachMore.forall₂ {α : Type} {R : Nat → α → α → Prop} {S : α → α → Prop} {as as' : List α}
    (h : EachMore R n as as') (hS : ∀ a ∈ as, ∀ m a', R m a a' → S a a') :
    List.Forall₂ S as as' := by
  induction h with
  | nil => exact .nil
  | cons ha _ ih =>
    rw [List.forall_mem_cons] at hS
    exact .cons (hS.1 _ _ ha) (ih hS.2)

/-- What is built from the members of a list is built in step if it is so for every member. -/
theorem EachMore.inStep {α β : Type} {R : Nat → α → α → Prop} {S : Program → Program → β → β → Prop}
    {build : α → Parser β} {as as' : List α} (hS : Lasting S) (h : EachMore R n as as')
    (hbuild : ∀ a ∈ as, ∀ m a', R m a a' → InStep aim S (build a) (build a')) :
    InStep aim (fun p p' => List.Forall₂ (S p p')) (buildInCommas (as.map build))
      (buildInCommas (as'.map build)) :=
  inStep_inCommas hS (List.forall₂_map_left_iff.2 (List.forall₂_map_right_iff.2 (h.forall₂ hbuild)))

/-- The second parser goes on with a pair of parentheses around what was built in step. -/
theorem Expr.Loosened.inStep_of_inside {t t' : Expr} (h : Loosened n c t t')
    (hinside : ∀ {n c t'}, LoosenedInside n c t t' → InStep aim (BuiltFrom t c) t.build t'.build) :
    InStep aim (ExprAlike · · c) t.build t'.build := by
  intro s s' hs
  cases h with
  | same h => exact (hinside h _ _ hs).mono fun _ _ _ _ _ he => he.alike
  | wrap h hc =>
    refine .here_right fun loc' => .advance_right ?_
    refine .then_right (hinside h _ _ hs) fun e i' t t' ht he => .advance_right (.typeOf_right ?_)
    exact leads_addParen ht.alike he.node (he.enclosable hc)

/-- An expression with more parentheses inside is built in step. -/
theorem Expr.LoosenedInside.inStep_build {t t' : Expr} (h : LoosenedInside n c t t') :
    InStep aim (BuiltFrom t c) t.build t'.build := by
  induction t generalizing n c t' with
  | literal value =>
    cases h with
    | literal =>
      intro s s' hs
      refine .here fun loc loc' => .advance ?_
      exact leads_addValued hs rfl (.intLiteral _) fun h => by rw [Yields, h]; trivial
  | name x =>
    cases h with
    | name =>
      intro s s' hs
      refine .here fun loc loc' => .advance ?_
      refine .bind (leads_resolve hs) fun d d' t t' ht hd => ?_
      obtain ⟨rfl, -⟩ := hd
      refine .declOf ?_
      exact leads_addValued ht.alike (ht.alike.program.type _) (.declRef _) fun h => by
        rw [Yields, h]; trivial
  | call f args ih =>
    cases h with
    | call _ hargs =>
      intro s s' hs
      refine .here fun loc loc' => .advance ?_
      refine .bind (leads_resolve hs) fun d d' t t' ht hd => ?_
      obtain ⟨rfl, hlt, hname⟩ := hd
      refine .declOf (.unless (ht.alike.program.isFunction d').symm fun hfunction => .advance ?_)
      rw [buildEach_eq_map, buildEach_eq_map]
      have hbuilt := EachMore.inStep ExprAlike.lasting hargs.eachMore fun a ha m a' h =>
        h.inStep_of_inside (ih a ha)
      refine .bind (hbuilt _ _ ht.alike) fun as as' u u' hu has => .advance (.declOf ?_)
      -- the arguments were built after the callee was resolved
      exact leads_addCall hu.alike (Nat.lt_of_lt_of_le hlt hu.left.size)
        ((hu.left.name hlt).trans hname) ((hu.left.isFunction hlt).trans hfunction) has
  | paren inner ih =>
    cases h with
    | paren hinner =>
      intro s s' hs
      refine .here fun loc loc' => .advance ?_
      refine .bind (hinner.inStep_of_inside ih _ _ hs) fun e e' t t' ht he => .advance (.typeOf ?_)
      exact leads_addValued ht.alike he.type (.paren he) fun h => by rw [Yields, h]; trivial
  | subscript base index ihb ihi =>
    cases h with
    | subscript hb hi =>
      intro s s' hs
      refine .bind (hb.inStep_of_inside ihb _ _ hs) fun b b' t t' ht hb => .here fun loc loc' =>
        .advance ?_
      refine .bind (hi.inStep_of_inside ihi _ _ ht.alike) fun i i' u u' hu hi =>
        .advance (.typeOf ?_)
      have hb := hb.keeps hu.left hu.right
      have htype := congrArg CType.element hb.type
      exact leads_addValued hu.alike htype (.subscript hb hi) fun h => by rw [Yields, h]; trivial
  | unary op operand ih =>
    cases h with
    | unary _ hoperand =>
      intro s s' hs
      simp only [build]
      split
      · refine .bind (hoperand.inStep_of_inside ih _ _ hs) fun e e' t t' ht he =>
          .here fun loc loc' => .advance ?_
        exact leads_addUnary ht.alike op he
      · refine .here fun loc loc' => .advance ?_
        exact .bind (hoperand.inStep_of_inside ih _ _ hs) fun e e' t t' ht he =>
          leads_addUnary ht.alike op he
  | binary op lhs rhs ihl ihr =>
    cases h with
    | binary _ hl hr =>
      intro s s' hs
      refine .bind (hl.inStep_of_inside ihl _ _ hs) fun l l' t t' ht hl => .here fun loc loc' =>
        .advance ?_
      refine .bind (hr.inStep_of_inside ihr _ _ ht.alike) fun r r' u u' hu hr =>
        .typeOf (.typeOf ?_)
      have hl : ExprAlike u.program u'.program _ l l' := hl.keeps hu.left hu.right
      exact leads_addValued hu.alike (by rw [hl.type, hr.type]) (.binary op hl hr) fun h => by
        rw [Yields, h]; trivial
  | cast type operand ih =>
    cases h with
    | cast _ hoperand =>
      intro s s' hs
      refine .here fun loc loc' => .advance ?_
      refine .bind (leads_typeName type hs) fun a a' t t' ht ha => .advance ?_
      obtain ⟨rfl, rfl⟩ := ha
      exact .bind (hoperand.inStep_of_inside ih _ _ ht.alike) fun e e' u u' hu he =>
        leads_addCast hu.alike he
  | sizeOfType type =>
    cases h with
    | sizeOfType =>
      intro s s' hs
      refine .here fun loc loc' => .advance (.advance ?_)
      refine .bind (leads_typeName type hs) fun a a' t t' ht ha => .advance ?_
      obtain ⟨rfl, rfl⟩ := ha
      exact leads_addValued ht.alike rfl (.sizeOf _) fun h => by rw [Yields, h]; trivial
  | sizeOf operand ih =>
    cases h with
    | sizeOf hoperand =>
      intro s s' hs
      refine .here fun loc loc' => .advance ?_
      refine .bind (hoperand.inStep_of_inside ih _ _ hs) fun e e' t t' ht he => .typeOf ?_
      rw [he.type]
      exact leads_addValued ht.alike rfl (.sizeOf _) fun h => by rw [Yields, h]; trivial

/-- An expression with more parentheses is built in step. -/
theorem Expr.Loosened.inStep_build {t t' : Expr} (h : Loosened n c t t') :
    InStep aim (ExprAlike · · c) t.build t'.build :=
  h.inStep_of_inside fun h => h.inStep_build

/-- The same of an expression that may be missing. -/
theorem OptionalLoosened.inStep_build {e e' : Option Expr} (h : OptionalLoosened n c e e') :
    InStep aim (OptionAlike · · c) (buildOptional e) (buildOptional e') := by
  intro s s' hs
  cases h with
  | none => exact .pure hs .none
  | some h => exact .map (h.inStep_build _ _ hs) fun _ _ _ _ he => .some he

/-! ## Variables -/

/-- A declarator without brackets has a type without length. -/
theorem Declarator.length?_type (base : BaseType) (d : Declarator) (h : d.length.isSome ≠ true) :
    (d.type base).length? = none := by
  rw [type]
  cases hlength : d.length with
  | none => exact CType.length?_withPointers base d.stars
  | some length => exact absurd (congrArg Option.isSome hlength) h

/-- A declarator with more parentheses declares the same variable. -/
theorem Declarator.Loosened.inStep_build {base : BaseType} {d d' : Declarator}
    (h : d.Loosened aim n d')
    (hd : d.WellFormed base) (storage : Storage) :
    InStep aim Same (d.build base storage) (d'.build base storage) := by
  intro s s' hs
  cases h with
  | @intro init' hinit =>
    refine .bind (leads_skip _ hs) fun _ _ t t' ht _ => .here fun loc loc' => .advance ?_
    refine .bind (leads_skip _ ht.alike) fun _ _ u u' hu _ => ?_
    refine .bind (leads_addDecl hu.alike (.variable _ storage .none nofun) nofun)
      fun v v' w w' hw hv => ?_
    obtain ⟨rfl, hlt, hdecl⟩ := hv
    refine .bind (leads_declare hw.alike ⟨hlt, congrArg Decl.name hdecl⟩) fun _ _ x x' hx _ => ?_
    cases hdinit : d.init with
    | none =>
      rw [hdinit] at hinit
      cases hinit
      exact .pure hx.alike rfl
    | some init =>
      rw [hdinit] at hinit
      obtain _ | hinit := hinit
      refine .advance (.bind (hinit.inStep_build _ _ hx.alike) fun e e' y y' hy he => ?_)
      -- an array has no initialiser in a text that can be read
      have hlength : (d.type base).length? = none := d.length?_type base fun h => by
        rw [hd.array h] at hdinit
        cases hdinit
      have htype : (y.program.decl v').type = d.type base :=
        ((hx.left.trans hy.left).type hlt).trans (congrArg Decl.type hdecl)
      exact .bind (leads_modifyDecl hy.alike (keeps_withInit _ _ _) (keeps_withInit _ _ _)
        ((hy.alike.program.decl v').withInit he (htype ▸ hlength))) fun _ _ z z' hz _ =>
          .pure hz.alike rfl

theorem Same.lasting {α : Type} : Lasting (Same (α := α)) := fun _ _ _ _ _ _ h _ _ => h

/-- Lists of results that are the same one by one. -/
theorem same_of_forall₂ {α : Type} {p p' : Program} {as as' : List α}
    (h : List.Forall₂ (Same p p') as as') : Same p p' as as' := by
  induction h with
  | nil => rfl
  | cons ha _ ih => exact congr (congrArg List.cons ha) ih

/-- A declaration with more parentheses declares the same variables. -/
theorem Declaration.Loosened.inStep_build {d d' : Declaration} (h : d.Loosened aim n d')
    (hd : d.WellFormed)
    (storage : Storage) : InStep aim Same (d.build storage) (d'.build storage) := by
  intro s s' hs
  cases h with
  | @intro _ _ base first first' others others' hfirst hothers =>
    have hdeclarator (v : Declarator) (hv : v ∈ first :: others) (m : Nat) (v' : Declarator)
        (h : v.Loosened aim m v') :
          InStep aim Same (v.build base storage) (v'.build base storage) :=
      h.inStep_build (hd v hv) storage
    have hbuilt := EachMore.inStep Same.lasting (.cons hfirst hothers) hdeclarator
    refine .advance (.bind (hbuilt _ _ hs) fun ds ds' t t' ht hds => .advance ?_)
    exact .pure ht.alike (same_of_forall₂ hds)

/-! ## Statements -/

/-- The first clause of a loop is built in step. -/
theorem ForInit.Loosened.inStep_build {init init' : ForInit} (h : init.Loosened aim n init')
    (hinit : init.WellFormed) :
    InStep aim Same init.build init'.build := by
  intro s s' hs
  cases h with
  | none => exact .advance (.pure hs rfl)
  | declare h =>
    refine .here fun loc loc' => ?_
    refine .bind (h.inStep_build hinit .local _ _ hs) fun ds ds' t t' ht hds => ?_
    cases hds
    exact .map (leads_addStmt ht.alike (.declare ds)) fun _ _ _ _ hid => congrArg some hid
  | expr h =>
    refine .here fun loc loc' => .bind (h.inStep_build _ _ hs) fun e e' t t' ht he => .advance ?_
    exact .map (leads_addStmt ht.alike (.expr he)) fun _ _ _ _ hid => congrArg some hid

/-- Statements are built in step, one after the other. -/
theorem Stmt.inStep_buildAll {body body' : List Stmt}
    (h : EachMore (Stmt.Loosened aim) n body body')
    (hbuild : ∀ stmt ∈ body, ∀ m stmt', stmt.Loosened aim m stmt' →
      InStep aim Same stmt.build stmt'.build) :
    InStep aim Same (buildAll body) (buildAll body') := by
  induction h with
  | nil => exact fun _ _ hs => .pure hs rfl
  | cons hfirst _ ih =>
    rw [List.forall_mem_cons] at hbuild
    intro s s' hs
    refine .bind (hbuild.1 _ _ hfirst _ _ hs) fun id id' t t' ht hid => ?_
    refine .bind (ih hbuild.2 _ _ ht.alike) fun ids ids' u u' hu hids => ?_
    exact .pure hu.alike (congr (congrArg List.cons hid) hids)

/-- A statement with more parentheses is built in step. -/
theorem Stmt.Loosened.inStep_build {stmt stmt' : Stmt} (h : stmt.Loosened aim n stmt')
    (hstmt : stmt.WellFormed) :
    InStep aim Same stmt.build stmt'.build := by
  induction stmt generalizing n stmt' with
  | block body ih =>
    cases h with
    | block hbody =>
      rw [WellFormed, allWellFormed_iff] at hstmt
      have hall := inStep_buildAll hbody fun stmt hmem m stmt' h => ih stmt hmem h (hstmt stmt hmem)
      intro s s' hs
      refine .here fun loc loc' =>
        .advance (.bind (hall.inScope _ _ hs) fun ids ids' t t' ht hids => .advance ?_)
      cases hids
      exact leads_addStmt ht.alike (.block ids)
  | declare d =>
    cases h with
    | declare hd =>
      intro s s' hs
      refine .here fun loc loc' =>
        .bind (hd.inStep_build hstmt .local _ _ hs) fun ds ds' t t' ht hds => ?_
      cases hds
      exact leads_addStmt ht.alike (.declare ds)
  | expr e =>
    cases h with
    | expr he =>
      intro s s' hs
      refine .here fun loc loc' => .bind (he.inStep_build _ _ hs) fun e e' t t' ht he => .advance ?_
      exact leads_addStmt ht.alike (.expr he)
  | ifThen condition thenBranch ih =>
    cases h with
    | ifThen hc ht =>
      intro s s' hs
      refine .here fun loc loc' => .advance (.advance ?_)
      refine .bind (hc.inStep_build _ _ hs) fun c c' t t' hct hc => .advance ?_
      refine .bind (ih ht hstmt.2 _ _ hct.alike) fun b b' u u' hu hb => ?_
      cases hb
      exact leads_addStmt hu.alike (.ifElse b none (hc.keeps hu.left hu.right))
  | ifElse condition thenBranch elseBranch iht ihe =>
    cases h with
    | ifElse hc ht he =>
      intro s s' hs
      refine .here fun loc loc' => .advance (.advance ?_)
      refine .bind (hc.inStep_build _ _ hs) fun c c' t t' hct hc => .advance ?_
      refine .bind (iht ht hstmt.2.1 _ _ hct.alike) fun b b' u u' hu hb => .advance ?_
      refine .bind (ihe he hstmt.2.2.2 _ _ hu.alike) fun i i' v v' hv hi => ?_
      cases hb
      cases hi
      -- the condition was built before the branches, which both programs have grown by since
      have hc := (hc.keeps hu.left hu.right).keeps hv.left hv.right
      exact leads_addStmt hv.alike (.ifElse b (some i) hc)
  | whileLoop condition body ih =>
    cases h with
    | whileLoop hc hbody =>
      intro s s' hs
      refine .here fun loc loc' => .advance (.advance ?_)
      refine .bind (hc.inStep_build _ _ hs) fun c c' t t' hct hc => .advance ?_
      refine .bind (ih hbody hstmt.2 _ _ hct.alike) fun b b' u u' hu hb => ?_
      cases hb
      exact leads_addStmt hu.alike (.whileLoop b (hc.keeps hu.left hu.right))
  | forLoop init condition increment body ih =>
    cases h with
    | forLoop hinit hc hi hbody =>
      intro s s' hs
      refine .here fun loc loc' => .advance (InStep.inScope (fun s s' hs => .advance ?_) _ _ hs)
      refine .bind (hinit.inStep_build hstmt.1 _ _ hs) fun i i' t t' ht hi' => ?_
      refine .bind (hc.inStep_build _ _ ht.alike) fun c c' u u' hu hc => .advance ?_
      refine .bind (hi.inStep_build _ _ hu.alike) fun k k' v v' hv hk => .advance ?_
      refine .bind (ih hbody hstmt.2.2.2 _ _ hv.alike) fun b b' w w' hw hb => ?_
      cases hi'
      cases hb
      have hc := (hc.keeps hv.left hv.right).keeps hw.left hw.right
      exact leads_addStmt hw.alike (.forLoop i b hc (hk.keeps hw.left hw.right))
  | ret value =>
    cases h with
    | ret hvalue =>
      intro s s' hs
      refine .here fun loc loc' => .advance ?_
      refine .bind (hvalue.inStep_build _ _ hs) fun v v' t t' ht hv => .advance ?_
      exact leads_addStmt ht.alike (.ret hv)
  | empty =>
    cases h with
    | empty =>
      intro s s' hs
      exact .here fun loc loc' => .advance (leads_addStmt hs .empty)

/-! ## Functions -/

theorem Param.inStep_build (p : Param) : InStep aim Same p.build p.build := by
  intro s s' hs
  refine .bind (leads_typeName p.typeName hs) fun _ _ t t' ht _ => .here fun loc loc' => ?_
  refine .bind (leads_skip _ ht.alike) fun _ _ u u' hu _ => ?_
  refine .bind (leads_skip _ hu.alike) fun _ _ v v' hv _ => ?_
  refine .bind (leads_addDecl hv.alike (.variable _ .param .none nofun) nofun)
    fun d d' w w' hw hd => ?_
  obtain ⟨rfl, hlt, hdecl⟩ := hd
  cases (p.name.getD "").isEmpty with
  | true => exact .pure hw.alike rfl
  | false =>
    exact .bind (leads_declare hw.alike ⟨hlt, congrArg Decl.name hdecl⟩) fun _ _ x x' hx _ =>
      .pure hx.alike rfl

theorem Params.inStep_build (ps : Params) : InStep aim Same ps.build ps.build := by
  cases ps with
  | void => exact fun _ _ hs => .advance (.pure hs rfl)
  | list params =>
    intro s s' hs
    have hparams :
        List.Forall₂ (InStep aim Same) (params.map Param.build) (params.map Param.build) :=
      List.forall₂_same.2 fun x hx => by
        obtain ⟨p, -, rfl⟩ := List.mem_map.1 hx
        exact p.inStep_build
    exact (inStep_inCommas Same.lasting hparams _ _ hs).mono fun _ _ _ _ _ h => same_of_forall₂ h

/-- The same function is found or declared on both sides. -/
theorem leads_functionDecl {returnType : CType}
    (hreturn : returnType.isArray = false) (name : String)
    (loc loc' : Location) (params : List DeclId) {s s' : ParserState}
    (hs : BuiltAlike aim s.built s'.built) :
    Leads aim (functionDecl returnType name loc params)
      (functionDecl returnType name loc' params) s s'
      fun p _ d d' => d' = d ∧ (p.decl d).isFunction = true := by
  unfold functionDecl resolveInFile?
  refine .get ?_
  have hscopes : s'.scopes = s.scopes := hs.scopes
  rw [hscopes]
  cases hname : s.scopes.file.lookup name with
  | some d =>
    refine .declOf (.unless (hs.program.isFunction d).symm fun hfunction => ?_)
    exact .pure hs ⟨rfl, hfunction⟩
  | none =>
    refine .bind (leads_addDecl hs (.function returnType params none) fun _ => hreturn)
      fun d d' t t' ht hd => ?_
    obtain ⟨rfl, hlt, hdecl⟩ := hd
    refine .bind (leads_declareInFile ht.alike ⟨hlt, congrArg Decl.name hdecl⟩)
      fun _ _ u u' hu _ => ?_
    refine .bind (leads_addItem (.function d') hu.alike) fun _ _ v v' hv _ =>
      .pure hv.alike ⟨rfl, ?_⟩
    have hkeeps : Keeps t.program v.program := hu.left.trans hv.left
    rw [hkeeps.isFunction hlt, hdecl]
    rfl

/-- The body of a function is built in step. -/
theorem leads_buildBody {body body' : List Stmt} (h : EachMore (Stmt.Loosened aim) n body body')
    (hbody : ∀ stmt ∈ body, stmt.WellFormed) {d : DeclId} (name : String)
    (loc loc' opening opening' : Location)
    (params : List DeclId) {s s' : ParserState} (hs : BuiltAlike aim s.built s'.built)
    (hd : (s.program.decl d).isFunction = true) :
    Leads aim (buildBody d name loc opening params body)
      (buildBody d name loc' opening' params body') s s' fun _ _ _ _ => True := by
  unfold buildBody
  refine .declOf ?_
  have hhas : (s'.program.decl d).hasBody = (s.program.decl d).hasBody := hs.program.hasBody d
  rw [hhas]
  split
  · exact trivial
  · have hd' : (s'.program.decl d).isFunction = true := (hs.program.isFunction d).trans hd
    refine .bind (leads_modifyDecl hs (keeps_withParams _ hd _ _) (keeps_withParams _ hd' _ _)
      ((hs.program.decl d).withParams params loc loc')) fun _ _ t t' ht _ => ?_
    have hall := Stmt.inStep_buildAll h fun stmt hmem m stmt' h => h.inStep_build (hbody stmt hmem)
    refine .bind (hall _ _ ht.alike) fun ids ids' u u' hu hids => .advance ?_
    cases hids
    refine .bind (leads_addStmt hu.alike (.block ids)) fun id id' v v' hv hid => ?_
    cases hid
    exact leads_modifyDecl hv.alike (keeps_withBody _ _ _) (keeps_withBody _ _ _)
      ((hv.alike.program.decl d).withBody id)

/-- A function with more parentheses is built in step. -/
theorem Function.Loosened.inStep_build {f f' : Function} (h : f.Loosened aim n f')
    (hf : f.WellFormed) :
    InStep aim (fun _ _ _ _ => True) f.build f'.build := by
  obtain ⟨returnType, name, params, body⟩ := f
  cases h with
  | intro hbody =>
    intro s s' hs
    refine .bind (leads_typeName returnType hs) fun _ _ t t' ht _ => .here fun loc loc' =>
      .advance (.advance ?_)
    refine InStep.inScope (fun s s' hs => ?_) _ _ ht.alike
    refine .bind (params.inStep_build _ _ hs) fun ds ds' u u' hu hds => .advance ?_
    cases hds
    refine .bind (leads_functionDecl returnType.type_isArray name loc loc' ds hu.alike)
      fun d d' v v' hv hd => ?_
    obtain ⟨rfl, hfunction⟩ := hd
    refine .here fun opening opening' => .advance ?_
    cases hbody with
    | none => exact .pure hv.alike trivial
    | some hbody =>
      exact leads_buildBody hbody (hf.body _ rfl) name loc loc' opening opening' ds
        hv.alike hfunction

/-! ## Files -/

/-- A declaration of the file with more parentheses is built in step. -/
theorem TopLevel.Loosened.inStep_build {d d' : TopLevel} (h : d.Loosened aim n d')
    (hd : d.item.WellFormed) :
    InStep aim (fun _ _ _ _ => True) d.build d'.build := by
  -- the word that may come first is taken on both sides
  have hitem {isExtern : Bool} {item item' : Item}
    (h : InStep aim (fun _ _ _ _ => True) item.build item'.build) :
      InStep aim (fun _ _ _ _ => True) (TopLevel.build ⟨isExtern, item⟩)
        (TopLevel.build ⟨isExtern, item'⟩) := by
    cases isExtern with
    | true => exact fun s s' hs => .advance (h _ _ hs)
    | false => exact h
  cases h with
  | function h => exact hitem (h.inStep_build hd)
  | declaration h =>
    refine hitem fun s s' hs =>
      .bind (h.inStep_build hd .global _ _ hs) fun ds ds' t t' ht hds => ?_
    cases hds
    have hitems : List.Forall₂ (fun d d' => InStep aim (fun _ _ _ _ => True) (addItem (.variable d))
        (addItem (.variable d'))) ds ds :=
          List.forall₂_same.2 fun d _ _ _ hs => leads_addItem (.variable d) hs
    exact inStep_forM hitems _ _ ht.alike

/-- A file with more parentheses is built in step. -/
theorem File.Loosened.inStep_build {file file' : File} (h : file.Loosened aim n file')
    (hfile : file.WellFormed) :
    InStep aim (fun _ _ _ _ => True) file.build file'.build :=
  inStep_forM (EachMore.forall₂ h fun d hd _ _ h => TopLevel.Loosened.inStep_build h (hfile d hd))

/-- Before anything is read, nothing is different. -/
theorem builtAlike_start (stream stream' : TokenStream) :
    BuiltAlike aim (ParserState.start stream).built (ParserState.start stream').built where
  program := programAlike_empty
  scopes := rfl
  sensible := ⟨nofun, nofun⟩

/-- Where the tokens of a file have a program, so have those of the file with more parentheses, and
the programs are the same except for parentheses. -/
theorem File.Loosened.ofTokens_alike {file file' : File}
    {stream stream' : TokenStream} {p : Program}
    (h : file.Loosened aim n file') (hstream : Writes stream file) (hstream' : Writes stream' file')
    (hp : Program.ofTokens stream = .ok p) :
    ∃ p', Program.ofTokens stream' = .ok p' ∧ ProgramAlike aim p p' := by
  rw [ofTokens_eq_build hstream.wellFormed hstream.lexemes] at hp
  rw [ofTokens_eq_build hstream'.wellFormed hstream'.lexemes]
  have hbuild := h.inStep_build hstream.wellFormed _ _ (builtAlike_start stream stream')
  unfold Leads Pair at hbuild
  split at hbuild
  · next hx hx' =>
    rw [hx] at hp
    cases hp
    rw [hx']
    exact ⟨_, rfl, hbuild.1.alike.program⟩
  · exact hbuild.elim
  · next hx =>
    rw [hx] at hp
    cases hp

end Written

end MiniC
