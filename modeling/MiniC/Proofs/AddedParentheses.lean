import MiniC.Machine.Image
import MiniC.Machine.Arithmetic
import MiniC.Proofs.WrittenProgram

/-!
# Trees with more parentheses

`Loosened n t t'` says that the tree `t'` is `t` with `n` more pairs of parentheses, each around a
part of `t`. Calls of the provided functions that give nothing back, and conversions to `void`, have
no value. Parentheses ask for the value of what is inside them, so such a part may only get
parentheses where its value is asked for right after it is evaluated, or where it is not evaluated.
What becomes of the value of a part is its `Demand`.
-/

set_option autoImplicit false

namespace MiniC

/-! ## Demands -/

/-- What becomes of the value of an expression. -/
inductive Demand where
  /-- It may be asked for later, or never. -/
  | later
  /-- It is asked for as soon as the expression is evaluated. -/
  | next
  /-- The expression is the target of an assignment, of which only the parts are evaluated. -/
  | target
  /-- The expression is not evaluated. -/
  | never
  deriving DecidableEq

/-- What a program is written for. -/
inductive Aim where
  /-- It is run. -/
  | run
  /-- It is only read, and nothing in it is evaluated. -/
  | read
  deriving DecidableEq

/-- What becomes of the value of an expression that is no part of another one. -/
def Aim.demand : Aim → Demand → Demand
  | run, c => c
  | read, _ => .never

/-- Whether an operator is carried out, and so asks for the value of its operand. -/
def UnaryOp.asks (op : UnaryOp) : Bool := op = .deref || op.function?.isSome

/-- Whether an operator other than an assignment is carried out, and so asks for the values of its
operands. -/
def BinaryOp.asks : BinaryOp → Bool
  | .arith _ | .comparison _ => true
  | .logical _ | .bitwise _ | .assign | .compoundAssign _ => false

namespace Demand

/-! The demands for the parts of an expression, from that for the expression. -/

/-- What is inside parentheses. -/
def paren : Demand → Demand
  | later | next => next
  | target => target
  | never => never

/-- An argument of a call. -/
def arg : Demand → Demand
  | later | next => later
  | target | never => never

/-- What a subscript takes an element of. -/
def base : Demand → Demand
  | later | next | target => later
  | never => never

/-- The index of an element. -/
def index : Demand → Demand
  | later | next => next
  | target => later
  | never => never

/-- The operand of a unary operator. -/
def operand (op : UnaryOp) : Demand → Demand
  | later | next => if op.asks then next else later
  | target => if op = .deref then later else never
  | never => never

/-- The left operand of a binary operator. -/
def lhs (op : BinaryOp) : Demand → Demand
  | later | next => if op.isAssignment then target else later
  | target | never => never

/-- The right operand of a binary operator. -/
def rhs (op : BinaryOp) : Demand → Demand
  | later | next => if op.asks then next else later
  | target | never => never

/-- What is converted to a type. -/
def casted (type : CType) : Demand → Demand
  | later | next => if type.isVoid then later else next
  | target | never => never

end Demand

namespace Written

/-- Members of a list that are related one by one, where `R` counts pairs of parentheses. -/
inductive EachMore {α : Type} (R : Nat → α → α → Prop) : Nat → List α → List α → Prop
  | nil : EachMore R 0 [] []
  | cons {m n : Nat} {a a' : α} {as as' : List α} : R m a a' → EachMore R n as as' →
      EachMore R (m + n) (a :: as) (a' :: as')

/-- Every member of the second list belongs to one of the first. -/
theorem EachMore.exists_of_mem {α : Type} {R : Nat → α → α → Prop} {n : Nat} {as as' : List α}
    (h : EachMore R n as as') {a' : α} (ha : a' ∈ as') : ∃ a ∈ as, ∃ m, R m a a' := by
  induction h with
  | nil => cases ha
  | @cons m _ a _ _ _ hfirst _ ih =>
    rcases List.mem_cons.1 ha with rfl | ha
    · exact ⟨a, List.mem_cons_self, m, hfirst⟩
    · obtain ⟨a, hmem, hrest⟩ := ih ha
      exact ⟨a, List.mem_cons_of_mem _ hmem, hrest⟩

/-! ## Expressions -/

namespace Expr

/-- The expression has a value when it is evaluated. -/
def HasValue : Expr → Prop
  | .call f _ => f ≠ Builtin.print.name ∧ f ≠ Builtin.free.name
  | .cast type _ => type.type.isVoid = false
  | _ => True

mutual

/-- An expression with more pairs of parentheses, at most one of them around all of it. -/
inductive Loosened : Nat → Demand → Expr → Expr → Prop
  | same {n : Nat} {c : Demand} {t t' : Expr} : LoosenedInside n c t t' → Loosened n c t t'
  | wrap {n : Nat} {c : Demand} {t t' : Expr} :
    LoosenedInside n c t t' → (c = .later → t.HasValue) →
      Loosened (n + 1) c t (.paren t')

/-- An expression with more pairs of parentheses, none of them around all of it. -/
inductive LoosenedInside : Nat → Demand → Expr → Expr → Prop
  | literal {c : Demand} (value : Nat) : LoosenedInside 0 c (.literal value) (.literal value)
  | name {c : Demand} (x : String) : LoosenedInside 0 c (.name x) (.name x)
  | call {n : Nat} {c : Demand} (f : String) {args args' : List Expr} :
    EachLoosened n c.arg args args' →
      LoosenedInside n c (.call f args) (.call f args')
  | paren {n : Nat} {c : Demand} {inner inner' : Expr} : Loosened n c.paren inner inner' →
      LoosenedInside n c (.paren inner) (.paren inner')
  | subscript {m n : Nat} {c : Demand} {base base' index index' : Expr} :
    Loosened m c.base base base' →
      Loosened n c.index index index' →
        LoosenedInside (m + n) c (.subscript base index) (.subscript base' index')
  | unary {n : Nat} {c : Demand} (op : UnaryOp) {operand operand' : Expr} :
      Loosened n (c.operand op) operand operand' →
        LoosenedInside n c (.unary op operand) (.unary op operand')
  | binary {m n : Nat} {c : Demand} (op : BinaryOp) {lhs lhs' rhs rhs' : Expr} :
    Loosened m (c.lhs op) lhs lhs' →
      Loosened n (c.rhs op) rhs rhs' →
        LoosenedInside (m + n) c (.binary op lhs rhs) (.binary op lhs' rhs')
  | cast {n : Nat} {c : Demand} (type : TypeName) {operand operand' : Expr} :
      Loosened n (c.casted type.type) operand operand' →
      LoosenedInside n c (.cast type operand) (.cast type operand')
  | sizeOfType {c : Demand} (type : TypeName) :
    LoosenedInside 0 c (.sizeOfType type) (.sizeOfType type)
  | sizeOf {n : Nat} {c : Demand} {operand operand' : Expr} : Loosened n .never operand operand' →
      LoosenedInside n c (.sizeOf operand) (.sizeOf operand')

/-- Expressions with more pairs of parentheses. -/
inductive EachLoosened : Nat → Demand → List Expr → List Expr → Prop
  | nil {c : Demand} : EachLoosened 0 c [] []
  | cons {m n : Nat} {c : Demand} {t t' : Expr} {ts ts' : List Expr} : Loosened m c t t' →
      EachLoosened n c ts ts' → EachLoosened (m + n) c (t :: ts) (t' :: ts')

end

end Expr

/-- An expression that may be missing, with more pairs of parentheses. -/
inductive OptionalLoosened : Nat → Demand → Option Expr → Option Expr → Prop
  | none {c : Demand} : OptionalLoosened 0 c none none
  | some {n : Nat} {c : Demand} {e e' : Expr} :
    e.Loosened n c e' → OptionalLoosened n c (some e) (some e')

/-! ## Variables and statements -/

/-- A declarator with more pairs of parentheses in its initialiser. -/
inductive Declarator.Loosened (aim : Aim) : Nat → Declarator → Declarator → Prop
  | intro {n : Nat} {d : Declarator} {init' : Option Expr} :
    OptionalLoosened n (aim.demand .next) d.init init' →
      Loosened aim n d { d with init := init' }

/-- A declaration with more pairs of parentheses. -/
inductive Declaration.Loosened (aim : Aim) : Nat → Declaration → Declaration → Prop
  | intro {m n : Nat} {base : BaseType} {first first' : Declarator}
    {others others' : List Declarator} :
      first.Loosened aim m first' → EachMore (Declarator.Loosened aim) n others others' →
      Loosened aim (m + n) ⟨base, first, others⟩ ⟨base, first', others'⟩

/-- The first clause of a `for` statement with more pairs of parentheses. -/
inductive ForInit.Loosened (aim : Aim) : Nat → ForInit → ForInit → Prop
  | none : Loosened aim 0 .none .none
  | declare {n : Nat} {d d' : Declaration} :
    d.Loosened aim n d' → Loosened aim n (.declare d) (.declare d')
  | expr {n : Nat} {e e' : Expr} :
    e.Loosened n (aim.demand .later) e' → Loosened aim n (.expr e) (.expr e')

/-- A statement with more pairs of parentheses. -/
inductive Stmt.Loosened (aim : Aim) : Nat → Stmt → Stmt → Prop
  | block {n : Nat} {body body' : List Stmt} : EachMore (Stmt.Loosened aim) n body body' →
      Stmt.Loosened aim n (.block body) (.block body')
  | declare {n : Nat} {d d' : Declaration} :
    d.Loosened aim n d' → Stmt.Loosened aim n (.declare d) (.declare d')
  | expr {n : Nat} {e e' : Expr} :
    e.Loosened n (aim.demand .later) e' → Stmt.Loosened aim n (.expr e) (.expr e')
  | ifThen {m n : Nat} {c c' : Expr} {t t' : Stmt} :
    c.Loosened m (aim.demand .next) c' → Stmt.Loosened aim n t t' →
      Stmt.Loosened aim (m + n) (.ifThen c t) (.ifThen c' t')
  | ifElse {m n k : Nat} {c c' : Expr} {t t' e e' : Stmt} : c.Loosened m (aim.demand .next) c' →
      Stmt.Loosened aim n t t' → Stmt.Loosened aim k e e' →
        Stmt.Loosened aim (m + (n + k)) (.ifElse c t e) (.ifElse c' t' e')
  | whileLoop {m n : Nat} {c c' : Expr} {body body' : Stmt} : c.Loosened m (aim.demand .next) c' →
      Stmt.Loosened aim n body body' →
        Stmt.Loosened aim (m + n) (.whileLoop c body) (.whileLoop c' body')
  | forLoop {m n k l : Nat} {init init' : ForInit} {c c' i i' : Option Expr} {body body' : Stmt} :
      init.Loosened aim m init' → OptionalLoosened n (aim.demand .next) c c' →
      OptionalLoosened k (aim.demand .later) i i' → Stmt.Loosened aim l body body' →
      Stmt.Loosened aim (m + (n + (k + l))) (.forLoop init c i body) (.forLoop init' c' i' body')
  | ret {n : Nat} {value value' : Option Expr} :
    OptionalLoosened n (aim.demand .next) value value' →
      Stmt.Loosened aim n (.ret value) (.ret value')
  | empty : Stmt.Loosened aim 0 .empty .empty

/-! ## Files -/

/-- The body of a function, which may be missing, with more pairs of parentheses. -/
inductive BodyLoosened (aim : Aim) : Nat → Option (List Stmt) → Option (List Stmt) → Prop
  | none : BodyLoosened aim 0 none none
  | some {n : Nat} {body body' : List Stmt} : EachMore (Stmt.Loosened aim) n body body' →
      BodyLoosened aim n (some body) (some body')

/-- A function with more pairs of parentheses in its body. -/
inductive Function.Loosened (aim : Aim) : Nat → Function → Function → Prop
  | intro {n : Nat} {f : Function} {body' : Option (List Stmt)} : BodyLoosened aim n f.body body' →
      Loosened aim n f { f with body := body' }

/-- A declaration of the file with more pairs of parentheses. -/
inductive TopLevel.Loosened (aim : Aim) : Nat → TopLevel → TopLevel → Prop
  | declaration {n : Nat} {isExtern : Bool} {d d' : Declaration} : d.Loosened aim n d' →
      Loosened aim n ⟨isExtern, .declaration d⟩ ⟨isExtern, .declaration d'⟩
  | function {n : Nat} {isExtern : Bool} {f f' : Function} : f.Loosened aim n f' →
      Loosened aim n ⟨isExtern, .function f⟩ ⟨isExtern, .function f'⟩

/-- A file with more pairs of parentheses. -/
def File.Loosened (aim : Aim) (n : Nat) (file file' : File) : Prop :=
  EachMore (TopLevel.Loosened aim) n file.declarations file'.declarations

namespace Expr

theorem EachLoosened.eachMore {n : Nat} {c : Demand} {ts ts' : List Expr}
    (h : EachLoosened n c ts ts') :
    EachMore (Loosened · c · ·) n ts ts' := by
  induction ts generalizing n ts' with
  | nil =>
    cases h
    exact .nil
  | cons t ts ih =>
    cases h with
    | cons ht hts => exact .cons ht (ih hts)

/-- What holds of an expression without parentheses around all of it, and is kept by a pair around
it. -/
theorem Loosened.of_inside {P : Nat → Expr → Prop} {n : Nat} {c : Demand} {t t' : Expr}
    (h : Loosened n c t t')
    (hinside : ∀ {n t'}, LoosenedInside n c t t' → P n t')
    (hwrap : ∀ {n t'}, P n t' → P (n + 1) (.paren t')) :
    P n t' := by
  cases h with
  | same h => exact hinside h
  | wrap h => exact hwrap (hinside h)

/-- Parentheses bind most tightly. -/
theorem level_le (t : Expr) : t.level ≤ 14 := by
  cases t with
  | binary op lhs rhs => exact Nat.le_trans op.level_le (by decide)
  | unary op operand =>
    rw [level]
    split <;> decide
  | _ => simp [level]

/-- Parentheses inside an expression do not change how tightly it binds. -/
theorem LoosenedInside.level_eq {n : Nat} {c : Demand} {t t' : Expr} (h : LoosenedInside n c t t') :
    t'.level = t.level := by
  cases h <;> rfl

/-- Parentheses around an expression make it bind more tightly, if anything. -/
theorem Loosened.level_le {n : Nat} {c : Demand} {t t' : Expr} (h : Loosened n c t t') :
    t.level ≤ t'.level := by
  cases h with
  | same h => exact Nat.le_of_eq h.level_eq.symm
  | wrap h => exact t.level_le

end Expr

/-! ## More parentheses in lexemes -/

/-- The second sequence is the first one with a pair of parentheses around a part of it. -/
def Encloses (l l' : List Lexeme) : Prop :=
  ∃ before inside after, inside ≠ [] ∧ l = before ++ (inside ++ after) ∧
    l' = before ++ .punct .leftParen :: (inside ++ .punct .rightParen :: after)

/-- What lexemes with `n` more pairs of parentheses are like: without any, they are the same; with
one, it encloses a part. -/
structure Adds (n : Nat) (l l' : List Lexeme) : Prop where
  same : n = 0 → l' = l
  one : n = 1 → Encloses l l'

namespace Adds

variable {m n : Nat} {l l' k k' : List Lexeme}

theorem refl (l : List Lexeme) : Adds 0 l l := ⟨fun _ => rfl, nofun⟩

/-- Pairs of parentheses in two parts are counted together. -/
theorem append (hl : Adds m l l') (hk : Adds n k k') : Adds (m + n) (l ++ k) (l' ++ k') where
  same h := by rw [hl.same (by omega), hk.same (by omega)]
  one h := by
    cases m with
    | zero =>
      obtain ⟨before, inside, after, hne, rfl, rfl⟩ := hk.one (by omega)
      rw [hl.same rfl]
      exact ⟨l ++ before, inside, after, hne, by simp, by simp⟩
    | succ m =>
      obtain ⟨before, inside, after, hne, rfl, rfl⟩ := hl.one (by omega)
      rw [hk.same (by omega)]
      exact ⟨before, inside, after ++ k, hne, by simp, by simp⟩

/-- Parentheses may be added after a part that stays. -/
theorem append_left (hk : Adds n k k') (l : List Lexeme) : Adds n (l ++ k) (l ++ k') := by
  have h := (refl l).append hk
  rwa [Nat.zero_add] at h

/-- Parentheses may be added before a part that stays. -/
theorem append_right (hl : Adds n l l') (k : List Lexeme) : Adds n (l ++ k) (l' ++ k) :=
  hl.append (refl k)

theorem cons (hl : Adds n l l') (x : Lexeme) : Adds n (x :: l) (x :: l') := hl.append_left [x]

/-- One more pair of parentheses, around everything. -/
theorem wrap (hl : Adds n l l') (hne : l ≠ []) :
    Adds (n + 1) l (.punct .leftParen :: (l' ++ [.punct .rightParen])) where
  same h := nomatch h
  one h := ⟨[], l, [], hne, by simp, by rw [hl.same (by omega)]; rfl⟩

/-- In a list in commas the pairs of parentheses of all items are counted. -/
theorem inCommas {α : Type} {R : Nat → α → α → Prop} {lexemes : α → List Lexeme} {as as' : List α}
    (h : EachMore R n as as') (hR : ∀ a ∈ as, ∀ m a', R m a a' → Adds m (lexemes a) (lexemes a')) :
    Adds n (inCommas (as.map lexemes)) (inCommas (as'.map lexemes)) := by
  have hafter : ∀ {n : Nat} {as as' : List α}, EachMore R n as as' →
      (∀ a ∈ as, ∀ m a', R m a a' → Adds m (lexemes a) (lexemes a')) →
      Adds n ((as.map lexemes).flatMap (.punct .comma :: ·))
        ((as'.map lexemes).flatMap (.punct .comma :: ·)) := by
    intro n as as' h hR
    induction h with
    | nil => exact refl []
    | cons ha _ ih =>
      rw [List.forall_mem_cons] at hR
      exact ((hR.1 _ _ ha).cons _).append (ih hR.2)
  cases h with
  | nil => exact refl []
  | cons ha has =>
    rw [List.forall_mem_cons] at hR
    exact (hR.1 _ _ ha).append (hafter has hR.2)

/-- In a sequence the pairs of parentheses of all parts are counted. -/
theorem flatMap {α : Type} {R : Nat → α → α → Prop} {lexemes : α → List Lexeme} {as as' : List α}
    (h : EachMore R n as as') (hR : ∀ a ∈ as, ∀ m a', R m a a' → Adds m (lexemes a) (lexemes a')) :
    Adds n (as.flatMap lexemes) (as'.flatMap lexemes) := by
  induction h with
  | nil => exact refl []
  | cons ha _ ih =>
    rw [List.forall_mem_cons] at hR
    exact (hR.1 _ _ ha).append (ih hR.2)

end Adds

/-- No expression is empty. -/
theorem Expr.lexemes_ne_nil (t : Expr) : t.lexemes ≠ [] := by
  cases t with
  | unary op operand =>
    rw [lexemes]
    split <;> simp
  | _ => simp [lexemes]

/-- Parentheses inside an expression are in its lexemes. -/
theorem Expr.LoosenedInside.adds {n : Nat} {c : Demand} {t t' : Expr}
    (h : LoosenedInside n c t t') :
    Adds n t.lexemes t'.lexemes := by
  have hwrap {t : Expr} {n : Nat} {t' : Expr} (h : Adds n t.lexemes t'.lexemes) :
      Adds (n + 1) t.lexemes (Expr.paren t').lexemes := h.wrap t.lexemes_ne_nil
  induction t generalizing n c t' with
  | literal value => cases h with | literal => exact .refl _
  | name x => cases h with | name => exact .refl _
  | sizeOfType type => cases h with | sizeOfType => exact .refl _
  | call f args ih =>
    cases h with
    -- parentheses may be put around each argument as well as inside it
    | call _ hargs =>
      simp only [lexemes, lexemesOfEach_eq_map]
      have hcommas := Adds.inCommas hargs.eachMore fun a ha m a' h => h.of_inside (ih a ha) hwrap
      exact ((hcommas.append_right _).cons _).cons _
  | paren inner ih =>
    cases h with
    | paren hinner => exact ((hinner.of_inside ih hwrap).append_right _).cons _
  | subscript base index ihb ihi =>
    cases h with
    | subscript hb hi =>
      exact (hb.of_inside ihb hwrap).append (((hi.of_inside ihi hwrap).append_right _).cons _)
  | unary op operand ih =>
    cases h with
    | unary _ hoperand =>
      rw [lexemes, lexemes]
      split
      · exact (hoperand.of_inside ih hwrap).append_right _
      · exact (hoperand.of_inside ih hwrap).cons _
  | binary op lhs rhs ihl ihr =>
    cases h with
    | binary _ hl hr => exact (hl.of_inside ihl hwrap).append ((hr.of_inside ihr hwrap).cons _)
  | cast type operand ih =>
    cases h with
    | cast _ hoperand => exact (((hoperand.of_inside ih hwrap).cons _).append_left _).cons _
  | sizeOf operand ih =>
    cases h with
    | sizeOf hoperand => exact (hoperand.of_inside ih hwrap).cons _

/-- A looser expression has more parentheses in its lexemes. -/
theorem Expr.Loosened.adds {n : Nat} {c : Demand} {t t' : Expr} (h : Loosened n c t t') :
    Adds n t.lexemes t'.lexemes := by
  cases h with
  | same h => exact h.adds
  | wrap h => exact h.adds.wrap t.lexemes_ne_nil

/-- The same of an expression that may be missing. -/
theorem OptionalLoosened.adds {n : Nat} {c : Demand} {e e' : Option Expr}
    (h : OptionalLoosened n c e e') :
    Adds n (optionalLexemes e) (optionalLexemes e') := by
  cases h with
  | none => exact .refl []
  | some h => exact h.adds

/-- A looser declarator has more parentheses in its initialiser. -/
theorem Declarator.Loosened.adds {aim : Aim} {n : Nat} {d d' : Declarator}
    (h : d.Loosened aim n d') :
    Adds n d.lexemes d'.lexemes := by
  obtain ⟨stars, name, length, init⟩ := d
  cases h with
  | intro hinit =>
    cases hinit with
    | none => exact .refl _
    | some hinit => exact (((hinit.adds.cons _).append_left _).cons _).append_left _

/-- A looser declaration has more parentheses in its declarators. -/
theorem Declaration.Loosened.adds {aim : Aim} {n : Nat} {d d' : Declaration}
    (h : d.Loosened aim n d') :
    Adds n d.lexemes d'.lexemes := by
  cases h with
  | intro hfirst hothers =>
    have hcommas := Adds.inCommas (.cons hfirst hothers) fun _ _ _ _ h => Declarator.Loosened.adds h
    exact (hcommas.append_right _).cons _

/-- The first clause of a loop has more parentheses in its expressions. -/
theorem ForInit.Loosened.adds {aim : Aim} {n : Nat} {init init' : ForInit}
    (h : init.Loosened aim n init') :
    Adds n init.lexemes init'.lexemes := by
  cases h with
  | none => exact .refl _
  | declare h => exact h.adds
  | expr h => exact h.adds.append_right _

theorem Stmt.lexemesOfAll_eq_flatMap (stmts : List Stmt) :
    lexemesOfAll stmts = stmts.flatMap lexemes := by
  induction stmts with
  | nil => rfl
  | cons stmt stmts ih => rw [lexemesOfAll, ih, List.flatMap_cons]

/-- A looser statement has more parentheses in its lexemes. -/
theorem Stmt.Loosened.adds {aim : Aim} {n : Nat} {stmt stmt' : Stmt}
    (h : stmt.Loosened aim n stmt') :
    Adds n stmt.lexemes stmt'.lexemes := by
  induction stmt generalizing n stmt' with
  | block body ih =>
    cases h with
    | block hbody =>
      simp only [lexemes, lexemesOfAll_eq_flatMap]
      have hall := Adds.flatMap hbody fun stmt hstmt _ _ h => ih stmt hstmt h
      exact (hall.append_right _).cons _
  | declare d => cases h with | declare hd => exact hd.adds
  | expr e => cases h with | expr he => exact he.adds.append_right _
  | ifThen condition thenBranch ih =>
    cases h with
    | ifThen hc ht => exact ((hc.adds.append ((ih ht).cons _)).cons _).cons _
  | ifElse condition thenBranch elseBranch iht ihe =>
    cases h with
    | ifElse hc ht he =>
      exact ((hc.adds.append (((iht ht).append ((ihe he).cons _)).cons _)).cons _).cons _
  | whileLoop condition body ih =>
    cases h with
    | whileLoop hc hbody => exact ((hc.adds.append ((ih hbody).cons _)).cons _).cons _
  | forLoop init condition increment body ih =>
    cases h with
    | forLoop hinit hc hi hbody =>
      have hrest := hi.adds.append ((ih hbody).cons (.punct .rightParen))
      exact ((hinit.adds.append (hc.adds.append (hrest.cons _))).cons _).cons _
  | ret value => cases h with | ret hvalue => exact (hvalue.adds.append_right _).cons _
  | empty => cases h with | empty => exact .refl _

/-- A looser function has more parentheses in its body. -/
theorem Function.Loosened.adds {aim : Aim} {n : Nat} {f f' : Function} (h : f.Loosened aim n f') :
    Adds n f.lexemes f'.lexemes := by
  obtain ⟨returnType, name, params, body⟩ := f
  cases h with
  | intro hbody =>
    cases hbody with
    | none => exact .refl _
    | some hbody =>
      simp only [lexemes, bodyLexemes, Stmt.lexemesOfAll_eq_flatMap]
      have hall := Adds.flatMap hbody fun _ _ _ _ h => Stmt.Loosened.adds h
      exact (((((hall.append_right _).cons _).cons _).append_left _).cons _ |>.cons _).append_left _

theorem TopLevel.Loosened.adds {aim : Aim} {n : Nat} {d d' : TopLevel} (h : d.Loosened aim n d') :
    Adds n d.lexemes d'.lexemes := by
  cases h with
  | declaration h => exact h.adds.append_left _
  | function h => exact h.adds.append_left _

/-- A looser file has more parentheses in its text. -/
theorem File.Loosened.adds {aim : Aim} {n : Nat} {file file' : File}
    (h : file.Loosened aim n file') :
    Adds n file.lexemes file'.lexemes :=
  Adds.flatMap h fun _ _ _ _ h => TopLevel.Loosened.adds h

/-! ## Trees with more parentheses are well formed -/

/-- An expression stays well formed with parentheses inside it. -/
theorem Expr.LoosenedInside.wellFormed {n : Nat} {c : Demand} {t t' : Expr}
    (h : LoosenedInside n c t t') (ht : t.WellFormed) : t'.WellFormed := by
  induction t generalizing n c t' with
  | literal _ | name _ | sizeOfType _ =>
    cases h
    trivial
  | call f args ih =>
    cases h with
    | call _ hargs =>
      simp only [WellFormed, eachWellFormed_iff] at ht ⊢
      intro arg' harg'
      obtain ⟨arg, harg, m, h⟩ := hargs.eachMore.exists_of_mem harg'
      exact h.of_inside (fun h => ih arg harg h (ht arg harg)) id
  | paren inner ih =>
    cases h with
    | paren hinner => exact hinner.of_inside (fun h => ih h ht) id
  | subscript base index ihb ihi =>
    cases h with
    | subscript hb hi =>
      exact ⟨hb.of_inside (fun h => ihb h ht.1) id, Nat.le_trans ht.2.1 hb.level_le,
        hi.of_inside (fun h => ihi h ht.2.2) id⟩
  | unary op operand ih =>
    cases h with
    | unary _ hoperand =>
      exact ⟨hoperand.of_inside (fun h => ih h ht.1) id, Nat.le_trans ht.2 hoperand.level_le⟩
  | binary op lhs rhs ihl ihr =>
    cases h with
    | binary _ hl hr =>
      refine ⟨hl.of_inside (fun h => ihl h ht.1) id, hr.of_inside (fun h => ihr h ht.2.1) id, ?_⟩
      have hlevels := ht.2.2
      split at hlevels
      · next hop =>
        rw [if_pos hop]
        exact Nat.le_trans hlevels hl.level_le
      · next hop =>
        rw [if_neg hop]
        exact ⟨Nat.le_trans hlevels.1 hl.level_le, Nat.lt_of_lt_of_le hlevels.2 hr.level_le⟩
  | cast type operand ih =>
    cases h with
    | cast _ hoperand =>
      exact ⟨hoperand.of_inside (fun h => ih h ht.1) id, Nat.le_trans ht.2 hoperand.level_le⟩
  | sizeOf operand ih =>
    cases h with
    | sizeOf hoperand =>
      exact ⟨hoperand.of_inside (fun h => ih h ht.1) id, Nat.le_trans ht.2 hoperand.level_le⟩

/-- An expression stays well formed with parentheses around it. -/
theorem Expr.Loosened.wellFormed {n : Nat} {c : Demand} {t t' : Expr} (h : Loosened n c t t')
    (ht : t.WellFormed) : t'.WellFormed :=
  h.of_inside (fun h => h.wellFormed ht) id

theorem OptionalLoosened.wellFormed {n : Nat} {c : Demand} {e e' : Option Expr}
    (h : OptionalLoosened n c e e') (he : ∀ t ∈ e, t.WellFormed) : ∀ t ∈ e', t.WellFormed := by
  cases h with
  | none => exact he
  | some h => exact fun t ht => Option.some.inj ht ▸ h.wellFormed (he _ rfl)

/-- A declarator stays well formed. -/
theorem Declarator.Loosened.wellFormed {aim : Aim} {n : Nat} {base : BaseType} {d d' : Declarator}
    (h : d.Loosened aim n d') (hd : d.WellFormed base) : d'.WellFormed base := by
  cases h with
  | intro hinit =>
    refine { hd with array := fun hlength => ?_, init := hinit.wellFormed hd.init }
    have hnone := hd.array hlength
    rw [hnone] at hinit
    cases hinit
    rfl

theorem Declaration.Loosened.wellFormed {aim : Aim} {n : Nat} {d d' : Declaration}
    (h : d.Loosened aim n d') (hd : d.WellFormed) : d'.WellFormed := by
  cases h with
  | intro hfirst hothers =>
    intro v hv
    obtain ⟨v₀, hv₀, m, h⟩ := (EachMore.cons hfirst hothers).exists_of_mem hv
    exact h.wellFormed (hd v₀ hv₀)

theorem ForInit.Loosened.wellFormed {aim : Aim} {n : Nat} {init init' : ForInit}
    (h : init.Loosened aim n init') (hinit : init.WellFormed) : init'.WellFormed := by
  cases h with
  | none => trivial
  | declare h => exact h.wellFormed hinit
  | expr h => exact h.wellFormed hinit

/-- Whether an `else` could be added to a statement does not depend on parentheses in expressions.
-/
theorem Stmt.Loosened.endsOpen_eq {aim : Aim} {n : Nat} {stmt stmt' : Stmt}
    (h : stmt.Loosened aim n stmt') :
    stmt'.endsOpen = stmt.endsOpen := by
  induction stmt generalizing n stmt' with
  | ifElse _ _ _ _ ih => cases h with | ifElse _ _ he => exact (ih he :)
  | whileLoop _ _ ih => cases h with | whileLoop _ hbody => exact (ih hbody :)
  | forLoop _ _ _ _ ih => cases h with | forLoop _ _ _ hbody => exact (ih hbody :)
  | _ =>
    cases h
    rfl

/-- A statement stays well formed. -/
theorem Stmt.Loosened.wellFormed {aim : Aim} {n : Nat} {stmt stmt' : Stmt}
    (h : stmt.Loosened aim n stmt') (hstmt : stmt.WellFormed) : stmt'.WellFormed := by
  induction stmt generalizing n stmt' with
  | block body ih =>
    cases h with
    | block hbody =>
      simp only [WellFormed, allWellFormed_iff] at hstmt ⊢
      intro v hv
      obtain ⟨v₀, hv₀, m, h⟩ := hbody.exists_of_mem hv
      exact ih v₀ hv₀ h (hstmt v₀ hv₀)
  | declare d => cases h with | declare hd => exact hd.wellFormed hstmt
  | expr e => cases h with | expr he => exact he.wellFormed hstmt
  | ifThen condition thenBranch ih =>
    cases h with
    | ifThen hc ht => exact ⟨hc.wellFormed hstmt.1, ih ht hstmt.2⟩
  | ifElse condition thenBranch elseBranch iht ihe =>
    cases h with
    | ifElse hc ht he =>
      exact ⟨hc.wellFormed hstmt.1, iht ht hstmt.2.1, ht.endsOpen_eq.trans hstmt.2.2.1,
        ihe he hstmt.2.2.2⟩
  | whileLoop condition body ih =>
    cases h with
    | whileLoop hc hbody => exact ⟨hc.wellFormed hstmt.1, ih hbody hstmt.2⟩
  | forLoop init condition increment body ih =>
    cases h with
    | forLoop hinit hc hi hbody =>
      exact ⟨hinit.wellFormed hstmt.1, hc.wellFormed hstmt.2.1, hi.wellFormed hstmt.2.2.1,
        ih hbody hstmt.2.2.2⟩
  | ret value => cases h with | ret hvalue => exact hvalue.wellFormed hstmt
  | empty => cases h with | empty => trivial

/-- A function stays well formed. -/
theorem Function.Loosened.wellFormed {aim : Aim} {n : Nat} {f f' : Function}
    (h : f.Loosened aim n f') (hf : f.WellFormed) : f'.WellFormed := by
  obtain ⟨returnType, name, params, body⟩ := f
  cases h with
  | intro hbody =>
    cases hbody with
    | none => exact hf
    | some hbody =>
      refine { hf with body := ?_ }
      rintro _ ⟨⟩ stmt hstmt
      obtain ⟨stmt₀, hstmt₀, m, h⟩ := hbody.exists_of_mem hstmt
      exact h.wellFormed (hf.body _ rfl stmt₀ hstmt₀)

/-- A file stays well formed, so its text can be read. -/
theorem File.Loosened.wellFormed {aim : Aim} {n : Nat} {file file' : File}
    (h : file.Loosened aim n file') (hfile : file.WellFormed) : file'.WellFormed := by
  intro d' hd'
  obtain ⟨d, hd, m, h⟩ := h.exists_of_mem hd'
  cases h with
  | declaration h => exact h.wellFormed (hfile _ hd)
  | function h => exact h.wellFormed (hfile _ hd)

end Written

end MiniC
