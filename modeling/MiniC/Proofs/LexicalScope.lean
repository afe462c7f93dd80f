import MiniC.Proofs.TreeExistence

/-!
# Names and scopes in a text

A name in a text declares something or uses something. `Written.File.marks` lists the names of a
file with their positions and the scopes around them. Scopes are the file, one for every function,
with its parameters and the top level of its body, one for every other block, and one for every
`for` statement; a scope is named by the position where it opens. What a use means is the
declaration that comes before it in the innermost of the scopes around it that has one
(`Written.Visible`).
-/

set_option autoImplicit false

namespace MiniC.Written

/-! ## Names in a text -/

/-- What a name in a text does. -/
inductive Role where
  | variable | prototype | definition
  | reference | call
  deriving DecidableEq

/-- Whether a name declares something; it uses something otherwise. -/
def Role.declares : Role → Bool
  | .variable | .prototype | .definition => true
  | .reference | .call => false

/-- Whether a name declares a function. -/
def Role.isFunction : Role → Bool
  | .prototype | .definition => true
  | .variable | .reference | .call => false

/-- The name in a declaration or definition of a function declares it. -/
theorem Role.declares_of_isFunction {role : Role} (h : role.isFunction = true) :
    role.declares = true := by
  revert h
  cases role <;> decide

/-- What is declared and is no function is a variable. -/
theorem Role.eq_variable {role : Role} (hdecl : role.declares = true)
    (h : role.isFunction = false) :
    role = .variable := by
  revert hdecl h
  cases role <;> decide

/-- A position in a text: the number of tokens before it, and the positions where the scopes around
it open, the innermost first. -/
structure Spot where
  pos : Nat
  scope : List Nat
  deriving DecidableEq

/-- A name in a text. -/
structure Mark extends Spot where
  name : String
  role : Role
  deriving DecidableEq

/-- The first mark declares what the second one uses: it comes before it, in the innermost scope
around it that declares the name. -/
structure Visible (marks : List Mark) (decl use : Mark) : Prop where
  mem : decl ∈ marks
  declares : decl.role.declares = true
  name : decl.name = use.name
  before : decl.pos < use.pos
  encloses : decl.scope <:+ use.scope
  innermost : ∀ other ∈ marks, other.role.declares = true → other.name = use.name →
    other.pos < use.pos → other.scope <:+ use.scope → other.scope <:+ decl.scope

instance (marks : List Mark) (decl use : Mark) : Decidable (Visible marks decl use) :=
  decidable_of_iff (decl ∈ marks ∧ decl.role.declares = true ∧ decl.name = use.name ∧
    decl.pos < use.pos ∧
      decl.scope <:+ use.scope ∧ ∀ other ∈ marks, other.role.declares = true →
        other.name = use.name →
        other.pos < use.pos → other.scope <:+ use.scope → other.scope <:+ decl.scope)
    ⟨fun ⟨hmem, hdecl, hname, hbefore, hencloses, hinnermost⟩ =>
        ⟨hmem, hdecl, hname, hbefore, hencloses, hinnermost⟩,
      fun ⟨hmem, hdecl, hname, hbefore, hencloses, hinnermost⟩ =>
        ⟨hmem, hdecl, hname, hbefore, hencloses, hinnermost⟩⟩

instance (marks : List Mark) (use : Mark) : Decidable (∃ decl, Visible marks decl use) :=
  decidable_of_iff (∃ decl ∈ marks, Visible marks decl use)
    ⟨fun ⟨decl, _, h⟩ => ⟨decl, h⟩, fun ⟨decl, h⟩ => ⟨decl, h.mem, h⟩⟩

/-! ## Texts with their scopes -/

/-- A token, which may be a name that does something, or the beginning or the end of a scope. -/
inductive Event where
  | token (x : Lexeme)
  | name (x : String) (role : Role)
  | enter
  | leave

/-- The lexeme of a token. -/
def Event.lexeme? : Event → Option Lexeme
  | .token x => some x
  | .name x _ => some (.identifier x)
  | .enter | .leave => none

/-- The position after an event. -/
def Spot.step (spot : Spot) : Event → Spot
  | .token _ | .name _ _ => ⟨spot.pos + 1, spot.scope⟩
  | .enter => ⟨spot.pos, spot.pos :: spot.scope⟩
  | .leave => ⟨spot.pos, spot.scope.tail⟩

/-- The position after events. -/
def Spot.after (spot : Spot) (es : List Event) : Spot := es.foldl Spot.step spot

/-- The name that an event at a position is. -/
def markAt (spot : Spot) : Event → List Mark
  | .name x role => [⟨spot, x, role⟩]
  | .token _ | .enter | .leave => []

/-- The names among events that begin at a position. -/
def marksFrom : Spot → List Event → List Mark
  | _, [] => []
  | spot, e :: es => markAt spot e ++ marksFrom (spot.step e) es

/-- Tokens that do nothing to scopes. -/
def plain (ls : List Lexeme) : List Event := ls.map .token

/-- Sequences of events with commas between them. -/
def traceInCommas : List (List Event) → List Event
  | [] => []
  | first :: others => first ++ others.flatMap (.token (.punct .comma) :: ·)

namespace Expr

mutual

/-- The tokens of an expression, with what their names do. -/
def trace : Expr → List Event
  | .literal value => plain [.integer value]
  | .name x => [.name x .reference]
  | .call f args =>
    .name f .call :: .token (.punct .leftParen) ::
      (traceInCommas (traceEach args) ++ plain [.punct .rightParen])
  | .paren inner => .token (.punct .leftParen) :: (inner.trace ++ plain [.punct .rightParen])
  | .subscript base index =>
    base.trace ++ .token (.punct .leftBracket) :: (index.trace ++ plain [.punct .rightBracket])
  | .unary op operand =>
    if op.trails then operand.trace ++ plain [.punct op.sign]
      else .token (.punct op.sign) :: operand.trace
  | .binary op lhs rhs => lhs.trace ++ .token (.punct op.sign) :: rhs.trace
  | .cast type operand =>
    .token (.punct .leftParen) :: (plain type.lexemes ++
      .token (.punct .rightParen) :: operand.trace)
  | .sizeOfType type =>
    .token (.keyword .sizeofKw) :: .token (.punct .leftParen) ::
      (plain type.lexemes ++ plain [.punct .rightParen])
  | .sizeOf operand => .token (.keyword .sizeofKw) :: operand.trace

/-- The same of every argument of a call. -/
def traceEach : List Expr → List (List Event)
  | [] => []
  | arg :: args => arg.trace :: traceEach args

end

theorem traceEach_eq_map (args : List Expr) : traceEach args = args.map trace := by
  induction args with
  | nil => rfl
  | cons arg args ih => rw [traceEach, ih, List.map_cons]

end Expr

/-- The tokens of an expression that may be missing. -/
def optionalTrace : Option Expr → List Event
  | none => []
  | some e => e.trace

/-- The tokens of the initialiser of a declarator, with its sign. -/
def Declarator.initTrace (d : Declarator) : List Event :=
  match d.init with
  | none => []
  | some e => .token (.punct .assign) :: e.trace

/-- The tokens of a declarator; the name is declared before the initialiser. -/
def Declarator.trace (d : Declarator) : List Event :=
  plain (List.replicate d.stars (.punct .star)) ++
    .name d.name .variable :: (plain d.lengthLexemes ++ d.initTrace)

/-- The tokens of a declaration. -/
def Declaration.trace (d : Declaration) : List Event :=
  .token (.keyword d.base.word) ::
    (traceInCommas (d.declarators.map Declarator.trace) ++ plain [.punct .semicolon])

/-- The tokens of the first clause of a `for` statement. -/
def ForInit.trace : ForInit → List Event
  | .none => plain [.punct .semicolon]
  | .declare d => d.trace
  | .expr e => e.trace ++ plain [.punct .semicolon]

namespace Stmt

mutual

/-- The tokens of a statement. Blocks and `for` statements are scopes, branches and other loops are
not. -/
def trace : Stmt → List Event
  | .block body =>
    .token (.punct .leftBrace) :: (.enter :: (traceAll body ++ [.leave]) ++
      plain [.punct .rightBrace])
  | .declare d => d.trace
  | .expr e => e.trace ++ plain [.punct .semicolon]
  | .ifThen condition thenBranch =>
    .token (.keyword .ifKw) :: .token (.punct .leftParen) ::
      (condition.trace ++ .token (.punct .rightParen) :: thenBranch.trace)
  | .ifElse condition thenBranch elseBranch =>
    .token (.keyword .ifKw) :: .token (.punct .leftParen) ::
      (condition.trace ++ .token (.punct .rightParen) ::
        (thenBranch.trace ++ .token (.keyword .elseKw) :: elseBranch.trace))
  | .whileLoop condition body =>
    .token (.keyword .whileKw) :: .token (.punct .leftParen) ::
      (condition.trace ++ .token (.punct .rightParen) :: body.trace)
  | .forLoop init condition increment body =>
    .token (.keyword .forKw) :: .enter :: (.token (.punct .leftParen) ::
      (init.trace ++ (optionalTrace condition ++ .token (.punct .semicolon) ::
        (optionalTrace increment ++ .token (.punct .rightParen) :: body.trace))) ++ [.leave])
  | .ret value => .token (.keyword .returnKw) :: (optionalTrace value ++ plain [.punct .semicolon])
  | .empty => plain [.punct .semicolon]

/-- The tokens of the statements of a block. -/
def traceAll : List Stmt → List Event
  | [] => []
  | stmt :: stmts => stmt.trace ++ traceAll stmts

end

end Stmt

/-- The name of a parameter, which may be missing. -/
def Param.nameTrace (p : Param) : List Event :=
  match p.name with
  | none => []
  | some x => if x.isEmpty then [.token (.identifier x)] else [.name x .variable]

/-- The tokens of a parameter. -/
def Param.trace (p : Param) : List Event :=
  plain p.typeName.lexemes ++ (p.nameTrace ++ plain p.lengthLexemes)

/-- The tokens of the parameters of a function. -/
def Params.trace : Params → List Event
  | .void => plain [.keyword .voidKw]
  | .list params => traceInCommas (params.map Param.trace)

/-- The role of the name in a declaration of a function. -/
def Function.role (f : Function) : Role := if f.body.isSome then .definition else .prototype

/-- The tokens of the body of a function, or the semicolon of a declaration without one. -/
def Function.bodyTrace (f : Function) : List Event :=
  match f.body with
  | none => plain [.punct .semicolon]
  | some body => .token (.punct .leftBrace) :: (Stmt.traceAll body ++ plain [.punct .rightBrace])

/-- The tokens of a function. Its name belongs to the file; parameters and body share a scope. -/
def Function.trace (f : Function) : List Event :=
  plain f.returnType.lexemes ++ .name f.name f.role :: .token (.punct .leftParen) ::
    .enter :: (f.params.trace ++ .token (.punct .rightParen) :: f.bodyTrace ++ [.leave])

/-- The tokens of a declaration of the file. -/
def Item.trace : Item → List Event
  | .declaration d => d.trace
  | .function f => f.trace

/-- The tokens of a declaration of the file, which may begin with the word `extern`. -/
def TopLevel.trace (d : TopLevel) : List Event :=
  plain (if d.isExtern then [.keyword .externKw] else []) ++ d.item.trace

/-- The tokens of a file. -/
def File.trace (file : File) : List Event := file.declarations.flatMap TopLevel.trace

/-- The names of a file. -/
def File.marks (file : File) : List Mark := marksFrom ⟨0, []⟩ file.trace

/-! ## Traces spell their trees -/

/-- The lexemes among events. -/
def spell (es : List Event) : List Lexeme := es.filterMap Event.lexeme?

@[simp] theorem spell_nil : spell [] = [] := rfl

@[simp] theorem spell_cons (e : Event) (es : List Event) :
    spell (e :: es) = e.lexeme?.toList ++ spell es := by
  rw [spell, List.filterMap_cons]
  cases e.lexeme? <;> rfl

/-- The lexemes of a sequence are those of its parts. -/
@[simp] theorem spell_append (es es' : List Event) : spell (es ++ es') = spell es ++ spell es' :=
  List.filterMap_append

@[simp] theorem spell_plain (ls : List Lexeme) : spell (plain ls) = ls := by
  induction ls with
  | nil => rfl
  | cons x ls ih =>
    change x :: spell (plain ls) = x :: ls
    rw [ih]

@[simp] theorem lexeme?_token (x : Lexeme) : (Event.token x).lexeme? = some x := rfl

@[simp] theorem lexeme?_name (x : String) (role : Role) :
    (Event.name x role).lexeme? = some (.identifier x) := rfl

@[simp] theorem lexeme?_enter : Event.enter.lexeme? = none := rfl

@[simp] theorem lexeme?_leave : Event.leave.lexeme? = none := rfl

/-- The commas of a list are among its lexemes. -/
theorem spell_traceInCommas {ι : Type} {trace : ι → List Event}
    {lexemes : ι → List Lexeme} {ts : List ι} (h : ∀ t ∈ ts, spell (trace t) = lexemes t) :
    spell (traceInCommas (ts.map trace)) = inCommas (ts.map lexemes) := by
  have hafter : ∀ ts : List ι, (∀ t ∈ ts, spell (trace t) = lexemes t) →
      spell ((ts.map trace).flatMap (.token (.punct .comma) :: ·)) =
        (ts.map lexemes).flatMap (.punct .comma :: ·) := by
    intro ts h
    induction ts with
    | nil => rfl
    | cons t ts ih =>
      rw [List.forall_mem_cons] at h
      simp [h.1, ih h.2]
  cases ts with
  | nil => rfl
  | cons t ts =>
    rw [List.forall_mem_cons] at h
    simp [traceInCommas, inCommas, h.1, hafter ts h.2]

/-- The trace of an expression spells the expression. -/
theorem Expr.spell_trace (e : Expr) : spell e.trace = e.lexemes := by
  induction e with
  | call f args ih =>
    rw [trace, lexemes, traceEach_eq_map, lexemesOfEach_eq_map]
    simp [spell_traceInCommas ih]
  | unary op operand ih =>
    rw [trace, lexemes]
    split <;> simp [ih]
  | literal | name => simp [trace, lexemes]
  | paren inner ih | cast type inner ih | sizeOf inner ih => simp [trace, lexemes, ih]
  | subscript base index ih ih' | binary op base index ih ih' => simp [trace, lexemes, ih, ih']
  | sizeOfType type => simp [trace, lexemes]

theorem spell_optionalTrace (e : Option Expr) : spell (optionalTrace e) = optionalLexemes e := by
  cases e with
  | none => rfl
  | some e => exact e.spell_trace

/-- The trace of a declarator spells the declarator. -/
theorem Declarator.spell_trace (d : Declarator) : spell d.trace = d.lexemes := by
  have hinit : spell d.initTrace = d.initLexemes := by
    unfold initTrace initLexemes
    cases d.init with
    | none => rfl
    | some e => simp [e.spell_trace]
  simp [trace, lexemes, hinit]

/-- The trace of a list of declarators spells that list. -/
theorem Declaration.spell_trace (d : Declaration) : spell d.trace = d.lexemes := by
  have hds : spell (traceInCommas (d.declarators.map Declarator.trace)) =
      inCommas (d.declarators.map Declarator.lexemes) :=
    spell_traceInCommas fun v _ => v.spell_trace
  simp [trace, lexemes, hds]

/-- The trace of the first clause of a loop spells that clause. -/
theorem ForInit.spell_trace (init : ForInit) : spell init.trace = init.lexemes := by
  cases init with
  | none => rfl
  | declare d => exact d.spell_trace
  | expr e => simp [trace, lexemes, e.spell_trace]

namespace Stmt

theorem spell_traceAll {body : List Stmt} (h : ∀ stmt ∈ body, spell stmt.trace = stmt.lexemes) :
    spell (traceAll body) = lexemesOfAll body := by
  induction body with
  | nil => rfl
  | cons stmt body ih =>
    rw [List.forall_mem_cons] at h
    simp [traceAll, lexemesOfAll, h.1, ih h.2]

/-- The trace of a statement spells the statement; its scopes leave no lexemes. -/
theorem spell_trace (stmt : Stmt) : spell stmt.trace = stmt.lexemes := by
  induction stmt with
  | block body ih => simp [trace, lexemes, spell_traceAll ih]
  | declare d => exact d.spell_trace
  | expr e => simp [trace, lexemes, e.spell_trace]
  | ifThen condition thenBranch ih => simp [trace, lexemes, condition.spell_trace, ih]
  | ifElse condition thenBranch elseBranch iht ihe =>
    simp [trace, lexemes, condition.spell_trace, iht, ihe]
  | whileLoop condition body ih => simp [trace, lexemes, condition.spell_trace, ih]
  | forLoop init condition increment body ih =>
    simp [trace, lexemes, init.spell_trace, spell_optionalTrace, ih]
  | ret value => simp [trace, lexemes, spell_optionalTrace]
  | empty => rfl

end Stmt

theorem Param.spell_nameTrace (p : Param) : spell p.nameTrace = p.name.toList.map .identifier := by
  unfold nameTrace
  cases p.name with
  | none => rfl
  | some x =>
    dsimp only
    split <;> rfl

/-- The trace of a parameter spells the parameter. -/
theorem Param.spell_trace (p : Param) : spell p.trace = p.lexemes := by
  simp [trace, lexemes, p.spell_nameTrace]

/-- The trace of a function spells the function. -/
theorem Function.spell_trace (f : Function) : spell f.trace = f.lexemes := by
  have hparams : spell f.params.trace = f.params.lexemes := by
    cases f.params with
    | void => rfl
    | list params => exact spell_traceInCommas fun p _ => p.spell_trace
  have hbody : spell f.bodyTrace = f.bodyLexemes := by
    unfold bodyTrace bodyLexemes
    cases f.body with
    | none => rfl
    | some body => simp [Stmt.spell_traceAll fun stmt _ => stmt.spell_trace]
  simp [trace, lexemes, hparams, hbody]

/-- The tokens of a trace are those of its file. -/
theorem File.spell_trace (file : File) : spell file.trace = file.lexemes := by
  unfold trace lexemes
  induction file.declarations with
  | nil => rfl
  | cons d ds ih =>
    have hd : spell d.trace = d.lexemes := by
      rw [TopLevel.trace, TopLevel.lexemes, spell_append, spell_plain]
      cases d.item with
      | declaration v => rw [Item.trace, Item.lexemes, v.spell_trace]
      | function f => rw [Item.trace, Item.lexemes, f.spell_trace]
    simp [hd, ih]

/-! ## Positions of marks -/

/-- Names later in a sequence are found from the position that its first part leads to. -/
theorem marksFrom_append (spot : Spot) (es es' : List Event) :
    marksFrom spot (es ++ es') = marksFrom spot es ++ marksFrom (spot.after es) es' := by
  induction es generalizing spot with
  | nil => rfl
  | cons e es ih => rw [List.cons_append, marksFrom, marksFrom, ih, List.append_assoc]; rfl

/-- The position after a sequence is that after its second part. -/
theorem after_append (spot : Spot) (es es' : List Event) :
    spot.after (es ++ es') = (spot.after es).after es' := List.foldl_append

/-- Every lexeme moves the position on by one. -/
theorem pos_after (spot : Spot) (es : List Event) :
    (spot.after es).pos = spot.pos + (spell es).length := by
  induction es generalizing spot with
  | nil => rfl
  | cons e es ih =>
    have hstep : (spot.step e).pos = spot.pos + e.lexeme?.toList.length := by cases e <;> rfl
    change ((spot.step e).after es).pos = _
    rw [ih, hstep, spell_cons, List.length_append, Nat.add_assoc]

/-- A mark is an identifier in the text, at the position that it says. -/
theorem spell_getElem_of_mem {spot : Spot} {es : List Event} {m : Mark}
    (h : m ∈ marksFrom spot es) :
    spot.pos ≤ m.pos ∧ (spell es)[m.pos - spot.pos]? = some (.identifier m.name) := by
  induction es generalizing spot with
  | nil => cases h
  | cons e es ih =>
    rcases List.mem_append.1 h with h | h
    · cases e with
      | name x role =>
        obtain rfl : m = ⟨spot, x, role⟩ := by simpa [markAt] using h
        simp
      | token _ | enter | leave => cases h
    · obtain ⟨hle, hget⟩ := ih h
      cases e with
      | token x | name x role =>
        have hle : spot.pos + 1 ≤ m.pos := hle
        have hget : (spell es)[m.pos - (spot.pos + 1)]? = some (.identifier m.name) := hget
        refine ⟨by omega, ?_⟩
        rw [show m.pos - spot.pos = (m.pos - (spot.pos + 1)) + 1 by omega]
        exact hget
      | enter | leave => exact ⟨hle, hget⟩

/-- Names at the same position are the same. -/
theorem eq_of_pos_eq {spot : Spot} {es : List Event} {m m' : Mark} (hm : m ∈ marksFrom spot es)
    (hm' : m' ∈ marksFrom spot es) (hpos : m.pos = m'.pos) : m = m' := by
  induction es generalizing spot with
  | nil => cases hm
  | cons e es ih =>
    cases e with
    | name x role =>
      -- the names after this one lie further on
      have hlater {m : Mark} (hm : m ∈ marksFrom (spot.step (.name x role)) es) :
          spot.pos < m.pos :=
        (spell_getElem_of_mem hm).1
      rcases List.mem_cons.1 hm with rfl | hm <;> rcases List.mem_cons.1 hm' with rfl | hm'
      · rfl
      · exact absurd hpos (Nat.ne_of_lt (hlater hm'))
      · exact absurd hpos.symm (Nat.ne_of_lt (hlater hm))
      · exact ih hm hm'
    | token _ | enter | leave => exact ih hm hm'

/-! ## Scopes are closed -/

/-- After the events the same scopes are open as before them. -/
def Closed (es : List Event) : Prop := ∀ spot : Spot, (spot.after es).scope = spot.scope

/-- Two sequences that leave what they open do so together. -/
theorem Closed.append {es es' : List Event} (h : Closed es) (h' : Closed es') :
    Closed (es ++ es') := by
  intro spot
  rw [after_append, h', h]

theorem Closed.token {es : List Event} (h : Closed es) (x : Lexeme) : Closed (.token x :: es) :=
  fun spot =>
  h ⟨spot.pos + 1, spot.scope⟩

theorem Closed.name {es : List Event} (h : Closed es) (x : String) (role : Role) :
    Closed (.name x role :: es) := fun spot => h ⟨spot.pos + 1, spot.scope⟩

theorem closed_nil : Closed [] := fun _ => rfl

theorem closed_plain (ls : List Lexeme) : Closed (plain ls) := by
  induction ls with
  | nil => exact closed_nil
  | cons x ls ih => exact ih.token x

/-- A scope around a closed sequence is closed. -/
theorem Closed.inScope {es : List Event} (h : Closed es) : Closed (.enter :: (es ++ [.leave])) := by
  intro spot
  change (((spot.step .enter).after (es ++ [.leave]))).scope = spot.scope
  rw [after_append]
  change (((spot.step .enter).after es).scope).tail = spot.scope
  rw [h]
  rfl

/-- Commas open no scopes. -/
theorem closed_traceInCommas {ts : List (List Event)} (h : ∀ es ∈ ts, Closed es) :
    Closed (traceInCommas ts) := by
  have hafter : ∀ ts : List (List Event), (∀ es ∈ ts, Closed es) →
      Closed (ts.flatMap (.token (.punct .comma) :: ·)) := by
    intro ts h
    induction ts with
    | nil => exact closed_nil
    | cons es ts ih =>
      rw [List.forall_mem_cons] at h
      exact (h.1.token _).append (ih h.2)
  cases ts with
  | nil => exact closed_nil
  | cons es ts =>
    rw [List.forall_mem_cons] at h
    exact h.1.append (hafter ts h.2)

/-- An expression opens no scopes. -/
theorem Expr.closed_trace (e : Expr) : Closed e.trace := by
  induction e with
  | literal value => exact closed_plain _
  | name x => exact closed_nil.name _ _
  | call f args ih =>
    rw [trace, traceEach_eq_map]
    exact (((closed_traceInCommas (List.forall_mem_map.2 ih)).append
      (closed_plain _)).token _).name _ _
  | paren inner ih => exact (ih.append (closed_plain _)).token _
  | subscript base index ih ih' => exact ih.append ((ih'.append (closed_plain _)).token _)
  | unary op operand ih =>
    rw [trace]
    split
    · exact ih.append (closed_plain _)
    · exact ih.token _
  | binary op lhs rhs ih ih' => exact ih.append (ih'.token _)
  | cast type operand ih => exact ((closed_plain _).append (ih.token _)).token _
  | sizeOfType type => exact (((closed_plain _).append (closed_plain _)).token _).token _
  | sizeOf operand ih => exact ih.token _

theorem closed_optionalTrace (e : Option Expr) : Closed (optionalTrace e) := by
  cases e with
  | none => exact closed_nil
  | some e => exact e.closed_trace

/-- A declarator opens no scopes. -/
theorem Declarator.closed_trace (d : Declarator) : Closed d.trace := by
  have hinit : Closed d.initTrace := by
    unfold initTrace
    split
    · exact closed_nil
    · next e _ => exact e.closed_trace.token _
  exact (closed_plain _).append (((closed_plain _).append hinit).name _ _)

/-- A list of declarators opens no scopes. -/
theorem Declaration.closed_trace (d : Declaration) : Closed d.trace := by
  have hds : ∀ es ∈ d.declarators.map Declarator.trace, Closed es :=
    List.forall_mem_map.2 fun v _ => v.closed_trace
  exact ((closed_traceInCommas hds).append (closed_plain _)).token _

theorem ForInit.closed_trace (init : ForInit) : Closed init.trace := by
  cases init with
  | none => exact closed_plain _
  | declare d => exact d.closed_trace
  | expr e => exact e.closed_trace.append (closed_plain _)

namespace Stmt

theorem closed_traceAll {body : List Stmt} (h : ∀ stmt ∈ body, Closed stmt.trace) :
    Closed (traceAll body) := by
  induction body with
  | nil => exact closed_nil
  | cons stmt body ih =>
    rw [List.forall_mem_cons] at h
    exact h.1.append (ih h.2)

/-- Every scope that a statement opens ends in it. -/
theorem closed_trace (stmt : Stmt) : Closed stmt.trace := by
  induction stmt with
  | block body ih => exact ((closed_traceAll ih).inScope.append (closed_plain _)).token _
  | declare d => exact d.closed_trace
  | expr e => exact e.closed_trace.append (closed_plain _)
  | ifThen condition thenBranch ih =>
    exact ((condition.closed_trace.append (ih.token _)).token _).token _
  | ifElse condition thenBranch elseBranch iht ihe =>
    exact ((condition.closed_trace.append ((iht.append (ihe.token _)).token _)).token _).token _
  | whileLoop condition body ih =>
    exact ((condition.closed_trace.append (ih.token _)).token _).token _
  | forLoop init condition increment body ih =>
    have hincrement := (closed_optionalTrace increment).append (ih.token (.punct .rightParen))
    have hcondition :=
      (closed_optionalTrace condition).append (hincrement.token (.punct .semicolon))
    exact ((init.closed_trace.append hcondition).token _).inScope.token _
  | ret value => exact ((closed_optionalTrace value).append (closed_plain _)).token _
  | empty => exact closed_plain _

end Stmt

theorem Param.closed_trace (p : Param) : Closed p.trace := by
  have hname : Closed p.nameTrace := by
    unfold nameTrace
    split
    · exact closed_nil
    · split
      · exact closed_nil.token _
      · exact closed_nil.name _ _
  exact (closed_plain _).append (hname.append (closed_plain _))

/-- The scope of a function ends with it. -/
theorem Function.closed_trace (f : Function) : Closed f.trace := by
  have hparams : Closed f.params.trace := by
    cases f.params with
    | void => exact closed_plain _
    | list params => exact closed_traceInCommas (List.forall_mem_map.2 fun p _ => p.closed_trace)
  have hbody : Closed f.bodyTrace := by
    unfold bodyTrace
    split
    · exact closed_plain _
    · exact ((Stmt.closed_traceAll fun stmt _ => stmt.closed_trace).append (closed_plain _)).token _
  exact (closed_plain _).append (((hparams.append (hbody.token _)).inScope.token _).name _ _)

/-- The scope of the file is the only one that is open between its declarations. -/
theorem TopLevel.closed_trace (d : TopLevel) : Closed d.trace := by
  refine (closed_plain _).append ?_
  cases d.item with
  | declaration v => exact v.closed_trace
  | function f => exact f.closed_trace

end MiniC.Written
