import MiniC.Proofs.ExpressionReading

/-!
# Reading a well-formed file

On the lexemes of well-formed declarations, statements and files the grammar does what building them
does (`Written.translationUnit_eq_build`). A statement that ends in an `if` without `else` must not
be followed by an `else`.
-/

set_option autoImplicit false

namespace MiniC.Written

open MiniC.Parser

variable {l after : List Lexeme}

/-! ## Variables -/

/-- What follows a declarator. -/
def EndsDeclarator (after : List Lexeme) : Prop :=
  ∃ sign ∈ [Punct.comma, .semicolon], after.head? = some (.punct sign)

/-- What ends a declarator ends its initialiser. -/
theorem EndsDeclarator.stops (h : EndsDeclarator after) : Stops 0 after := by
  obtain ⟨sign, hsign, hhead⟩ := h
  obtain ⟨rest, rfl⟩ := List.head?_eq_some_iff.1 hhead
  have hmem : sign ∈ [Punct.rightParen, .rightBracket, .semicolon, .comma] := by
    simp only [List.mem_cons, List.not_mem_nil, or_false] at hsign ⊢
    rcases hsign with rfl | rfl <;> simp
  exact stops_of_mem hmem 0 rest

/-- No sign but a comma or a semicolon ends a declarator. -/
theorem EndsDeclarator.head_ne (h : EndsDeclarator after) {sign : Punct}
    (hsign : sign ∉ [Punct.comma, .semicolon]) : after.head? ≠ some (.punct sign) := by
  obtain ⟨sign', hsign', hhead⟩ := h
  rw [hhead]
  rintro ⟨⟩
  exact hsign hsign'

/-- A base type with stars is that type with as many pointers. -/
theorem withPointers_ofBase (base : BaseType) (n : Nat) :
    (CType.ofBase base).withPointers n = .value base n none := by
  induction n with
  | zero => rfl
  | succ n ih => rw [CType.withPointers, ih, CType.withPointer]

/-- The length in brackets is read as written. -/
theorem matches_variableType (base : BaseType) (d : Declarator) (hlength : d.length ≠ some 0)
    (hnext : (l ++ after).head? ≠ some (.punct .leftBracket)) {α : Type} {f : CType → Parser α}
    {g : Unit → Parser α} (h : Matches (f (d.type base)) (g ()) l after) :
    Matches (variableType ((CType.ofBase base).withPointers d.stars) >>= f)
      (skip d.lengthLexemes.length >>= g) (d.lengthLexemes ++ l) after := by
  unfold variableType Declarator.lengthLexemes
  rw [bind_assoc]
  cases hd : d.length with
  | none =>
    rw [Declarator.type, hd] at h
    exact .accept_ne hnext h
  | some n =>
    rw [Declarator.type, hd] at h
    obtain ⟨n, rfl⟩ := Nat.exists_eq_succ_of_ne_zero (n := n) (by rintro rfl; exact hlength hd)
    change Matches _ (advance >>= fun _ => advance >>= fun _ => advance >>= g)
      (.punct .leftBracket :: .integer (n + 1) :: .punct .rightBracket :: l) after
    refine .accept ?_
    rw [if_pos rfl, bind_assoc]
    unfold arrayLength
    rw [bind_assoc]
    refine .peek ?_
    rw [List.cons_append, List.head?_cons]
    dsimp only
    rw [bind_assoc]
    refine .advance ?_
    rw [bind_assoc]
    refine .expect ?_
    rw [pure_bind, bind_assoc]
    refine .check ?_
    rw [decide_eq_false hnext, if_neg Bool.false_ne_true, pure_bind]
    exact h

/-- What comes after the name of a variable is built as written. -/
theorem matches_variableRest {base : BaseType} {d : Declarator} (hd : d.WellFormed base)
    (hafter : EndsDeclarator after) (loc : Location) (storage : Storage) :
    Matches (variableRest ((CType.ofBase base).withPointers d.stars) d.name loc storage)
      (d.buildRest base loc storage) (d.lengthLexemes ++ d.initLexemes) after := by
  unfold variableRest Declarator.buildRest Declarator.initLexemes
  refine matches_variableType base d hd.length ?_ ?_
  · cases d.init with
    | none => exact hafter.head_ne (by simp)
    | some e => simp
  · rw [hd.notVoid, if_neg Bool.false_ne_true]
    refine .same (.addDecl _ _ _) fun v => .same (.declare _ v loc) fun _ =>
      .here_left fun equals => ?_
    cases hinit : d.init with
    | none => exact .accept_ne (hafter.head_ne (by simp)) (.pure v)
    | some e =>
      have harray : (d.type base).isArray = false := by
        have hlength : d.length = none := by
          rw [← Option.not_isSome_iff_eq_none]
          intro hsome
          rw [hd.array hsome] at hinit
          cases hinit
        rw [Declarator.type, hlength, withPointers_ofBase]
        rfl
      refine .accept ?_
      dsimp only
      rw [if_pos rfl, harray, if_neg Bool.false_ne_true, ← List.append_nil e.lexemes]
      refine .bind (matches_expression (hd.init e hinit) hafter.stops) fun id => ?_
      exact .same (.modifyDecl v _) fun _ => .pure v

/-- A declarator is built as written. -/
theorem matches_declarator {base : BaseType} {d : Declarator} (hd : d.WellFormed base)
    (hafter : EndsDeclarator after) (storage : Storage) :
    Matches (declarator (.ofBase base) storage) (d.build base storage) d.lexemes after := by
  unfold declarator Declarator.build Declarator.lexemes
  refine .stars (by simp) (.here fun loc => .identifier ?_)
  exact matches_variableRest hd hafter loc storage

/-- The other declarators of a list are built one after the other. -/
theorem matches_otherDeclarators {base : BaseType} {ds : List Declarator}
    (hds : ∀ d ∈ ds, d.WellFormed base) (storage : Storage) {α : Type}
    {f g : List DeclId → Parser α}
    (h : ∀ ids, Matches (f ids) (g ids) l after) :
    Matches (otherDeclarators (.ofBase base) storage >>= f)
      (buildAfterCommas (ds.map (Declarator.build base storage)) >>= fun ids =>
        advance >>= fun _ => g ids)
      ((ds.map Declarator.lexemes).flatMap (.punct .comma :: ·) ++
        .punct .semicolon :: l) after := by
  unfold otherDeclarators
  rw [bind_assoc]
  refine .remaining ?_
  rw [bind_assoc]
  refine .bind (.afterCommas (fun d hd rest => ?_) (fun d hd => ?_) (by simp) ?_) fun ids => ?_
  · exact matches_declarator (hds d hd) ⟨.comma, by simp, rfl⟩ storage
  · exact matches_declarator (hds d hd) ⟨.semicolon, by simp, rfl⟩ storage
  · simp only [List.length_append]
    omega
  · rw [bind_assoc]
    refine .expect ?_
    rw [pure_bind]
    exact h ids

/-- After a declarator comes a comma, or the semicolon of the list. -/
theorem endsDeclarator_others (ds : List Declarator) (rest : List Lexeme) :
    EndsDeclarator ((ds.map Declarator.lexemes).flatMap (.punct .comma :: ·) ++
      .punct .semicolon :: rest) := by
  cases ds with
  | nil => exact ⟨.semicolon, by simp, rfl⟩
  | cons _ _ => exact ⟨.comma, by simp, rfl⟩

/-- A local declaration is built as written. -/
theorem matches_localDeclaration {d : Declaration} (hd : d.WellFormed) :
    Matches localDeclaration (d.build .local) d.lexemes after := by
  unfold localDeclaration Declaration.build Declaration.lexemes Declaration.declarators
  rw [List.map_cons, List.map_cons, buildInCommas, inCommas, List.append_assoc]
  refine .baseType ?_
  rw [bind_assoc]
  refine .bind (matches_declarator (hd d.first (by simp [Declaration.declarators])) ?_ .local)
    fun id => ?_
  · rw [List.append_assoc]
    exact endsDeclarator_others d.others after
  · simp only [bind_assoc, pure_bind]
    refine matches_otherDeclarators (fun v hv => hd v ?_) .local fun ids => .pure _
    exact List.mem_cons_of_mem _ hv

/-! ## Statements -/

/-- Whether lexemes begin with the word of a base type. -/
def beginType (ls : List Lexeme) : Bool := (ls.head?.bind Lexeme.baseType?).isSome

theorem startsType_apply (s : ParserState) : startsType s = .ok (beginType s.lexemes, s) := by
  rw [beginType, ← head?_of_lexemes rfl]
  rfl

/-- Every declaration begins with the word of a base type. -/
theorem Declaration.beginType_eq_true (d : Declaration) (after : List Lexeme) :
    beginType (d.lexemes ++ after) = true := by
  rw [lexemes, List.cons_append, beginType, List.head?_cons, Option.bind_some, baseType?_word]
  rfl

/-- No expression begins with the word of a base type. -/
theorem Expr.beginType_eq_false (e : Expr) (after : List Lexeme) :
    beginType (e.lexemes ++ after) = false := by
  obtain ⟨x, ls, hls, hx⟩ := e.head
  rw [hls, List.cons_append, beginType, List.head?_cons, Option.bind_some,
    baseType?_of_beginsExpression hx]
  rfl

/-- An expression that may be missing is built if it is there. -/
theorem matches_expressionUnless {e : Option Expr} (he : ∀ e' ∈ e, e'.WellFormed) {sign : Punct}
    (hsign : sign ∈ [Punct.rightParen, .semicolon]) (after : List Lexeme) :
    Matches (expressionUnless sign) (buildOptional e) (optionalLexemes e)
      (.punct sign :: after) := by
  unfold expressionUnless
  refine .check ?_
  cases e with
  | none =>
    rw [optionalLexemes, List.nil_append, List.head?_cons, decide_eq_true rfl, if_pos rfl]
    exact .pure none
  | some e =>
    obtain ⟨x, ls, hls, hx⟩ := e.head
    have hne : x ≠ .punct sign := by
      rintro rfl
      simp only [List.mem_cons, List.not_mem_nil, or_false] at hsign
      rcases hsign with rfl | rfl <;> cases hx
    rw [optionalLexemes, hls, List.cons_append, List.head?_cons,
      decide_eq_false (by simpa using hne), if_neg Bool.false_ne_true, ← hls,
      buildOptional, ← bind_pure_comp, ← bind_pure_comp,
      ← List.append_nil e.lexemes]
    refine .bind (matches_expression (he e rfl) ?_) fun id => .pure _
    refine stops_of_mem ?_ 0 after
    simp only [List.mem_cons, List.not_mem_nil, or_false] at hsign ⊢
    rcases hsign with rfl | rfl <;> simp

/-- The first clause of a loop is a declaration if it begins with a type. -/
theorem matches_forInit {init : ForInit} (hinit : init.WellFormed) :
    Matches forInit init.build init.lexemes after := by
  unfold forInit
  cases init with
  | none => exact .here_left fun loc => .accept (.pure none)
  | declare d =>
    refine .here fun loc => .accept_ne ?_ (.look startsType_apply ?_)
    · simp [ForInit.lexemes, Declaration.lexemes]
    · rw [ForInit.lexemes, ← List.append_nil d.lexemes]
      rw [List.append_assoc, d.beginType_eq_true, if_pos rfl]
      refine .bind (matches_localDeclaration hinit) fun ids => ?_
      exact .of_keeps (.map (.addStmt _ loc))
  | expr e =>
    obtain ⟨x, ls, hls, hx⟩ := e.head
    refine .here fun loc => .accept_ne ?_ (.look startsType_apply ?_)
    · rw [ForInit.lexemes, hls]
      rintro ⟨⟩
      cases hx
    · rw [ForInit.lexemes, List.append_assoc, e.beginType_eq_false, if_neg Bool.false_ne_true]
      refine .bind (matches_expression hinit (stops_of_mem (by simp) 0 _)) fun id => .expect ?_
      exact .of_keeps (.map (.addStmt _ loc))

/-- No statement begins with a closing brace or with the word `else`. -/
theorem Stmt.head (stmt : Stmt) :
    ∃ x ls, stmt.lexemes = x :: ls ∧ x ≠ .punct .rightBrace ∧ x ≠ .keyword .elseKw := by
  cases stmt with
  | declare d =>
    refine ⟨_, _, rfl, by simp, ?_⟩
    cases d.base <;> simp [BaseType.word]
  | expr e =>
    obtain ⟨x, ls, hls, hx⟩ := e.head
    refine ⟨x, _, by rw [lexemes, hls, List.cons_append], ?_, ?_⟩
    · rintro rfl
      cases hx
    · rintro rfl
      cases hx
  | _ => exact ⟨_, _, rfl, by simp, by simp⟩

/-- Statements of at most `n` lexemes are read as they are built. -/
def ReadsStatements (statement : Parser StmtId) (n : Nat) : Prop :=
  ∀ (stmt : Stmt) (after : List Lexeme), stmt.WellFormed → stmt.lexemes.length ≤ n →
    (stmt.endsOpen = true → after.head? ≠ some (.keyword .elseKw)) →
    Matches statement stmt.build stmt.lexemes after

/-- Whether lexemes begin with a closing brace, or there are none. -/
def endsBlock (ls : List Lexeme) : Bool := ls.head?.all (· = .punct .rightBrace)

theorem blockEnds_apply (s : ParserState) : blockEnds s = .ok (endsBlock s.lexemes, s) := by
  rcases s with ⟨_ | ⟨x, rest⟩, endLoc, program, scopes⟩ <;> rfl

section Statements

variable {statement : Parser StmtId} {n : Nat} (hstmt : ReadsStatements statement n)
include hstmt

/-- Statements are read up to the closing brace of their block. -/
theorem ReadsStatements.repeatUntil {body : List Stmt} (hbody : ∀ stmt ∈ body, stmt.WellFormed)
    (hn : (Stmt.lexemesOfAll body).length ≤ n) {bound : Nat}
    (hbound : (Stmt.lexemesOfAll body).length ≤ bound)
    (after : List Lexeme) :
    Matches (repeatUntil blockEnds statement bound) (Stmt.buildAll body) (Stmt.lexemesOfAll body)
      (.punct .rightBrace :: after) := by
  induction body generalizing bound with
  | nil =>
    cases bound with
    | zero => exact .pure []
    | succ bound =>
      refine .look blockEnds_apply ?_
      exact .pure []
  | cons stmt body ih =>
    obtain ⟨x, ls, hls, hbrace, -⟩ := stmt.head
    rw [Stmt.lexemesOfAll, List.length_append] at hn hbound
    rw [List.forall_mem_cons] at hbody
    -- a statement is followed by the next one or by the brace, and neither begins with `else`
    have hnext : ∀ y, (Stmt.lexemesOfAll body ++ .punct .rightBrace :: after).head? = some y →
        y ≠ .keyword .elseKw := by
      intro y hy
      cases body with
      | nil =>
        cases hy
        simp
      | cons next body =>
        obtain ⟨z, ls', hls', -, helse⟩ := next.head
        rw [Stmt.lexemesOfAll, hls'] at hy
        cases hy
        exact helse
    have hfirst : Matches statement stmt.build stmt.lexemes
        (Stmt.lexemesOfAll body ++ .punct .rightBrace :: after) :=
      hstmt stmt _ hbody.1 (by omega) fun _ hhead => hnext _ hhead rfl
    rw [hls, List.length_cons] at hbound
    cases bound with
    | zero => omega
    | succ bound =>
      refine .look blockEnds_apply ?_
      rw [Stmt.lexemesOfAll, hls, List.cons_append, List.cons_append, endsBlock, List.head?_cons,
        Option.all_some, decide_eq_false hbrace,
          if_neg Bool.false_ne_true, ← List.cons_append, ← hls]
      refine .bind hfirst fun id => ?_
      rw [← List.append_nil (Stmt.lexemesOfAll body)]
      exact .bind (ih hbody.2 (by omega) (by omega)) fun ids => .pure _

/-- The body of a block is built as written. -/
theorem ReadsStatements.blockBody {body : List Stmt} (hbody : ∀ stmt ∈ body, stmt.WellFormed)
    (hn : (Stmt.lexemesOfAll body).length ≤ n) (after : List Lexeme) :
    Matches (blockBody statement) (Stmt.buildAll body) (Stmt.lexemesOfAll body)
      (.punct .rightBrace :: after) := by
  refine .remaining (hstmt.repeatUntil hbody hn ?_ after)
  rw [List.length_append]
  exact Nat.le_add_right _ _

/-- A block is built as written, brace and all. -/
theorem ReadsStatements.blockRest {body : List Stmt} (hbody : ∀ stmt ∈ body, stmt.WellFormed)
    (hn : (Stmt.lexemesOfAll body).length ≤ n) (loc : Location) :
    Matches (blockRest statement loc)
      (inScope (Stmt.buildAll body) >>= fun ids => advance >>= fun _ => addStmt (.block ids) loc)
      (Stmt.lexemesOfAll body ++ [.punct .rightBrace]) after :=
  .bind (.inScope (hstmt.blockBody hbody hn after)) fun _ => .expect (.of_keeps (.addStmt _ loc))

omit hstmt in
/-- A statement that begins with no sign or word of its own is a declaration or an expression. -/
theorem matches_statementStep {x : Lexeme} (hx : (l ++ after).head? = some x)
    (hne : x ∉ [Lexeme.punct .leftBrace, .keyword .returnKw, .keyword .ifKw,
      .keyword .whileKw, .keyword .forKw, .punct .semicolon]) {g : Location → Parser StmtId}
    (h : ∀ loc, Matches
      (if beginType (l ++ after) then localDeclaration >>= fun ids => addStmt (.declare ids) loc
        else expression >>= fun e => expect .expressionEnd >>= fun _ =>
          addStmt (.expr e) loc) (g loc) l after) :
    Matches (statementStep statement) (here >>= g) l after := by
  simp only [List.mem_cons, List.not_mem_nil, or_false, not_or] at hne
  unfold statementStep
  refine .here fun loc => .accept_ne ?_ (.accept_ne ?_ (.accept_ne ?_ (.accept_ne ?_ (.accept_ne ?_
    (.accept_ne ?_ (.look startsType_apply (h loc)))))))
  all_goals
    rw [hx]
    simp only [ne_eq, Option.some.injEq, hne, not_false_eq_true]

/-- A statement is built as written if those in it are, which are shorter. -/
theorem ReadsStatements.step : ReadsStatements (statementStep statement) (n + 1) := by
  intro stmt after hwf hn hafter
  cases stmt with
  | block body =>
    rw [Stmt.lexemes, List.length_cons, List.length_append] at hn
    refine .here fun loc => .accept ?_
    exact hstmt.blockRest (Stmt.allWellFormed_iff.1 hwf) (by omega) loc
  | declare d =>
    refine matches_statementStep (x := .keyword d.base.word) rfl ?_ fun loc => ?_
    · cases d.base <;> simp [BaseType.word]
    · rw [Stmt.lexemes, d.beginType_eq_true, if_pos rfl, ← List.append_nil d.lexemes]
      exact .bind (matches_localDeclaration hwf) fun ids => .of_keeps (.addStmt _ loc)
  | expr e =>
    obtain ⟨x, ls, hls, hx⟩ := e.head
    refine matches_statementStep (x := x) (by rw [Stmt.lexemes, hls]; rfl) ?_ fun loc => ?_
    -- an expression begins with none of the words and signs that begin another statement
    · intro hmem
      simp only [List.mem_cons, List.not_mem_nil, or_false] at hmem
      rcases hmem with rfl | rfl | rfl | rfl | rfl | rfl <;> cases hx
    · rw [Stmt.lexemes, List.append_assoc, e.beginType_eq_false, if_neg Bool.false_ne_true]
      refine .bind (matches_expression hwf (stops_of_mem (by simp) 0 _)) fun id => .expect ?_
      exact .of_keeps (.addStmt _ loc)
  | ifThen condition thenBranch =>
    obtain ⟨hc, ht⟩ := hwf
    simp only [Stmt.lexemes, List.length_cons, List.length_append] at hn
    refine .here fun loc =>
      .accept_ne (by simp [Stmt.lexemes]) (.accept_ne (by simp [Stmt.lexemes]) (.accept ?_))
    refine .expect (.bind (matches_expression hc (stops_of_mem (by simp) 0 _)) fun c => .expect ?_)
    rw [← List.append_nil thenBranch.lexemes]
    -- without `else` the statement is open, so that no `else` may follow it
    have hopen := hafter rfl
    refine .bind (hstmt thenBranch _ ht (by omega) fun _ => hopen) fun t => .accept_ne hopen ?_
    rw [if_neg Bool.false_ne_true, pure_bind]
    exact .of_keeps (.addStmt _ loc)
  | ifElse condition thenBranch elseBranch =>
    obtain ⟨hc, ht, hclosed, he⟩ := hwf
    simp only [Stmt.lexemes, List.length_cons, List.length_append] at hn
    refine .here fun loc =>
      .accept_ne (by simp [Stmt.lexemes]) (.accept_ne (by simp [Stmt.lexemes]) (.accept ?_))
    refine .expect (.bind (matches_expression hc (stops_of_mem (by simp) 0 _)) fun c => .expect ?_)
    -- the first branch is closed, so the `else` that follows belongs to this statement
    refine .bind (hstmt thenBranch _ ht (by omega) (by simp [hclosed])) fun t => .accept ?_
    rw [if_pos rfl, ← bind_pure_comp, bind_assoc, ← List.append_nil elseBranch.lexemes]
    refine .bind (hstmt elseBranch _ he (by omega) hafter) fun e => ?_
    rw [pure_bind]
    exact .of_keeps (.addStmt _ loc)
  | whileLoop condition body =>
    obtain ⟨hc, hb⟩ := hwf
    simp only [Stmt.lexemes, List.length_cons, List.length_append] at hn
    refine .here fun loc => .accept_ne (by simp [Stmt.lexemes]) (.accept_ne (by simp [Stmt.lexemes])
      (.accept_ne (by simp [Stmt.lexemes]) (.accept ?_)))
    refine .expect (.bind (matches_expression hc (stops_of_mem (by simp) 0 _)) fun c => .expect ?_)
    rw [← List.append_nil body.lexemes]
    exact .bind (hstmt body _ hb (by omega) hafter) fun b => .of_keeps (.addStmt _ loc)
  | forLoop init condition increment body =>
    obtain ⟨hi, hc, hincrement, hb⟩ := hwf
    simp only [Stmt.lexemes, List.length_cons, List.length_append] at hn
    refine .here fun loc => .accept_ne (by simp [Stmt.lexemes]) (.accept_ne (by simp [Stmt.lexemes])
      (.accept_ne (by simp [Stmt.lexemes]) (.accept_ne (by simp [Stmt.lexemes]) (.accept ?_))))
    refine .inScope (.expect (.bind (matches_forInit hi) fun i => ?_))
    refine .bind (matches_expressionUnless hc (by simp) _) fun c => .expect ?_
    refine .bind (matches_expressionUnless hincrement (by simp) _) fun i' => .expect ?_
    rw [← List.append_nil body.lexemes]
    exact .bind (hstmt body _ hb (by omega) hafter) fun b => .of_keeps (.addStmt _ loc)
  | ret value =>
    refine .here fun loc => .accept_ne (by simp [Stmt.lexemes]) (.accept ?_)
    refine .bind (matches_expressionUnless hwf (by simp) _) fun v => .expect ?_
    exact .of_keeps (.addStmt _ loc)
  | empty =>
    refine .here fun loc => .accept_ne (by simp [Stmt.lexemes]) (.accept_ne (by simp [Stmt.lexemes])
      (.accept_ne (by simp [Stmt.lexemes]) (.accept_ne (by simp [Stmt.lexemes])
        (.accept_ne (by simp [Stmt.lexemes]) (.accept ?_)))))
    exact .of_keeps (.addStmt _ loc)

end Statements

/-- Statements that are short enough for the bound are built as written. -/
theorem readsStatements_statementWithin (n : Nat) : ReadsStatements (statementWithin n) n := by
  induction n with
  | zero =>
    intro stmt after _ hn _
    obtain ⟨x, ls, hls, -⟩ := stmt.head
    simp [hls] at hn
  | succ n ih => exact ih.step

/-- The statements of a function are built as written. -/
theorem matches_functionStatements {body : List Stmt} (hbody : ∀ stmt ∈ body, stmt.WellFormed) :
    Matches functionStatements (Stmt.buildAll body) (Stmt.lexemesOfAll body)
      (.punct .rightBrace :: after) := by
  refine .remaining ((readsStatements_statementWithin _).blockBody hbody ?_ after)
  rw [List.length_append]
  exact Nat.le_add_right _ _

/-! ## Functions -/

/-- What follows a parameter. -/
def EndsParameter (after : List Lexeme) : Prop :=
  ∃ sign ∈ [Punct.comma, .rightParen], after.head? = some (.punct sign)

/-- The name of a parameter may be missing. -/
theorem matches_parameterName (p : Param)
    (hnext : ∀ x, (l ++ after).head? ≠ some (.identifier x)) {α : Type}
    {f : String → Parser α} {g : Unit → Parser α}
    (h : Matches (f (p.name.getD "")) (g ()) l after) :
    Matches (parameterName >>= f) (skip p.name.toList.length >>= g)
      (p.name.toList.map .identifier ++ l) after := by
  unfold parameterName
  rw [bind_assoc]
  refine .peek ?_
  cases hname : p.name with
  | none =>
    rw [hname] at h
    change Matches _ (g ()) l after
    split
    · next x hx => exact absurd hx (hnext x)
    · rw [pure_bind]
      exact h
  | some x =>
    rw [hname] at h
    change Matches _ (advance >>= g) (.identifier x :: l) after
    rw [Option.toList, List.map_cons, List.map_nil, List.cons_append,
      List.cons_append, List.head?_cons]
    dsimp only
    rw [bind_assoc]
    refine .advance ?_
    rw [pure_bind]
    exact h

/-- Brackets after a parameter may be empty. -/
theorem matches_parameterType (p : Param)
    (hnext : (l ++ after).head? ≠ some (.punct .leftBracket)) {α : Type}
    {f : CType → Parser α} {g : Unit → Parser α} (h : Matches (f p.type) (g ()) l after) :
    Matches (parameterType p.typeName.type >>= f) (skip p.lengthLexemes.length >>= g)
      (p.lengthLexemes ++ l) after := by
  unfold parameterType Param.lengthLexemes
  rw [bind_assoc]
  rw [Param.type] at h
  rcases hlength : p.length with _ | _ | n
  · -- no bracket follows a plain parameter
    rw [hlength] at h
    exact .accept_ne hnext h
  · -- brackets without a length
    rw [hlength] at h
    change Matches _ (advance >>= fun _ => advance >>= g)
      (.punct .leftBracket :: .punct .rightBracket :: l) after
    refine .accept ?_
    rw [if_pos rfl, bind_assoc]
    refine .peek ?_
    rw [List.cons_append, List.head?_cons]
    dsimp only
    rw [pure_bind, bind_assoc]
    exact .expect h
  · -- brackets with a length
    rw [hlength] at h
    change Matches _ (advance >>= fun _ => advance >>= fun _ => advance >>= g)
      (.punct .leftBracket :: .integer n :: .punct .rightBracket :: l) after
    refine .accept ?_
    rw [if_pos rfl, bind_assoc]
    refine .peek ?_
    rw [List.cons_append, List.head?_cons]
    dsimp only
    rw [bind_assoc, bind_assoc]
    refine .advance ?_
    rw [pure_bind, bind_assoc]
    exact .expect h

/-- A parameter is built as written. -/
theorem matches_parameter {p : Param} (hp : p.WellFormed) (hafter : EndsParameter after) :
    Matches parameter p.build p.lexemes after := by
  obtain ⟨sign, hsign, hhead⟩ := hafter
  have hne : ∀ x : Lexeme, x ≠ .punct .comma → x ≠ .punct .rightParen → after.head? ≠ some x := by
    intro x hcomma hclose hx
    cases hhead.symm.trans hx
    simp only [List.mem_cons, List.not_mem_nil, or_false] at hsign
    rcases hsign with rfl | rfl
    · exact hcomma rfl
    · exact hclose rfl
  have hlength : ∀ x : Lexeme, x ≠ .punct .comma → x ≠ .punct .rightParen →
    x ≠ .punct .leftBracket →
      (p.lengthLexemes ++ after).head? ≠ some x := by
    intro x hcomma hclose hopen
    unfold Param.lengthLexemes
    rcases p.length with _ | _ | n
    · exact hne x hcomma hclose
    · simpa using hopen.symm
    · simpa using hopen.symm
  unfold parameter Param.build Param.lexemes
  refine .typeName ?_ (.here fun loc => matches_parameterName p (fun x => ?_) ?_)
  · cases p.name with
    | none => exact hlength _ (by simp) (by simp) (by simp)
    | some x => simp
  · exact hlength _ (by simp) (by simp) (by simp)
  · refine .of_append_nil (matches_parameterType (l := []) p (hne _ (by simp) (by simp)) ?_)
    dsimp only
    rw [hp, if_neg Bool.false_ne_true]
    refine .same (.addDecl _ _ loc) fun d => ?_
    refine .ite (fun _ => .of_keeps (.pure d)) fun _ => ?_
    exact .same (.declare _ d loc) fun _ => .of_keeps (.pure d)

/-- Whether lexemes begin with the word `void` and a closing parenthesis. -/
def beginVoidList : List Lexeme → Bool
  | x :: y :: _ => x = .keyword .voidKw && y = .punct .rightParen
  | _ => false

theorem startsVoidList_apply (s : ParserState) :
    startsVoidList s = .ok (beginVoidList s.lexemes, s) := by
  rcases s with ⟨_ | ⟨x, _ | ⟨y, rest⟩⟩, endLoc, program, scopes⟩ <;> rfl

/-- A list of parameters does not begin like the word `void` alone, which is the type of none. -/
theorem Param.beginVoidList_eq_false {p : Param} (hp : p.WellFormed) (ls : List Lexeme) :
    beginVoidList (p.lexemes ++ ls) = false := by
  obtain ⟨⟨base, stars⟩, name, length⟩ := p
  cases stars with
  | succ n => simp [lexemes, TypeName.lexemes, List.replicate_succ, beginVoidList]
  | zero =>
    cases name with
    | some x => simp [lexemes, TypeName.lexemes, beginVoidList]
    | none =>
      rcases length with _ | _ | n
      · cases base with
        | void => cases hp
        | int | char =>
          cases ls <;> simp [lexemes, TypeName.lexemes, lengthLexemes, beginVoidList, BaseType.word]
      · simp [lexemes, TypeName.lexemes, lengthLexemes, beginVoidList]
      · simp [lexemes, TypeName.lexemes, lengthLexemes, beginVoidList]

/-- The parameters of a function are built as written, `void` alone standing for none. -/
theorem matches_parameters {params : Params} (hparams : params.WellFormed) (after : List Lexeme) :
    Matches parameters params.build params.lexemes (.punct .rightParen :: after) := by
  unfold parameters
  refine .check ?_
  cases params with
  | void => exact .look startsVoidList_apply (.advance (.pure []))
  | list params =>
    cases params with
    | nil => exact .pure []
    | cons p params =>
      have hfirst : (Params.list (p :: params)).lexemes ++ .punct .rightParen :: after =
          p.lexemes ++ ((params.map Param.lexemes).flatMap (.punct .comma :: ·) ++
            .punct .rightParen :: after) := by
        rw [Params.lexemes, List.map_cons, inCommas, List.append_assoc]
      have hhead : ((Params.list (p :: params)).lexemes ++ .punct .rightParen :: after).head? ≠
          some (.punct .rightParen) := by
        rw [hfirst, Param.lexemes, TypeName.lexemes]
        simp
      rw [decide_eq_false hhead, if_neg Bool.false_ne_true]
      refine .look startsVoidList_apply ?_
      rw [hfirst, Param.beginVoidList_eq_false (hparams p (by simp)), if_neg Bool.false_ne_true]
      refine .commaSeparated (fun q hq rest => ?_) (fun q hq => ?_) (by simp)
      · exact matches_parameter (hparams q hq) ⟨.comma, by simp, rfl⟩
      · exact matches_parameter (hparams q hq) ⟨.rightParen, by simp, rfl⟩

/-- Declaring a function takes no token. -/
theorem keepsTokens_functionDecl (returnType : CType) (name : String) (loc : Location)
    (params : List DeclId) :
    KeepsTokens (functionDecl returnType name loc params) := by
  refine .bind (x := resolveInFile? name) (fun _ => rfl) fun found => ?_
  split
  · refine .bind (.declOf _) fun d => ?_
    split
    · exact .pure _
    · exact .bind (.fail _ loc) fun _ => .pure _
  · refine .bind (.addDecl _ _ loc) fun d =>
      .bind (x := declareInFile name d) (fun _ => rfl) fun _ => ?_
    exact .bind (.addItem _) fun _ => .pure d

/-- The body of a function is built as written. -/
theorem matches_functionBody {body : List Stmt}
    (hbody : ∀ stmt ∈ body, stmt.WellFormed) (d : DeclId)
    (name : String) (loc opening : Location) (params : List DeclId) :
    Matches (functionBody d name loc opening params) (buildBody d name loc opening params body)
      (Stmt.lexemesOfAll body ++ [.punct .rightBrace]) after := by
  unfold functionBody buildBody
  refine .same (.declOf d) fun decl => .ite (fun _ => .fail_bind) fun _ =>
    .same (.modifyDecl d _) fun _ => ?_
  refine .bind (matches_functionStatements hbody) fun ids =>
    .expect (.same (.addStmt _ _) fun block => ?_)
  exact .of_keeps (.modifyDecl d _)

/-- What comes after the name of a function is built as written. -/
theorem matches_functionRest {f : Function} (hf : f.WellFormed) (loc : Location) :
    Matches (functionRest f.returnType.type f.name loc) (f.buildRest loc)
      (f.params.lexemes ++ .punct .rightParen :: f.bodyLexemes) after := by
  unfold functionRest Function.buildRest Function.bodyLexemes
  refine .inScope (.bind (matches_parameters hf.params _) fun params => .expect ?_)
  refine .same (keepsTokens_functionDecl _ _ loc params) fun d => .here fun opening => ?_
  cases hbody : f.body with
  | none =>
    refine .accept_ne (by simp) ?_
    rw [if_neg Bool.false_ne_true, ← bind_pure (expect Delimiter.functionEnd)]
    exact .expect (.pure ())
  | some body =>
    refine .accept ?_
    exact matches_functionBody (hf.body body hbody) d f.name loc opening params

/-! ## Files -/

theorem keepsTokens_addItems (ds : List DeclId) :
    KeepsTokens (ds.forM fun d => addItem (.variable d)) := by
  induction ds with
  | nil => exact .pure _
  | cons d ds ih => exact .bind (.addItem _) fun _ => ih

/-- A declaration of the file, after the word `extern`. -/
theorem matches_item {item : Item} (hitem : item.WellFormed) :
    Matches (baseType >>= fun base => stars base >>= fun type => here >>= fun loc =>
      identifier >>= fun name =>
        accept Punct.leftParen >>= fun opens =>
          if opens then functionRest type name loc
          else variableRest type name loc .global >>= fun first =>
            otherDeclarators base .global >>= fun others =>
            (first :: others).forM fun d => addItem (.variable d))
      item.build item.lexemes after := by
  cases item with
  | function f =>
    rw [Item.build, Function.build, TypeName.build, Item.lexemes,
      Function.lexemes, TypeName.lexemes]
    simp only [bind_assoc, pure_bind, List.cons_append]
    refine .baseType (.stars (by simp) (.here fun loc => .identifier (.accept ?_)))
    exact matches_functionRest hitem loc
  | declaration d =>
    rw [Item.build, Declaration.build, Declaration.declarators, Item.lexemes, Declaration.lexemes,
      Declaration.declarators]
    rw [List.map_cons, List.map_cons, buildInCommas, inCommas, Declarator.build, Declarator.lexemes]
    simp only [bind_assoc, pure_bind, List.append_assoc, List.cons_append]
    have hfirst : d.first.WellFormed d.base := hitem d.first (by simp [Declaration.declarators])
    have hends := endsDeclarator_others d.others after
    refine .baseType (.stars (by simp) (.here fun loc => .identifier (.accept_ne ?_ ?_)))
    · -- after the name of a variable no parenthesis can follow
      unfold Declarator.lengthLexemes Declarator.initLexemes
      cases d.first.length with
      | some n => simp
      | none =>
        cases d.first.init with
        | some e => simp
        | none => simpa using hends.head_ne (by simp)
    · -- the items are added after all tokens were taken
      rw [if_neg Bool.false_ne_true, ← List.append_assoc]
      refine .bind (matches_variableRest hfirst (by simpa using hends) loc .global) fun v => ?_
      refine matches_otherDeclarators
        (fun w hw => hitem w (List.mem_cons_of_mem _ hw)) .global fun ids => ?_
      exact .of_keeps (keepsTokens_addItems (v :: ids))

/-- Every declaration of a file begins with the word of a base type. -/
theorem Item.head (item : Item) : ∃ (base : BaseType) (ls : List Lexeme),
    item.lexemes = .keyword base.word :: ls := by
  cases item with
  | declaration d => exact ⟨_, _, rfl⟩
  | function f => exact ⟨_, _, rfl⟩

/-- Every declaration of a file is built as written. -/
theorem matches_topLevel {d : TopLevel} (hd : d.item.WellFormed) :
    Matches topLevel d.build d.lexemes after := by
  unfold topLevel TopLevel.build TopLevel.lexemes
  cases d.isExtern with
  | true => exact .accept (matches_item hd)
  | false =>
    obtain ⟨base, ls, hls⟩ := d.item.head
    refine .accept_ne ?_ (matches_item hd)
    rw [if_neg Bool.false_ne_true, hls]
    cases base <;> simp [BaseType.word]

/-- No declaration of a file is empty. -/
theorem TopLevel.head (d : TopLevel) : ∃ x ls, d.lexemes = x :: ls := by
  obtain ⟨base, ls, hls⟩ := d.item.head
  rw [lexemes, hls]
  cases d.isExtern with
  | true => exact ⟨_, _, rfl⟩
  | false => exact ⟨_, _, rfl⟩

theorem atEnd_apply (s : ParserState) : atEnd s = .ok (s.lexemes.isEmpty, s) := by
  rcases s with ⟨_ | ⟨x, rest⟩, endLoc, program, scopes⟩ <;> rfl

/-- The declarations of a file are built one after the other, and then the text is at its end. -/
theorem matches_repeatTopLevel {ds : List TopLevel}
    (hds : ∀ d ∈ ds, d.item.WellFormed) {bound : Nat}
    (hbound : (ds.flatMap TopLevel.lexemes).length ≤ bound) :
    Matches (repeatUntil atEnd topLevel bound >>= fun _ => pure ()) (ds.forM TopLevel.build)
      (ds.flatMap TopLevel.lexemes) [] := by
  induction ds generalizing bound with
  | nil =>
    cases bound with
    | zero => exact .pure ()
    | succ bound =>
      rw [repeatUntil, bind_assoc]
      refine .look atEnd_apply ?_
      exact .pure ()
  | cons d ds ih =>
    obtain ⟨x, ls, hls⟩ := d.head
    rw [List.forall_mem_cons] at hds
    rw [List.flatMap_cons] at hbound ⊢
    rw [List.length_append, hls, List.length_cons] at hbound
    cases bound with
    | zero => omega
    | succ bound =>
      rw [repeatUntil, bind_assoc]
      refine .look atEnd_apply ?_
      have hempty : (d.lexemes ++ ds.flatMap TopLevel.lexemes ++ []).isEmpty = false := by
        rw [hls]
        rfl
      rw [hempty, if_neg Bool.false_ne_true, bind_assoc]
      refine .bind (matches_topLevel hds.1) fun _ => ?_
      rw [bind_assoc]
      exact ih hds.2 (by omega)

/-- On the lexemes of a well-formed file, reading it is building it. -/
theorem matches_translationUnit {file : File} (hfile : file.WellFormed) :
    Matches translationUnit file.build file.lexemes [] := by
  refine .remaining (matches_repeatTopLevel hfile ?_)
  rw [List.append_nil]
  exact Nat.le_refl _

/-- The program that a source text writes is built from its tree. -/
theorem ofTokens_eq_build {file : File} (hfile : file.WellFormed) {stream : TokenStream}
    (hlexemes : stream.tokens.map Token.lexeme = file.lexemes) :
    Program.ofTokens stream = (file.build (.start stream)).map fun result => result.2.program := by
  have hmatches :=
    (matches_translationUnit hfile (.start stream) (by rw [List.append_nil]; exact hlexemes)).1
  exact congrArg (Except.map _) hmatches

end MiniC.Written
