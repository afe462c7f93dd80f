import MiniC.Proofs.FileReading
import MiniC.Proofs.SpelledExpressions

/-!
# Every text that is read has a tree

Whatever the grammar accepts are the lexemes of a well-formed tree (`Written.exists_file_of_parse`).
`Parser.Takes x l P` says that the parser `x`, if it succeeds where the lexemes `l` are left, takes
some of them from the front that satisfy `P`, which also sees the result and the lexemes after them.
-/

set_option autoImplicit false

namespace MiniC

namespace Parser

variable {α β : Type}

/-- If the parser succeeds where the lexemes `l` are left, it takes lexemes that satisfy `P`. -/
def Takes (x : Parser α) (l : List Lexeme) (P : α → List Lexeme → List Lexeme → Prop) : Prop :=
  ∀ s : ParserState, s.lexemes = l →
    Ensures x s fun a t => ∃ taken, l = taken ++ t.lexemes ∧ P a taken t.lexemes

namespace Takes

variable {x : Parser α} {f : α → Parser β} {l : List Lexeme}
    {P : β → List Lexeme → List Lexeme → Prop}

/-- What is taken may be said to satisfy less. -/
theorem mono {P' : β → List Lexeme → List Lexeme → Prop} {y : Parser β} (h : Takes y l P)
    (hP : ∀ b taken after, P b taken after → P' b taken after) : Takes y l P' := by
  intro s hs
  refine (h s hs).mono fun b t ht => ?_
  obtain ⟨taken, hl, htaken⟩ := ht
  exact ⟨taken, hl, hP b taken _ htaken⟩

theorem pure {b : β} (h : P b [] l) : Takes (pure b) l P := by
  intro s hs
  refine ⟨[], ?_, ?_⟩
  · rw [List.nil_append, hs]
  · rw [hs]
    exact h

/-- Of a parser that fails nothing is asked. -/
theorem fail {fault : ParseFault} {loc : Location} : Takes (fail fault loc) l P :=
  fun _ _ => ensures_fail

/-- What the second parser takes comes after what the first one took, which is known while it runs.
-/
theorem bind_of_eq {Q : α → List Lexeme → List Lexeme → Prop} (hx : Takes x l Q)
    (hf : ∀ a taken after, l = taken ++ after → Q a taken after →
      Takes (f a) after fun b taken' after' => P b (taken ++ taken') after') :
        Takes (x >>= f) l P := by
  intro s hs
  refine (hx s hs).bind fun a t ht => ?_
  obtain ⟨taken, hl, htaken⟩ := ht
  refine (hf a taken _ hl htaken t rfl).mono fun b u hu => ?_
  obtain ⟨taken', hl', hP⟩ := hu
  exact ⟨taken ++ taken', by rw [hl, hl', List.append_assoc], hP⟩

/-- The second parser takes what comes after what the first one took. -/
theorem bind {Q : α → List Lexeme → List Lexeme → Prop} (hx : Takes x l Q)
    (hf : ∀ a taken after, Q a taken after →
      Takes (f a) after fun b taken' after' => P b (taken ++ taken') after') :
        Takes (x >>= f) l P :=
  bind_of_eq hx fun a taken after _ => hf a taken after

/-- The result of the first parser does not matter, nor does what it does to the program. -/
theorem keeps (hx : KeepsTokens x) (hf : ∀ a, Takes (f a) l P) : Takes (x >>= f) l P := by
  intro s hs
  refine (hx s).bind fun a t ht => ?_
  exact hf a t (ht.trans hs)

/-- A parser that keeps the tokens takes no lexeme. -/
theorem of_keeps {y : Parser β} (hy : KeepsTokens y) (h : ∀ b, P b [] l) : Takes y l P := by
  rw [← bind_pure y]
  exact keeps hy fun b => pure (h b)

/-- A parser that only looks at the lexemes gives what it sees. -/
theorem look {b : List Lexeme → α} (hx : ∀ s, x s = .ok (b s.lexemes, s))
    (h : Takes (f (b l)) l P) :
    Takes (x >>= f) l P := by
  rintro s rfl
  rw [Parser.ensures_bind, Ensures, hx]
  exact h s rfl

theorem peek {f : Option Lexeme → Parser β} (h : Takes (f l.head?) l P) : Takes (peek >>= f) l P :=
  look (fun s => by rw [← head?_of_lexemes rfl]; rfl) h

theorem here {f : Location → Parser β} (h : ∀ loc, Takes (f loc) l P) : Takes (here >>= f) l P :=
  keeps .here h

theorem remaining {f : Nat → Parser β} (h : ∀ n, Takes (f n) l P) : Takes (remaining >>= f) l P :=
  keeps (fun _ => rfl) h

/-- The lexeme that is skipped counts as taken. -/
theorem advance {lexeme : Lexeme} {f : Unit → Parser β}
    (h : Takes (f ()) l fun b taken after => P b (lexeme :: taken) after) :
    Takes (advance >>= f) (lexeme :: l) P := by
  intro s hs
  rw [Parser.ensures_bind]
  have hrest : ({ s with rest := s.rest.tail } : ParserState).lexemes = l := by
    rw [ParserState.lexemes, List.map_tail]
    exact congrArg List.tail hs
  refine (h _ hrest).mono fun b t ht => ?_
  obtain ⟨taken, rfl, hP⟩ := ht
  exact ⟨lexeme :: taken, rfl, hP⟩

theorem check {lexeme : Lexeme} {f : Bool → Parser β}
    (h : Takes (f (decide (l.head? = some lexeme))) l P) :
    Takes (check lexeme >>= f) l P :=
  look (b := fun ls => decide (ls.head? = some lexeme))
    (fun s => by rw [← head?_of_lexemes rfl]; rfl) h

/-- A lexeme that may be there is taken or not. -/
theorem accept {lexeme : Lexeme} {f : Bool → Parser β}
    (ht : ∀ rest, l = lexeme :: rest → Takes (f true) rest fun b taken after =>
      P b (lexeme :: taken) after)
    (hf : l.head? ≠ some lexeme → Takes (f false) l P) : Takes (accept lexeme >>= f) l P := by
  unfold Parser.accept
  rw [bind_assoc]
  refine check ?_
  by_cases h : l.head? = some lexeme
  · obtain ⟨rest, rfl⟩ := List.head?_eq_some_iff.1 h
    rw [decide_eq_true h, if_pos rfl, bind_assoc]
    refine advance ?_
    rw [pure_bind]
    exact ht rest rfl
  · rw [decide_eq_false h, if_neg Bool.false_ne_true, pure_bind]
    exact hf h

/-- A delimiter that was expected was there. -/
theorem expect {delimiter : Delimiter} {f : Unit → Parser β}
    (h : ∀ rest, l = .punct delimiter.sign :: rest →
      Takes (f ()) rest fun b taken after => P b (.punct delimiter.sign :: taken) after) :
    Takes (expect delimiter >>= f) l P := by
  unfold Parser.expect
  rw [bind_assoc]
  refine check ?_
  by_cases hhead : l.head? = some (.punct delimiter.sign)
  · obtain ⟨rest, rfl⟩ := List.head?_eq_some_iff.1 hhead
    rw [decide_eq_true hhead, if_pos rfl]
    exact advance (h rest rfl)
  · rw [decide_eq_false hhead, if_neg Bool.false_ne_true, bind_assoc]
    refine peek ?_
    rw [bind_assoc]
    exact here fun loc => fun s _ => ensures_bind.2 ensures_fail

/-- A name that was read was there. -/
theorem identifier {f : String → Parser β}
    (h : ∀ name rest, l = .identifier name :: rest →
      Takes (f name) rest fun b taken after => P b (.identifier name :: taken) after) :
    Takes (identifier >>= f) l P := by
  unfold Parser.identifier
  rw [bind_assoc]
  refine peek ?_
  split
  · next name hhead =>
    obtain ⟨rest, rfl⟩ := List.head?_eq_some_iff.1 hhead
    rw [bind_assoc]
    refine advance ?_
    rw [pure_bind]
    exact h name rest rfl
  · rw [bind_assoc]
    exact here fun _ _ _ => ensures_bind.2 ensures_fail

/-- A scope takes no lexeme of its own. -/
theorem inScope {y : Parser β} (h : Takes y l P) : Takes (inScope y) l P := by
  refine keeps (fun _ => rfl) fun _ => bind h fun b taken after hP => ?_
  refine keeps (fun _ => rfl) fun _ => pure ?_
  rwa [List.append_nil]

end Takes

end Parser

namespace Written

open MiniC.Parser

variable {l : List Lexeme}

/-! ## Types -/

/-- A base type was its word. -/
theorem takes_baseType : Takes baseType l fun type taken _ =>
    ∃ base : BaseType, type = .ofBase base ∧ taken = [.keyword base.word] := by
  unfold baseType
  refine .peek ?_
  split
  · next base hbase =>
    obtain ⟨x, hx, hbase⟩ := Option.bind_eq_some_iff.1 hbase
    obtain ⟨rest, rfl⟩ := List.head?_eq_some_iff.1 hx
    refine .advance (.pure ⟨base, rfl, ?_⟩)
    rw [word_of_baseType? hbase]
  · exact .here fun _ => .fail

/-- The stars that were taken are those of the type. -/
theorem takes_starsWithin (bound : Nat) (type : CType) :
    Takes (starsWithin bound type) l fun type' taken _ =>
    ∃ n, type' = type.withPointers n ∧ taken = List.replicate n (.punct .star) := by
  rintro s rfl
  apply (ensures_starsWithin_spelled bound type).mono
  rintro type' t ⟨n, rfl, hlexemes, -⟩
  exact ⟨_, hlexemes, n, rfl, rfl⟩

theorem takes_stars (type : CType) : Takes (stars type) l fun type' taken _ =>
    ∃ n, type' = type.withPointers n ∧ taken = List.replicate n (.punct .star) :=
  .remaining fun bound => takes_starsWithin bound type

/-- The name of a type was written there. -/
theorem takes_typeName : Takes typeName l fun type taken _ =>
    ∃ t : TypeName, type = t.type ∧ taken = t.lexemes := by
  rintro s rfl
  apply ensures_typeName_spelled.mono
  rintro type t ⟨w, rfl, hlexemes, -⟩
  exact ⟨_, hlexemes, w, rfl, rfl⟩

/-! ## Sequences and expressions -/

section Commas

variable {α ι : Type} {item : Parser α} {lexemes : ι → List Lexeme} {Good : ι → Prop}
  (hitem : ∀ l, Takes item l fun _ taken _ => ∃ t, Good t ∧ taken = lexemes t)
include hitem

/-- What comes after the first item of a list are commas with items. -/
theorem takes_afterCommas (bound : Nat) : Takes (afterCommas item bound) l fun _ taken _ =>
    ∃ ts : List ι, (∀ t ∈ ts, Good t) ∧ taken = (ts.map lexemes).flatMap (.punct .comma :: ·) := by
  induction bound generalizing l with
  | zero => exact .pure ⟨[], by simp, rfl⟩
  | succ bound ih =>
    refine .accept (fun rest hl => ?_) fun _ => .pure ⟨[], by simp, rfl⟩
    refine .bind (hitem rest) fun _ taken after ht => .bind ih fun _ taken' after' hts => .pure ?_
    obtain ⟨t, ht, rfl⟩ := ht
    obtain ⟨ts, hts, rfl⟩ := hts
    exact ⟨t :: ts, List.forall_mem_cons.2 ⟨ht, hts⟩, by simp⟩

/-- A list in commas was a list of well-formed items. -/
theorem takes_commaSeparated : Takes (commaSeparated item) l fun _ taken _ =>
    ∃ ts : List ι, (∀ t ∈ ts, Good t) ∧ taken = inCommas (ts.map lexemes) := by
  refine .bind (hitem l) fun _ taken after ht => .remaining fun bound => ?_
  refine .bind (takes_afterCommas hitem bound) fun _ taken' after' hts => .pure ?_
  obtain ⟨t, ht, rfl⟩ := ht
  obtain ⟨ts, hts, rfl⟩ := hts
  exact ⟨t :: ts, List.forall_mem_cons.2 ⟨ht, hts⟩, by simp [inCommas]⟩

end Commas

/-- What is read as an expression are the lexemes of a well-formed expression. -/
theorem takes_expression (l : List Lexeme) : Takes expression l fun _ taken _ =>
    ∃ e : Expr, e.WellFormed ∧ taken = e.lexemes := by
  rintro s rfl
  apply (readsTree_expression s).mono
  rintro id t ⟨e, he⟩
  exact ⟨e.lexemes, he.lexemes, e, he.wellFormed, rfl⟩

/-! ## Variables -/

/-- The length of an array is not zero. -/
theorem takes_arrayLength : Takes arrayLength l fun n taken _ =>
    n ≠ 0 ∧ taken = [.integer n, .punct .rightBracket] := by
  refine .peek ?_
  split
  · next n hhead =>
    obtain ⟨rest, rfl⟩ := List.head?_eq_some_iff.1 hhead
    exact .advance (.expect fun rest' _ => .pure ⟨Nat.succ_ne_zero n, rfl⟩)
  · exact .here fun _ => .fail

/-- The length of a variable is part of its declarator. -/
theorem takes_variableType (base : BaseType) (stars : Nat) (name : String) (l : List Lexeme) :
    Takes (variableType ((CType.ofBase base).withPointers stars)) l fun type taken _ =>
      ∃ d : Declarator, d.stars = stars ∧ d.name = name ∧ d.init = none ∧ d.length ≠ some 0 ∧
        type = d.type base ∧ taken = d.lengthLexemes := by
  refine .accept (fun rest _ => ?_) fun _ =>
    .pure ⟨⟨stars, name, none, none⟩, by simp [Declarator.type, Declarator.lengthLexemes]⟩
  refine .bind takes_arrayLength fun n taken after hn => .check ?_
  obtain ⟨hn, rfl⟩ := hn
  dsimp only
  split
  · exact .here fun _ _ _ => ensures_bind.2 ensures_fail
  · exact .pure ⟨⟨stars, name, some n, none⟩, rfl, rfl, rfl, by simpa using hn, rfl, rfl⟩

/-- After its name a declarator has its length and its initialiser. -/
theorem takes_variableRest (base : BaseType) (stars : Nat) (name : String) (loc : Location)
    (storage : Storage) (l : List Lexeme) :
    Takes (variableRest ((CType.ofBase base).withPointers stars) name loc storage)
      l fun _ taken _ =>
      ∃ d : Declarator, d.stars = stars ∧ d.name = name ∧ d.WellFormed base ∧
        taken = d.lengthLexemes ++ d.initLexemes := by
  refine .bind (takes_variableType base stars name l) fun type taken after hd => ?_
  obtain ⟨d, rfl, rfl, hinit, hlength, rfl, rfl⟩ := hd
  dsimp only
  split
  · exact fun _ _ => ensures_bind.2 ensures_fail
  · next hvoid =>
    have hvoid : (d.type base).isVoid = false := by simpa using hvoid
    -- neither adding nor declaring the variable takes a token
    refine .keeps (.addDecl _ _ loc) fun v => .keeps (.declare _ v loc) fun _ =>
      .here fun equals => ?_
    refine .accept (fun rest _ => ?_) fun _ =>
      .pure ⟨d, rfl, rfl, ⟨hvoid, hlength, fun _ => hinit, ?_⟩, ?_⟩
    · rw [if_pos rfl]
      split
      · exact fun _ _ => ensures_bind.2 ensures_fail
      · next harray =>
        refine .bind (takes_expression rest) fun id taken after he => ?_
        obtain ⟨e, he, rfl⟩ := he
        refine .keeps (.modifyDecl v _) fun _ => .pure ?_
        refine ⟨{ d with init := some e }, rfl, rfl, ⟨hvoid, hlength, fun hsome => ?_, ?_⟩, ?_⟩
        · -- an array with an initialiser would have been refused
          obtain ⟨n, hn⟩ := Option.isSome_iff_exists.1 hsome
          rw [Declarator.type, show d.length = some n from hn, withPointers_ofBase] at harray
          exact absurd rfl harray
        · rintro e' ⟨⟩
          exact he
        · simp [Declarator.lengthLexemes, Declarator.initLexemes]
    · simp [hinit]
    · simp [Declarator.initLexemes, hinit]

/-- What is read as a variable is a well-formed declarator. -/
theorem takes_declarator (base : BaseType) (storage : Storage) (l : List Lexeme) :
    Takes (declarator (.ofBase base) storage) l fun _ taken _ =>
      ∃ d : Declarator, d.WellFormed base ∧ taken = d.lexemes := by
  refine .bind (takes_stars _) fun type taken after h => .here fun loc =>
    .identifier fun name rest _ => ?_
  obtain ⟨stars, rfl, rfl⟩ := h
  refine (takes_variableRest base stars name loc storage rest).mono fun _ taken _ h => ?_
  obtain ⟨d, rfl, rfl, hd, rfl⟩ := h
  exact ⟨d, hd, rfl⟩

/-- The other declarators of a list come after commas, with a semicolon at the end. -/
theorem takes_otherDeclarators (base : BaseType) (storage : Storage) (l : List Lexeme) :
    Takes (otherDeclarators (.ofBase base) storage) l fun _ taken _ =>
      ∃ ds : List Declarator, (∀ d ∈ ds, d.WellFormed base) ∧
        taken = (ds.map Declarator.lexemes).flatMap (.punct .comma :: ·) ++
          [.punct .semicolon] := by
  refine .remaining fun bound => ?_
  refine .bind (takes_afterCommas (takes_declarator base storage) bound) fun _ taken after hds => ?_
  obtain ⟨ds, hds, rfl⟩ := hds
  exact .expect fun rest _ => .pure ⟨ds, hds, rfl⟩

/-- What is read as a local declaration is a well-formed list of declarators. -/
theorem takes_localDeclaration (l : List Lexeme) : Takes localDeclaration l fun _ taken _ =>
    ∃ d : Declaration, d.WellFormed ∧ taken = d.lexemes := by
  refine .bind takes_baseType fun type taken after h => ?_
  obtain ⟨base, rfl, rfl⟩ := h
  refine .bind (takes_declarator base .local after) fun _ taken after hfirst => ?_
  obtain ⟨first, hfirst, rfl⟩ := hfirst
  refine .bind (takes_otherDeclarators base .local after) fun _ taken after hothers => .pure ?_
  obtain ⟨others, hothers, rfl⟩ := hothers
  refine ⟨⟨base, first, others⟩, List.forall_mem_cons.2 ⟨hfirst, hothers⟩, ?_⟩
  simp [Declaration.lexemes, Declaration.declarators, inCommas]

/-! ## Statements -/

/-- An expression that may be missing is well formed if it is there. -/
theorem takes_expressionUnless (sign : Punct) (l : List Lexeme) :
    Takes (expressionUnless sign) l fun _ taken _ =>
      ∃ e : Option Expr, (∀ e' ∈ e, e'.WellFormed) ∧ taken = optionalLexemes e := by
  refine .check ?_
  split
  · exact .pure ⟨none, by simp, rfl⟩
  · rw [← bind_pure_comp]
    refine .bind (takes_expression l) fun _ taken after he => .pure ?_
    obtain ⟨e, he, rfl⟩ := he
    refine ⟨some e, ?_, List.append_nil _⟩
    rintro e' ⟨⟩
    exact he

/-- The first clause of a loop is well formed. -/
theorem takes_forInit (l : List Lexeme) : Takes forInit l fun _ taken _ =>
    ∃ init : ForInit, init.WellFormed ∧ taken = init.lexemes := by
  refine .here fun loc => .accept (fun rest _ => .pure ⟨.none, trivial, rfl⟩) fun _ => ?_
  refine .look startsType_apply ?_
  split
  · refine .bind (takes_localDeclaration l) fun _ taken after hd =>
      .of_keeps (.map (.addStmt _ loc)) fun _ => ?_
    obtain ⟨d, hd, rfl⟩ := hd
    exact ⟨.declare d, hd, List.append_nil _⟩
  · refine .bind (takes_expression l) fun _ taken after he => .expect fun rest _ => ?_
    refine .of_keeps (.map (.addStmt _ loc)) fun _ => ?_
    obtain ⟨e, he, rfl⟩ := he
    exact ⟨.expr e, he, rfl⟩

/-- What the parser takes are the lexemes of a statement, to which no `else` can be added. -/
def TakesStmt (x : Parser StmtId) : Prop :=
  ∀ l, Takes x l fun _ taken after => ∃ stmt : Stmt, stmt.WellFormed ∧
    (stmt.endsOpen = true → after.head? ≠ some (.keyword .elseKw)) ∧ taken = stmt.lexemes

section Statements

variable {statement : Parser StmtId} (hstmt : TakesStmt statement)
include hstmt

/-- The body of a block is a list of well-formed statements. -/
theorem takes_blockBody (l : List Lexeme) : Takes (blockBody statement) l fun _ taken _ =>
    ∃ body : List Stmt, (∀ stmt ∈ body, stmt.WellFormed) ∧ taken = Stmt.lexemesOfAll body := by
  refine .remaining fun bound => ?_
  induction bound generalizing l with
  | zero => exact .pure ⟨[], by simp, rfl⟩
  | succ bound ih =>
    refine .look blockEnds_apply ?_
    split
    · exact .pure ⟨[], by simp, rfl⟩
    · refine .bind (hstmt l) fun _ taken after h => .bind (ih after) fun _ taken' after' hs =>
        .pure ?_
      obtain ⟨stmt, hwf, -, rfl⟩ := h
      obtain ⟨body, hbody, rfl⟩ := hs
      exact ⟨stmt :: body, List.forall_mem_cons.2 ⟨hwf, hbody⟩, by simp [Stmt.lexemesOfAll]⟩

/-- What is read as a statement is one if that holds of the statements in it. -/
theorem takesStmt_statementStep : TakesStmt (statementStep statement) := by
  intro l
  refine .here fun loc => .accept (fun rest _ => ?_) fun _ => .accept (fun rest _ => ?_) fun _ =>
    .accept (fun rest _ => ?_) fun _ => .accept (fun rest _ => ?_) fun _ =>
      .accept (fun rest _ => ?_) fun _ =>
    .accept (fun rest _ => ?_) fun _ => ?_
  -- a block
  · refine .bind (.inScope (takes_blockBody hstmt rest)) fun _ taken after hbody =>
      .expect fun rest _ => ?_
    obtain ⟨body, hbody, rfl⟩ := hbody
    refine .of_keeps (.addStmt _ loc) fun _ => ?_
    exact ⟨.block body, Stmt.allWellFormed_iff.2 hbody, (fun hopen => by cases hopen), rfl⟩
  -- `return`
  · refine .bind (takes_expressionUnless _ rest) fun _ taken after hv => .expect fun rest _ => ?_
    obtain ⟨v, hv, rfl⟩ := hv
    refine .of_keeps (.addStmt _ loc) fun _ => ?_
    exact ⟨.ret v, hv, (fun hopen => by cases hopen), rfl⟩
  -- `if`
  · refine .expect fun rest _ => .bind (takes_expression rest) fun _ taken after hc =>
      .expect fun rest _ => ?_
    obtain ⟨c, hc, rfl⟩ := hc
    refine .bind (hstmt rest) fun _ taken after ht => ?_
    obtain ⟨t, ht, hopen, rfl⟩ := ht
    refine .accept (fun rest hafter => ?_) fun helse => ?_
    · have hclosed : t.endsOpen = false := by
        cases hends : t.endsOpen with
        | false => rfl
        | true => exact absurd (by rw [hafter]; rfl) (hopen hends)
      rw [if_pos rfl, ← bind_pure_comp, bind_assoc]
      refine .bind (hstmt rest) fun _ taken after he => ?_
      obtain ⟨e, he, hopen', rfl⟩ := he
      rw [pure_bind]
      refine .of_keeps (.addStmt _ loc) fun _ => ?_
      exact ⟨.ifElse c t e, ⟨hc, ht, hclosed, he⟩, hopen', by simp [Stmt.lexemes, Delimiter.sign]⟩
    · rw [if_neg Bool.false_ne_true, pure_bind]
      refine .of_keeps (.addStmt _ loc) fun _ => ?_
      exact ⟨.ifThen c t, ⟨hc, ht⟩, fun _ => helse, by simp [Stmt.lexemes, Delimiter.sign]⟩
  -- `while`
  · refine .expect fun rest _ => .bind (takes_expression rest) fun _ taken after hc =>
      .expect fun rest _ => ?_
    obtain ⟨c, hc, rfl⟩ := hc
    refine .bind (hstmt rest) fun _ taken after hb => .of_keeps (.addStmt _ loc) fun _ => ?_
    obtain ⟨b, hb, hopen, rfl⟩ := hb
    exact ⟨.whileLoop c b, ⟨hc, hb⟩, hopen, by simp [Stmt.lexemes, Delimiter.sign]⟩
  -- `for`
  · refine .inScope (.expect fun rest _ => .bind (takes_forInit rest) fun _ taken after hi => ?_)
    obtain ⟨i, hi, rfl⟩ := hi
    refine .bind (takes_expressionUnless _ after) fun _ taken after hc => .expect fun rest _ => ?_
    obtain ⟨c, hc, rfl⟩ := hc
    refine .bind (takes_expressionUnless _ rest) fun _ taken after hi' => .expect fun rest _ => ?_
    obtain ⟨i', hi', rfl⟩ := hi'
    refine .bind (hstmt rest) fun _ taken after hb => .of_keeps (.addStmt _ loc) fun _ => ?_
    obtain ⟨b, hb, hopen, rfl⟩ := hb
    exact ⟨.forLoop i c i' b, ⟨hi, hc, hi', hb⟩, hopen, by simp [Stmt.lexemes, Delimiter.sign]⟩
  -- a semicolon
  · refine .of_keeps (.addStmt _ loc) fun _ => ?_
    exact ⟨.empty, trivial, (fun hopen => by cases hopen), rfl⟩
  · refine .look startsType_apply ?_
    split
    · refine .bind (takes_localDeclaration l) fun _ taken after hd =>
        .of_keeps (.addStmt _ loc) fun _ => ?_
      obtain ⟨d, hd, rfl⟩ := hd
      exact ⟨.declare d, hd, (fun hopen => by cases hopen), List.append_nil _⟩
    · refine .bind (takes_expression l) fun _ taken after he => .expect fun rest _ => ?_
      refine .of_keeps (.addStmt _ loc) fun _ => ?_
      obtain ⟨e, he, rfl⟩ := he
      exact ⟨.expr e, he, (fun hopen => by cases hopen), rfl⟩

end Statements

/-- What is read as a statement is one, to whatever depth it nests. -/
theorem takesStmt_statementWithin (bound : Nat) : TakesStmt (statementWithin bound) := by
  induction bound with
  | zero => exact fun _ _ _ => ensures_unexpected
  | succ bound ih => exact takesStmt_statementStep ih

/-- The statements of a function are well formed. -/
theorem takes_functionStatements (l : List Lexeme) : Takes functionStatements l fun _ taken _ =>
    ∃ body : List Stmt, (∀ stmt ∈ body, stmt.WellFormed) ∧ taken = Stmt.lexemesOfAll body :=
  .remaining fun bound => takes_blockBody (takesStmt_statementWithin bound) l

/-! ## Functions -/

/-- A parameter may have a name. -/
theorem takes_parameterName (l : List Lexeme) : Takes parameterName l fun _ taken _ =>
    ∃ name : Option String, taken = name.toList.map .identifier := by
  refine .peek ?_
  split
  · next name hhead =>
    obtain ⟨rest, rfl⟩ := List.head?_eq_some_iff.1 hhead
    exact .advance (.pure ⟨some name, rfl⟩)
  · exact .pure ⟨none, rfl⟩

/-- A parameter may have brackets with or without a length. -/
theorem takes_parameterType (t : TypeName) (name : Option String) (l : List Lexeme) :
    Takes (parameterType t.type) l fun type taken _ =>
      ∃ p : Param, p.typeName = t ∧ p.name = name ∧ type = p.type ∧ taken = p.lengthLexemes := by
  refine .accept (fun rest _ => ?_) fun _ => .pure ⟨⟨t, name, none⟩, rfl, rfl, rfl, rfl⟩
  rw [if_pos rfl]
  refine .peek ?_
  split
  · next n hhead =>
    obtain ⟨rest, rfl⟩ := List.head?_eq_some_iff.1 hhead
    refine .advance ?_
    rw [pure_bind]
    exact .expect fun rest _ => .pure ⟨⟨t, name, some (some n)⟩, rfl, rfl, rfl, rfl⟩
  · rw [pure_bind]
    exact .expect fun rest _ => .pure ⟨⟨t, name, some none⟩, rfl, rfl, rfl, rfl⟩

/-- What is read as a parameter is a well-formed one. -/
theorem takes_parameter (l : List Lexeme) : Takes parameter l fun _ taken _ =>
    ∃ p : Param, p.WellFormed ∧ taken = p.lexemes := by
  refine .bind takes_typeName fun type taken after ht => .here fun loc => ?_
  obtain ⟨t, rfl, rfl⟩ := ht
  refine .bind (takes_parameterName after) fun _ taken after hname => ?_
  obtain ⟨name, rfl⟩ := hname
  refine .bind (takes_parameterType t name after) fun type taken after hp => ?_
  obtain ⟨p, rfl, rfl, rfl, rfl⟩ := hp
  dsimp only
  split
  · exact fun _ _ => ensures_bind.2 ensures_fail
  · next hvoid =>
    have hdone : ∃ q : Param, q.WellFormed ∧
        p.typeName.lexemes ++ (p.name.toList.map .identifier ++ (p.lengthLexemes ++ [])) =
          q.lexemes :=
      ⟨p, by rw [Param.WellFormed]; simpa using hvoid, by rw [List.append_nil]; rfl⟩
    refine .keeps (.addDecl _ _ loc) fun d => ?_
    split
    · exact .pure hdone
    · exact .keeps (.declare _ d loc) fun _ => .pure hdone

/-- What is read between the parentheses of a function are well-formed parameters. -/
theorem takes_parameters (l : List Lexeme) : Takes parameters l fun _ taken _ =>
    ∃ params : Params, params.WellFormed ∧ taken = params.lexemes := by
  refine .check ?_
  split
  · exact .pure ⟨.list [], by simp [Params.WellFormed], rfl⟩
  · refine .look startsVoidList_apply ?_
    split
    · next hvoid =>
      obtain ⟨ls, rfl⟩ : ∃ ls, l = .keyword .voidKw :: ls := by
        rcases l with _ | ⟨x, _ | ⟨y, ls⟩⟩
        · cases hvoid
        · cases hvoid
        · rw [beginVoidList, Bool.and_eq_true, decide_eq_true_eq] at hvoid
          exact ⟨y :: ls, by rw [hvoid.1]⟩
      exact .advance (.pure ⟨.void, trivial, rfl⟩)
    · refine (takes_commaSeparated takes_parameter).mono fun _ taken _ h => ?_
      obtain ⟨params, hparams, rfl⟩ := h
      exact ⟨.list params, hparams, rfl⟩

/-- The body of a function ends with its brace. -/
theorem takes_functionBody (d : DeclId) (name : String) (loc opening : Location)
    (params : List DeclId)
    (l : List Lexeme) : Takes (functionBody d name loc opening params) l fun _ taken _ =>
      ∃ body : List Stmt, (∀ stmt ∈ body, stmt.WellFormed) ∧
        taken = Stmt.lexemesOfAll body ++ [.punct .rightBrace] := by
  refine .keeps (.declOf d) fun decl => ?_
  dsimp only
  split
  · exact fun _ _ => ensures_bind.2 ensures_fail
  · refine .keeps (.modifyDecl d _) fun _ =>
      .bind (takes_functionStatements l) fun _ taken after hbody => ?_
    obtain ⟨body, hbody, rfl⟩ := hbody
    refine .expect fun rest _ => .keeps (.addStmt _ opening) fun block =>
      .of_keeps (.modifyDecl d _) fun _ => ?_
    exact ⟨body, hbody, rfl⟩

/-- What follows the name of a function are its parameters and its body, if it has one. -/
theorem takes_functionRest (t : TypeName) (name : String) (loc : Location) (l : List Lexeme) :
    Takes (functionRest t.type name loc) l fun _ taken _ =>
      ∃ f : Function, f.returnType = t ∧ f.name = name ∧ f.WellFormed ∧
        taken = f.params.lexemes ++ .punct .rightParen :: f.bodyLexemes := by
  refine .inScope (.bind (takes_parameters l) fun params taken after hparams =>
    .expect fun rest _ => ?_)
  obtain ⟨params, hparams, rfl⟩ := hparams
  refine .keeps (keepsTokens_functionDecl _ _ _ _) fun d => .here fun opening => ?_
  refine .accept (fun rest _ => ?_) fun _ => ?_
  · rw [if_pos rfl]
    refine (takes_functionBody _ _ _ _ _ rest).mono fun _ taken _ h => ?_
    obtain ⟨body, hbody, rfl⟩ := h
    refine ⟨⟨t, name, params, some body⟩, rfl, rfl, ⟨hparams, ?_⟩,
      by simp [Function.bodyLexemes, Delimiter.sign]⟩
    rintro body' ⟨⟩
    exact hbody
  · rw [if_neg Bool.false_ne_true, ← bind_pure (expect _)]
    refine .expect fun rest _ => .pure ?_
    refine ⟨⟨t, name, params, none⟩, rfl, rfl, ⟨hparams, ?_⟩,
      by simp [Function.bodyLexemes, Delimiter.sign]⟩
    intro body hbody
    cases hbody

/-! ## Files -/

theorem takes_item (l : List Lexeme) :
    Takes (baseType >>= fun base => stars base >>= fun type => here >>= fun loc =>
      identifier >>= fun name =>
        accept Punct.leftParen >>= fun opens =>
          if opens then functionRest type name loc
          else variableRest type name loc .global >>= fun first =>
            otherDeclarators base .global >>= fun others =>
            (first :: others).forM fun d => addItem (.variable d)) l
      fun _ taken _ => ∃ item : Item, item.WellFormed ∧ taken = item.lexemes := by
  refine .bind takes_baseType fun type taken after h => ?_
  obtain ⟨base, rfl, rfl⟩ := h
  refine .bind (takes_stars _) fun type taken after h => .here fun loc =>
    .identifier fun name rest _ => ?_
  obtain ⟨stars, rfl, rfl⟩ := h
  refine .accept (fun rest _ => ?_) fun _ => ?_
  · rw [if_pos rfl]
    refine (takes_functionRest ⟨base, stars⟩ name loc rest).mono fun _ taken _ h => ?_
    obtain ⟨f, hreturn, rfl, hf, rfl⟩ := h
    refine ⟨.function f, hf, ?_⟩
    rw [Item.lexemes, Function.lexemes, hreturn]
    rfl
  · rw [if_neg Bool.false_ne_true]
    refine .bind (takes_variableRest base stars name loc .global rest) fun v taken after h => ?_
    obtain ⟨first, rfl, rfl, hfirst, rfl⟩ := h
    refine .bind (takes_otherDeclarators base .global after) fun vs taken after h => ?_
    obtain ⟨others, hothers, rfl⟩ := h
    refine .of_keeps (keepsTokens_addItems (v :: vs)) fun _ => ?_
    refine ⟨.declaration ⟨base, first, others⟩, List.forall_mem_cons.2 ⟨hfirst, hothers⟩, ?_⟩
    simp [Item.lexemes, Declaration.lexemes, Declaration.declarators, inCommas, Declarator.lexemes]

/-- What is read at the top of a file is a function or a list of variables. -/
theorem takes_topLevel (l : List Lexeme) : Takes topLevel l fun _ taken _ =>
    ∃ d : TopLevel, d.item.WellFormed ∧ taken = d.lexemes := by
  refine .accept (fun rest _ => ?_) fun _ => ?_
  · refine (takes_item rest).mono fun _ taken _ h => ?_
    obtain ⟨item, hitem, rfl⟩ := h
    exact ⟨⟨true, item⟩, hitem, rfl⟩
  · refine (takes_item l).mono fun _ taken _ h => ?_
    obtain ⟨item, hitem, rfl⟩ := h
    exact ⟨⟨false, item⟩, hitem, rfl⟩

/-- With a bound on the rounds that the number of lexemes meets, all lexemes are taken. -/
theorem takes_repeatTopLevel (bound : Nat) (l : List Lexeme) (hbound : l.length ≤ bound) :
    Takes (repeatUntil atEnd topLevel bound) l fun _ taken after =>
      after = [] ∧ ∃ ds : List TopLevel, (∀ d ∈ ds, d.item.WellFormed) ∧
        taken = ds.flatMap TopLevel.lexemes := by
  induction bound generalizing l with
  | zero =>
    obtain rfl : l = [] := List.length_eq_zero_iff.1 (Nat.le_zero.1 hbound)
    exact .pure ⟨rfl, [], by simp, rfl⟩
  | succ bound ih =>
    refine .look atEnd_apply ?_
    split
    · next hempty =>
      exact .pure ⟨List.isEmpty_iff.1 hempty, [], by simp, rfl⟩
    · refine .bind_of_eq (takes_topLevel l) fun _ taken after hl h => ?_
      obtain ⟨d, hd, rfl⟩ := h
      obtain ⟨x, ls, hls⟩ := d.head
      have hafter : after.length ≤ bound := by
        rw [hl, hls, List.length_append, List.length_cons] at hbound
        omega
      refine .bind (ih after hafter) fun _ taken after h => .pure ?_
      obtain ⟨rfl, ds, hds, rfl⟩ := h
      exact ⟨rfl, d :: ds, List.forall_mem_cons.2 ⟨hd, hds⟩, by simp⟩

/-- A file that is read is well formed, and nothing is left after it. -/
theorem takes_translationUnit (l : List Lexeme) : Takes translationUnit l fun _ taken after =>
    after = [] ∧ ∃ file : File, file.WellFormed ∧ taken = file.lexemes := by
  refine .look (b := List.length) (fun s => by rw [ParserState.lexemes, List.length_map]; rfl) ?_
  refine .bind (takes_repeatTopLevel l.length l (Nat.le_refl _)) fun _ taken after h => .pure ?_
  obtain ⟨rfl, ds, hds, rfl⟩ := h
  exact ⟨rfl, ⟨ds⟩, hds, List.append_nil _⟩

/-! ## Programs -/

/-- A source text that is a program has tokens, and their lexemes are those of a well-formed file,
from which the program is built. -/
theorem exists_file_of_parse {source : String} {p : Program} (h : Program.parse source = .ok p) :
    ∃ (stream : TokenStream) (file : File), tokenize source = .ok stream ∧ file.WellFormed ∧
      stream.tokens.map Token.lexeme = file.lexemes ∧
        ∃ s, file.build (.start stream) = .ok ((), s) ∧ s.program = p := by
  unfold Program.parse at h
  split at h
  · next stream hstream =>
    change Except.map _ (translationUnit (.start stream)) = _ at h
    cases hrun : translationUnit (.start stream) with
    | error e =>
      rw [hrun] at h
      cases h
    | ok r =>
      obtain ⟨⟨⟩, s⟩ := r
      rw [hrun] at h
      cases h
      obtain ⟨taken, hl, hnil, file, hfile, rfl⟩ :=
        (takes_translationUnit _ (.start stream) rfl).of_ok hrun
      rw [hnil] at hl
      refine ⟨stream, file, hstream, hfile, hl.trans (List.append_nil _), s, ?_, rfl⟩
      rw [← (matches_translationUnit hfile (.start stream) hl).1, hrun]
  · cases h

end Written

end MiniC
