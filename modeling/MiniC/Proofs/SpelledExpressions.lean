import MiniC.Proofs.ExpressionReading

/-!
# Whatever is read as an expression

`Written.matches_expression` starts from a tree. Here the tree comes last: wherever the grammar
succeeds at reading an expression, the tokens that it took spell out a well-formed tree, and it did
what building the tree does (`Written.readsTree_expression`). Nothing is assumed about what follows
those tokens.
-/

set_option autoImplicit false

namespace MiniC

/-- The state after the next token is taken. -/
def ParserState.next (s : ParserState) : ParserState := { s with rest := s.rest.tail }

/-- The place of the next token. -/
def ParserState.place (s : ParserState) : Location := (s.rest.head?.map Token.loc).getD s.endLoc

namespace Parser

variable {α β : Type} {s t : ParserState} {Q : β → ParserState → Prop}

/-! ## Single steps from a state -/

theorem here_bind (f : Location → Parser β) : (here >>= f) s = f s.place s := rfl

theorem advance_bind (f : Unit → Parser β) : (advance >>= f) s = f () s.next := rfl

theorem bind_of_eq_ok {x : Parser α} {a : α} (h : x s = .ok (a, t)) (f : α → Parser β) :
    (x >>= f) s = f a t := by
  change Except.bind (x s) (fun r => f r.1 r.2) = f a t
  rw [h]
  rfl

theorem declOf_bind (d : DeclId) (f : Decl → Parser β) :
    (declOf d >>= f) s = f (s.program.decl d) s := rfl

/-- What is left begins with the lexeme that comes next. -/
theorem lexemes_of_head? {x : Lexeme} (h : s.lexemes.head? = some x) :
    s.lexemes = x :: s.next.lexemes := by
  obtain ⟨rest, hrest⟩ := List.head?_eq_some_iff.1 h
  have hnext : s.next.lexemes = s.lexemes.tail := List.map_tail
  rw [hnext, hrest, List.tail_cons]

/-- A step that building a tree takes as well. -/
theorem ensures_bind_same {x : Parser α} {f : α → Parser β} (hx : KeepsTokens x)
    (hf : ∀ a t, x s = .ok (a, t) → t.lexemes = s.lexemes → Ensures (f a) t Q) :
    Ensures (x >>= f) s Q := by
  have hkeeps := hx s
  rw [ensures_bind]
  unfold Ensures at hkeeps ⊢
  split
  · next a t hxs =>
    rw [hxs] at hkeeps
    exact hf a t hxs hkeeps
  · trivial

theorem ensures_here_bind {f : Location → Parser β} :
    Ensures (here >>= f) s Q ↔ Ensures (f s.place) s Q := Iff.rfl

theorem ensures_advance_bind {f : Unit → Parser β} :
    Ensures (advance >>= f) s Q ↔ Ensures (f ()) s.next Q := Iff.rfl

theorem ensures_remaining_bind {f : Nat → Parser β} :
    Ensures (remaining >>= f) s Q ↔ Ensures (f s.rest.length) s Q := Iff.rfl

theorem ensures_declOf_bind {d : DeclId} {f : Decl → Parser β} :
    Ensures (declOf d >>= f) s Q ↔ Ensures (f (s.program.decl d)) s Q := Iff.rfl

theorem ensures_peek_bind {f : Option Lexeme → Parser β} :
    Ensures (peek >>= f) s Q ↔ Ensures (f s.lexemes.head?) s Q := by
  rw [ensures_bind, ensures_peek, head?_of_lexemes rfl]

theorem ensures_startsParenthesisedType_bind {f : Bool → Parser β} :
    Ensures (startsParenthesisedType >>= f) s Q ↔
      Ensures (f (Written.beginCast s.lexemes)) s Q := by
  rw [ensures_bind]
  unfold Ensures
  rw [Written.startsParenthesisedType_apply]

/-- A lexeme that may be there is one of those that are left, if it is taken. -/
theorem ensures_accept_bind {x : Lexeme} {f : Bool → Parser β}
    (ht : s.lexemes = x :: s.next.lexemes → Ensures (f true) s.next Q)
    (hf : Ensures (f false) s Q) :
    Ensures (accept x >>= f) s Q := by
  unfold accept
  rw [bind_assoc, ensures_bind, ensures_check, head?_of_lexemes rfl]
  by_cases h : s.lexemes.head? = some x
  · rw [decide_eq_true h]
    exact ht (lexemes_of_head? h)
  · rw [decide_eq_false h]
    exact hf

/-- A delimiter that was expected is one of those that are left. -/
theorem ensures_expect_bind {delimiter : Delimiter} {f : Unit → Parser β}
    (h : s.lexemes = .punct delimiter.sign :: s.next.lexemes → Ensures (f ()) s.next Q) :
    Ensures (expect delimiter >>= f) s Q := by
  rw [ensures_bind]
  unfold expect
  rw [ensures_bind, ensures_check, head?_of_lexemes rfl]
  by_cases hhead : s.lexemes.head? = some (.punct delimiter.sign)
  · rw [decide_eq_true hhead]
    exact h (lexemes_of_head? hhead)
  · rw [decide_eq_false hhead]
    exact trivial

end Parser

namespace Written

open MiniC.Parser

/-- The tokens from one state to another spell a well-formed expression that binds at least as
tightly as the level says, and building it leads from the one state to the other. -/
structure Expr.ReadFrom (e : Expr) (level : Nat) (s : ParserState) (id : ExprId)
    (t : ParserState) : Prop where
  wellFormed : e.WellFormed
  level_le : level ≤ e.level
  lexemes : s.lexemes = e.lexemes ++ t.lexemes
  build : e.build s = .ok (id, t)

/-- Where the parser succeeds, it reads an expression of the level. -/
def ReadsTree (x : Parser ExprId) (level : Nat) : Prop :=
  ∀ s, Ensures x s fun id t => ∃ e : Expr, e.ReadFrom level s id t

variable {s t : ParserState} {k k' : Nat}

/-- An expression of a level is one of every lower level. -/
theorem Expr.ReadFrom.mono {e : Expr} {id : ExprId} (h : e.ReadFrom k s id t) (hle : k' ≤ k) :
    e.ReadFrom k' s id t := { h with level_le := Nat.le_trans hle h.level_le }

/-- A parser for a level reads expressions of every lower level. -/
theorem ReadsTree.mono {x : Parser ExprId} (h : ReadsTree x k) (hle : k' ≤ k) : ReadsTree x k' := by
  intro s
  apply (h s).mono
  rintro id t ⟨e, he⟩
  exact ⟨e, he.mono hle⟩

/-- All tokens of an expression are taken, and what is left to do of building it takes none. -/
theorem Expr.ensures_readFrom {e : Expr} (hwf : e.WellFormed) (hlevel : k ≤ e.level)
    (hlexemes : s.lexemes = e.lexemes ++ t.lexemes) {x : Parser ExprId} (hx : KeepsTokens x)
    (hbuild : e.build s = x t) : Ensures x t fun id u => ∃ e : Expr, e.ReadFrom k s id u := by
  have hkeeps := hx t
  unfold Ensures at hkeeps ⊢
  cases hxt : x t with
  | error e => trivial
  | ok r =>
    rw [hxt] at hkeeps
    refine ⟨e, hwf, hlevel, ?_, hbuild.trans hxt⟩
    rw [hlexemes, hkeeps]

/-! ## Types -/

/-- Base types are told by their words. -/
theorem word_of_baseType? {x : Lexeme} {base : BaseType} (h : x.baseType? = some base) :
    x = .keyword base.word := by
  cases x with
  | keyword word => cases word <;> cases h <;> rfl
  | integer _ | identifier _ | punct _ => cases h

/-- A cast begins with a parenthesis. -/
theorem exists_cons_of_beginCast {l : List Lexeme} (h : beginCast l = true) :
    ∃ ls, l = .punct .leftParen :: ls := by
  rcases l with _ | ⟨x, _ | ⟨y, ls⟩⟩
  · cases h
  · cases h
  · rw [beginCast, Bool.and_eq_true, decide_eq_true_eq] at h
    exact ⟨y :: ls, by rw [h.1]⟩

/-- The stars that are taken are spelled, and skipping them leads to the same state. -/
theorem ensures_starsWithin_spelled (bound : Nat) (type : CType) :
    Ensures (starsWithin bound type) s fun type' t => ∃ n, type' = type.withPointers n ∧
      s.lexemes = List.replicate n (.punct .star) ++ t.lexemes ∧ skip n s = .ok ((), t) := by
  induction bound generalizing s type with
  | zero => exact ⟨0, rfl, rfl, rfl⟩
  | succ bound ih =>
    refine ensures_accept_bind (fun hstar => ?_) ⟨0, rfl, rfl, rfl⟩
    apply (ih type.withPointer).mono
    rintro type' t ⟨n, rfl, hlexemes, hskip⟩
    refine ⟨n + 1, withPointers_withPointer type n, ?_, ?_⟩
    · rw [hstar, hlexemes, List.replicate_succ, List.cons_append]
    · rw [skip, advance_bind, hskip]

/-- A written type is taken as it is built. -/
theorem ensures_typeName_spelled : Ensures typeName s fun type t =>
    ∃ w : TypeName, type = w.type ∧ s.lexemes = w.lexemes ++ t.lexemes ∧
      w.build s = .ok (type, t) := by
  unfold typeName baseType
  rw [bind_assoc, ensures_peek_bind]
  split
  · next base hbase =>
    obtain ⟨word, hhead, hword⟩ := Option.bind_eq_some_iff.1 hbase
    have hs := lexemes_of_head? hhead
    apply (ensures_starsWithin_spelled (s := s.next) _ _).mono
    rintro type t ⟨n, rfl, hlexemes, hskip⟩
    refine ⟨⟨base, n⟩, rfl, ?_, ?_⟩
    · rw [hs, hlexemes, word_of_baseType? hword]
      rfl
    · rw [TypeName.build, advance_bind, bind_of_eq_ok hskip]
      rfl
  · exact trivial

/-! ## Arguments -/

/-- The same for expressions with commas between them. -/
structure ListReadFrom (args : List Expr) (s : ParserState) (ids : List ExprId)
    (t : ParserState) : Prop where
  wellFormed : ∀ arg ∈ args, arg.WellFormed
  lexemes : s.lexemes = inCommas (args.map Expr.lexemes) ++ t.lexemes
  build : buildInCommas (args.map Expr.build) s = .ok (ids, t)

/-- Items after commas are spelled with these commas. -/
theorem ensures_afterCommas_spelled {item : Parser ExprId}
    (hitem : ReadsTree item 0) (bound : Nat) :
    Ensures (afterCommas item bound) s fun ids t =>
      ∃ args : List Expr, (∀ arg ∈ args, arg.WellFormed) ∧
      s.lexemes = (args.map Expr.lexemes).flatMap (.punct .comma :: ·) ++ t.lexemes ∧
        buildAfterCommas (args.map Expr.build) s = .ok (ids, t) := by
  induction bound generalizing s with
  | zero => exact ⟨[], by simp, rfl, rfl⟩
  | succ bound ih =>
    refine ensures_accept_bind (fun hcomma => ?_) ⟨[], by simp, rfl, rfl⟩
    rw [if_pos rfl]
    apply (hitem s.next).bind
    rintro id t ⟨arg, harg⟩
    apply ih.bind
    rintro ids u ⟨args, hargs, hlexemes, hbuild⟩
    refine ⟨arg :: args, List.forall_mem_cons.2 ⟨harg.wellFormed, hargs⟩, ?_, ?_⟩
    · rw [hcomma, harg.lexemes, hlexemes]
      simp
    · rw [List.map_cons, buildAfterCommas, advance_bind, bind_of_eq_ok harg.build,
        bind_of_eq_ok hbuild]
      rfl

/-- A list in commas is spelled by its items and the commas between them. -/
theorem ensures_commaSeparated_spelled {item : Parser ExprId} (hitem : ReadsTree item 0) :
    Ensures (commaSeparated item) s fun ids t => ∃ args, ListReadFrom args s ids t := by
  apply (hitem s).bind
  rintro id t ⟨arg, harg⟩
  rw [ensures_remaining_bind]
  apply (ensures_afterCommas_spelled hitem _).bind
  rintro ids u ⟨args, hargs, hlexemes, hbuild⟩
  refine ⟨arg :: args, List.forall_mem_cons.2 ⟨harg.wellFormed, hargs⟩, ?_, ?_⟩
  · rw [harg.lexemes, hlexemes, List.map_cons, inCommas, List.append_assoc]
  · rw [List.map_cons, buildInCommas, bind_of_eq_ok harg.build, bind_of_eq_ok hbuild]
    rfl

section Levels

variable {operandAt : OperandLevel → Parser ExprId}
  (hop : ∀ level, ReadsTree (operandAt level) (leastLevel level))
include hop

/-- The arguments of a call, with the parenthesis that closes them. -/
theorem ensures_arguments_spelled :
    Ensures (arguments operandAt) s fun ids t => ∃ args u, ListReadFrom args s ids u ∧
      u.lexemes = .punct .rightParen :: t.lexemes ∧ t = u.next := by
  have hclose {args : List Expr} {ids : List ExprId} {u : ParserState}
    (hargs : ListReadFrom args s ids u) :
      Ensures (expect .argumentsClose >>= fun _ => pure ids) u fun ids t =>
        ∃ args u, ListReadFrom args s ids u ∧
        u.lexemes = .punct .rightParen :: t.lexemes ∧ t = u.next :=
    ensures_expect_bind fun hparen => ⟨args, u, hargs, hparen, rfl⟩
  unfold arguments
  rw [ensures_bind, ensures_check]
  split
  · have hnone : ListReadFrom [] s [] s := ⟨by simp, rfl, rfl⟩
    exact hclose hnone
  · apply (ensures_commaSeparated_spelled (hop .assignment)).bind
    rintro ids u ⟨args, hargs⟩
    exact hclose hargs

/-! ## Primary expressions and suffixes -/

/-- A name, or a call; the token of the name comes before. -/
theorem ensures_reference_spelled {name : String}
    (hname : s.lexemes = .identifier name :: s.next.lexemes) :
    Ensures (reference operandAt name s.place) s.next fun id t =>
      ∃ e : Expr, e.ReadFrom 14 s id t := by
  refine ensures_bind_same (.resolve name s.place) fun d t hresolve hkeeps => ?_
  rw [ensures_bind, ensures_check, head?_of_lexemes rfl]
  split
  · next hparen =>
    have ht := lexemes_of_head? (of_decide_eq_true hparen)
    rw [ensures_declOf_bind]
    dsimp only
    cases hfunction : (t.program.decl d).isFunction with
    | false => exact ensures_bind.2 ensures_fail
    | true =>
      rw [if_pos rfl, ensures_advance_bind]
      apply (ensures_arguments_spelled hop (s := t.next)).bind
      rintro ids u ⟨args, v, hargs, hclose, rfl⟩
      refine Expr.ensures_readFrom (e := .call name args)
        (Expr.eachWellFormed_iff.2 hargs.wellFormed)
        (Nat.le_refl 14) ?_ (.bind (.declOf d) fun _ => .addExpr _ _ _) ?_
      · rw [hname, ← hkeeps, ht, hargs.lexemes, hclose, Expr.lexemes, Expr.lexemesOfEach_eq_map]
        simp
      · rw [Expr.build, here_bind, advance_bind, bind_of_eq_ok hresolve, declOf_bind]
        dsimp only
        rw [hfunction, if_pos rfl, advance_bind, Expr.buildEach_eq_map,
          bind_of_eq_ok hargs.build, advance_bind]
  · -- without a parenthesis after it, the name stands for itself
    refine Expr.ensures_readFrom (e := .name name) trivial (Nat.le_refl 14) ?_
      (.bind (.declOf d) fun _ => .addExpr _ _ _) ?_
    · rw [hname, hkeeps]
      rfl
    · rw [Expr.build, here_bind, advance_bind, bind_of_eq_ok hresolve]

/-- A primary expression binds most tightly. -/
theorem readsTree_primary : ReadsTree (primary operandAt) 14 := by
  intro s
  unfold primary
  rw [ensures_here_bind, ensures_peek_bind]
  split
  · next value hhead =>
    exact Expr.ensures_readFrom (e := .literal value) (t := s.next) trivial (Nat.le_refl 14)
      (lexemes_of_head? hhead) (.addExpr _ _ _) rfl
  · next name hhead => exact ensures_reference_spelled hop (lexemes_of_head? hhead)
  · next hhead =>
    have hs := lexemes_of_head? hhead
    rw [ensures_advance_bind]
    apply (hop .assignment s.next).bind
    rintro id t ⟨e, he⟩
    refine ensures_expect_bind fun hclose => ?_
    refine Expr.ensures_readFrom (e := .paren e) he.wellFormed (Nat.le_refl 14) ?_
      (.bind (.typeOf id) fun _ => .addExpr _ _ _) ?_
    · rw [hs, he.lexemes, hclose, Expr.lexemes]
      simp [Delimiter.sign]
    · rw [Expr.build, here_bind, advance_bind, bind_of_eq_ok he.build, advance_bind]
  · exact ensures_unexpected

omit hop in
/-- An operator after an expression. -/
theorem Expr.ReadFrom.ensures_trailing {e : Expr} {id : ExprId}
    (he : e.ReadFrom 13 s id t) (op : UnaryOp)
    (htrails : op.trails = true) (hsign : t.lexemes = .punct op.sign :: t.next.lexemes) :
    Ensures (addUnary op id t.place) t.next fun id' u => ∃ e' : Expr, e'.ReadFrom 13 s id' u := by
  refine Expr.ensures_readFrom (e := .unary op e) ⟨he.wellFormed, ?_⟩ ?_ ?_ (.addUnary _ _ _) ?_
  · rw [if_pos htrails]
    exact he.level_le
  · exact Nat.le_of_eq (if_pos htrails).symm
  · rw [he.lexemes, hsign, Expr.lexemes, if_pos htrails, List.append_assoc]
    rfl
  · rw [Expr.build, if_pos htrails, bind_of_eq_ok he.build, here_bind, advance_bind]

/-- Suffixes go on with an expression that was read before. -/
theorem ensures_suffixes_spelled {e : Expr} {id : ExprId}
    (he : e.ReadFrom 13 s id t) (bound : Nat) :
    Ensures (suffixes operandAt bound id) t fun id' u => ∃ e' : Expr, e'.ReadFrom 13 s id' u := by
  -- with every suffix the expression read so far grows, and the tokens from `s` on still spell it
  induction bound generalizing e id t with
  | zero => exact ⟨e, he⟩
  | succ bound ih =>
    unfold suffixes
    rw [ensures_here_bind]
    refine ensures_accept_bind (fun hbracket => ?_) (ensures_accept_bind (fun hsign => ?_)
      (ensures_accept_bind (fun hsign => ?_) ⟨e, he⟩))
    · apply (hop .assignment t.next).bind
      rintro i u ⟨index, hindex⟩
      refine ensures_expect_bind fun hclose => ?_
      rw [← bind_assoc]
      refine Ensures.bind (Expr.ensures_readFrom (s := s) (e := .subscript e index) (k := 13)
        ⟨he.wellFormed, he.level_le, hindex.wellFormed⟩ (Nat.le_refl 13) ?_
        (.bind (.typeOf id) fun _ => .addExpr _ _ _) ?_) fun id' v ⟨e', he'⟩ => ih he'
      · rw [he.lexemes, hbracket, hindex.lexemes, hclose, Expr.lexemes]
        simp [Delimiter.sign]
      · rw [Expr.build, bind_of_eq_ok he.build, here_bind, advance_bind,
          bind_of_eq_ok hindex.build, advance_bind]
    · exact (he.ensures_trailing .postInc rfl hsign).bind fun id' u ⟨e', he'⟩ => ih he'
    · exact (he.ensures_trailing .postDec rfl hsign).bind fun id' u ⟨e', he'⟩ => ih he'

/-- Calls and subscripts go on from a primary expression to the right. -/
theorem readsTree_suffixed : ReadsTree (suffixed operandAt) 13 := by
  intro s
  apply (readsTree_primary hop s).bind
  rintro id t ⟨e, he⟩
  rw [ensures_remaining_bind]
  exact ensures_suffixes_spelled hop (he.mono (Nat.le_succ 13)) _

/-! ## Operators and casts in front -/

/-- What follows the word that asks for a size; the token of the word comes before. -/
theorem ensures_sizeof_spelled (hword : s.lexemes = .keyword .sizeofKw :: s.next.lexemes) :
    Ensures (sizeofOperand operandAt >>= fun type => addExpr (.sizeOf type) .int s.place)
      s.next fun id t =>
      ∃ e : Expr, e.ReadFrom 12 s id t := by
  unfold sizeofOperand
  rw [bind_assoc, ensures_startsParenthesisedType_bind]
  split
  · next hcast =>
    obtain ⟨ls, hparen⟩ := exists_cons_of_beginCast hcast
    have hnext := lexemes_of_head? (s := s.next) (by rw [hparen]; rfl)
    rw [bind_assoc, ensures_advance_bind, bind_assoc]
    apply ensures_typeName_spelled.bind
    rintro type t ⟨w, rfl, htype, hbuild⟩
    rw [bind_assoc]
    refine ensures_expect_bind fun hclose => ?_
    refine Expr.ensures_readFrom (e := .sizeOfType w) trivial (Nat.le_refl 12) ?_
      (.addExpr _ _ _) ?_
    · rw [hword, hnext, htype, hclose, Expr.lexemes]
      simp [Delimiter.sign]
    · rw [Expr.build, here_bind, advance_bind, advance_bind, bind_of_eq_ok hbuild, advance_bind]
      rfl
  · rw [bind_assoc]
    apply (hop .unary s.next).bind
    rintro id t ⟨e, he⟩
    refine Expr.ensures_readFrom (e := .sizeOf e) ⟨he.wellFormed, he.level_le⟩ (Nat.le_refl 12) ?_
      (.bind (.typeOf id) fun _ => .addExpr _ _ _) ?_
    · rw [hword, he.lexemes]
      rfl
    · rw [Expr.build, here_bind, advance_bind, bind_of_eq_ok he.build]

/-- An operator before an operand binds less tightly than one after it. -/
theorem readsTree_prefixed : ReadsTree (prefixed operandAt) 12 := by
  have hsuffixed := (readsTree_suffixed hop).mono (Nat.le_succ 12)
  intro s
  unfold prefixed
  rw [ensures_here_bind, ensures_peek_bind]
  split
  · next hhead => exact ensures_sizeof_spelled hop (lexemes_of_head? hhead)
  · next sign hhead =>
    split
    · next op hunary =>
      obtain ⟨rfl, htrails⟩ := Punct.sign_of_unary? hunary
      have hs := lexemes_of_head? hhead
      rw [ensures_advance_bind]
      apply (hop .cast s.next).bind
      rintro id t ⟨e, he⟩
      have hprefix : ¬ op.trails = true := by rw [htrails]; exact Bool.false_ne_true
      refine Expr.ensures_readFrom (e := .unary op e) ⟨he.wellFormed, ?_⟩ ?_ ?_ (.addUnary _ _ _) ?_
      · rw [if_neg hprefix]
        exact he.level_le
      · exact Nat.le_of_eq (if_neg hprefix).symm
      · rw [hs, he.lexemes, Expr.lexemes, if_neg hprefix, List.cons_append]
      · rw [Expr.build, if_neg hprefix, here_bind, advance_bind, bind_of_eq_ok he.build]
    · exact hsuffixed s
  · exact hsuffixed s

/-- A conversion binds less tightly than any unary operator. -/
theorem readsTree_casted : ReadsTree (casted operandAt) 11 := by
  intro s
  unfold casted
  rw [ensures_here_bind, ensures_startsParenthesisedType_bind]
  split
  · next hcast =>
    obtain ⟨ls, hparen⟩ := exists_cons_of_beginCast hcast
    have hs := lexemes_of_head? (s := s) (by rw [hparen]; rfl)
    rw [ensures_advance_bind]
    apply ensures_typeName_spelled.bind
    rintro type t ⟨w, rfl, htype, hbuild⟩
    refine ensures_expect_bind fun hclose => ?_
    apply (hop .cast t.next).bind
    rintro id u ⟨e, he⟩
    refine Expr.ensures_readFrom (e := .cast w e) ⟨he.wellFormed, he.level_le⟩ (Nat.le_refl 11) ?_
      (.addExpr _ _ _) ?_
    · rw [hs, htype, hclose, he.lexemes, Expr.lexemes]
      simp [Delimiter.sign]
    · rw [Expr.build, here_bind, advance_bind, bind_of_eq_ok hbuild, advance_bind,
        bind_of_eq_ok he.build]
  · exact (readsTree_prefixed hop).mono (Nat.le_succ 11) s

/-! ## Binary operators -/

omit hop in
/-- A binary operation whose left operand was read before. -/
theorem Expr.ReadFrom.ensures_binary {lhs rhs : Expr} {l r : ExprId} {u : ParserState}
    (hl : lhs.ReadFrom k s l t) {op : BinaryOp}
    (hsign : t.lexemes = .punct op.sign :: t.next.lexemes)
    (hr : rhs.ReadFrom 0 t.next r u)
    (hlevels : if op.isAssignment then 1 ≤ lhs.level else op.level ≤ lhs.level ∧
      op.level < rhs.level) :
    Ensures (addBinary op l r t.place) u fun id v => ∃ e : Expr, e.ReadFrom op.level s id v := by
  refine Expr.ensures_readFrom (e := .binary op lhs rhs) ⟨hl.wellFormed, hr.wellFormed, hlevels⟩
    (Nat.le_refl _) ?_ (.addBinary _ _ _ _) ?_
  · rw [hl.lexemes, hsign, hr.lexemes, Expr.lexemes, List.append_assoc, List.cons_append]
  · rw [Expr.build, bind_of_eq_ok hl.build, here_bind, advance_bind, bind_of_eq_ok hr.build]

omit hop in
/-- The operators of a level go on with an operand that was read before. -/
theorem ensures_leftChain_spelled (hk : k < binaryLevels.length) {operand : Parser ExprId}
    (hoperand : ReadsTree operand (k + 2)) {e : Expr} {id : ExprId}
    (he : e.ReadFrom (k + 1) s id t) (bound : Nat) :
    Ensures (leftChain binaryLevels[k] operand bound id) t fun id' u =>
      ∃ e' : Expr, e'.ReadFrom (k + 1) s id' u := by
  -- what was read so far is the left operand of the next operator, so the grouping is to the left
  induction bound generalizing e id t with
  | zero => exact ⟨e, he⟩
  | succ bound ih =>
    unfold leftChain
    rw [ensures_here_bind, ensures_peek_bind]
    split
    · exact ⟨e, he⟩
    · next op hoperator =>
      obtain ⟨x, hhead, hx⟩ := Option.bind_eq_some_iff.1 hoperator
      obtain ⟨rfl, hlevel⟩ := BinaryLevel.sign_of_operator? hk hx
      rw [ensures_advance_bind]
      apply (hoperand t.next).bind
      rintro r u ⟨rhs, hr⟩
      have hassignment : ¬ op.isAssignment = true := by
        rw [← BinaryOp.level_eq_zero_iff]
        omega
      have hlevels : if op.isAssignment then 1 ≤ e.level else op.level ≤ e.level ∧
          op.level < rhs.level := by
        rw [if_neg hassignment, hlevel]
        exact ⟨he.level_le, hr.level_le⟩
      have hbinary := he.ensures_binary (lexemes_of_head? hhead) (hr.mono (Nat.zero_le _)) hlevels
      rw [hlevel] at hbinary
      exact hbinary.bind fun id' v ⟨e', he'⟩ => ih he'

/-- Each level of operators binds as tightly as its place in the list says. -/
theorem readsTree_binary (hk : k ≤ binaryLevels.length) :
    ReadsTree (binary operandAt (binaryLevels.drop k)) (k + 1) := by
  -- from the tightest level up: the operands of a level are what the next tighter one reads
  induction hd : binaryLevels.length - k generalizing k with
  | zero =>
    cases Nat.le_antisymm hk (Nat.le_of_sub_eq_zero hd)
    exact readsTree_casted hop
  | succ d ih =>
    have hlt : k < binaryLevels.length := by omega
    have htighter := ih hlt (by omega)
    intro s
    rw [List.drop_eq_getElem_cons hlt]
    apply (htighter s).bind
    rintro id t ⟨e, he⟩
    rw [ensures_remaining_bind]
    exact ensures_leftChain_spelled hlt htighter (he.mono (Nat.le_succ _)) _

/-- An assignment binds least tightly. -/
theorem readsTree_assignment : ReadsTree (assignment operandAt) 0 := by
  intro s
  apply (readsTree_binary hop (Nat.zero_le _) s).bind
  rintro id t ⟨e, he⟩
  have hdone : ∃ e' : Expr, e'.ReadFrom 0 s id t := ⟨e, he.mono (Nat.zero_le _)⟩
  rw [ensures_here_bind, ensures_peek_bind]
  split
  · next sign hhead =>
    split
    · next op hoperator =>
      obtain ⟨rfl, hassignment⟩ := Punct.sign_of_assignment? hoperator
      rw [ensures_advance_bind]
      apply (hop .assignment t.next).bind
      rintro r u ⟨rhs, hr⟩
      have hlevels : if op.isAssignment then 1 ≤ e.level else op.level ≤ e.level ∧
          op.level < rhs.level := by
        rw [if_pos hassignment]
        exact he.level_le
      apply (he.ensures_binary (lexemes_of_head? hhead) hr hlevels).mono
      rintro id' v ⟨e', he'⟩
      exact ⟨e', he'.mono (Nat.zero_le _)⟩
    · exact hdone
  · exact hdone

end Levels

/-! ## Expressions -/

/-- Whatever is asked for is read, to whatever depth it nests. -/
theorem readsTree_expressionWithin (bound : Nat) (level : OperandLevel) :
    ReadsTree (expressionWithin bound level) (leastLevel level) := by
  induction bound generalizing level with
  | zero => exact fun _ => ensures_unexpected
  | succ bound ih =>
    cases level with
    | assignment => exact readsTree_assignment ih
    | cast => exact readsTree_casted ih
    | unary => exact readsTree_prefixed ih

/-- Whatever is read as an expression spells out a tree. -/
theorem readsTree_expression : ReadsTree expression 0 := by
  intro s
  unfold expression
  rw [ensures_remaining_bind]
  exact readsTree_expressionWithin _ .assignment s

end Written

end MiniC
