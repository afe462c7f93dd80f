import MiniC.Proofs.TreeReading

/-!
# Reading a well-formed expression

On the lexemes of an expression that binds tightly enough, each level of the grammar does what
building the expression does (`Written.matches_expression`). The levels of left-associative
operators and the suffixes of primary expressions descend along the left operands, where the grammar
goes on in a loop.
-/

set_option autoImplicit false

namespace MiniC.Written

open MiniC.Parser

/-- How tightly an operand of each kind must bind. -/
def leastLevel : OperandLevel → Nat
  | .assignment => 0
  | .cast => 11
  | .unary => 12

/-- Operands of at most `n` lexemes are read as they are built. -/
def ReadsOperands (operandAt : OperandLevel → Parser ExprId) (n : Nat) : Prop :=
  ∀ (level : OperandLevel) (e : Expr) (after : List Lexeme), e.WellFormed →
    leastLevel level ≤ e.level →
    e.lexemes.length ≤ n → Stops (leastLevel level) after →
      Matches (operandAt level) e.build e.lexemes after

variable {operandAt : OperandLevel → Parser ExprId} {n : Nat} {l after : List Lexeme}

theorem length_le_inCommas {ls : List Lexeme} {lss : List (List Lexeme)} (h : ls ∈ lss) :
    ls.length ≤ (inCommas lss).length := by
  cases lss with
  | nil => cases h
  | cons first others =>
    rw [inCommas, List.length_append]
    rcases List.mem_cons.1 h with rfl | h
    · exact Nat.le_add_right _ _
    · have hle :=
        (List.sublist_flatten_of_mem
          (List.mem_map_of_mem (f := (Lexeme.punct .comma :: ·)) h)).length_le
      rw [List.length_cons, ← List.flatMap_def] at hle
      omega

/-- A type in parentheses after the word that asks for a size. -/
theorem matches_sizeofOperand {type : TypeName} {f g : CType → Parser ExprId}
    (h : Matches (f type.type) (g type.type) l after) :
    Matches (sizeofOperand operandAt >>= f)
      (advance >>= fun _ => type.build >>= fun t => advance >>= fun _ => g t)
      (.punct .leftParen :: (type.lexemes ++ .punct .rightParen :: l)) after := by
  unfold Parser.sizeofOperand
  rw [bind_assoc]
  refine .look startsParenthesisedType_apply ?_
  have hcast : beginCast (.punct .leftParen :: (type.lexemes ++ .punct .rightParen :: l) ++ after) =
      true := by
    rw [TypeName.lexemes, List.cons_append, List.cons_append, List.cons_append,
      beginCast, baseType?_word]
    rfl
  rw [hcast, if_pos rfl, bind_assoc]
  apply Matches.advance
  rw [bind_assoc]
  apply Matches.typeName (by simp)
  rw [bind_assoc]
  apply Matches.expect
  rwa [pure_bind]

section Levels

variable (hop : ReadsOperands operandAt n)
include hop

/-! ## Primary expressions -/

theorem ReadsOperands.arguments {args : List Expr} (hargs : ∀ arg ∈ args, arg.WellFormed)
    (hn : (inCommas (args.map Expr.lexemes)).length ≤ n) {f g : List ExprId → Parser ExprId}
    (h : ∀ ids, Matches (f ids) (g ids) l after) :
    Matches (Parser.arguments operandAt >>= f)
      (buildInCommas (args.map Expr.build) >>= fun ids => advance >>= fun _ => g ids)
      (inCommas (args.map Expr.lexemes) ++ .punct .rightParen :: l) after := by
  have harg : ∀ arg ∈ args, ∀ rest, Stops 0 rest →
      Matches (operandAt .assignment) arg.build arg.lexemes rest := by
    intro arg harg rest hrest
    refine hop .assignment arg rest (hargs arg harg) (Nat.zero_le _) ?_ hrest
    exact Nat.le_trans (length_le_inCommas (List.mem_map_of_mem harg)) hn
  unfold Parser.arguments
  rw [bind_assoc]
  apply Matches.check
  cases args with
  | nil =>
    rw [List.map_nil, List.map_nil, inCommas, buildInCommas, pure_bind,
      List.nil_append, List.cons_append, List.head?_cons, decide_eq_true rfl, if_pos rfl,
      pure_bind, bind_assoc]
    apply Matches.expect
    rw [pure_bind]
    exact h []
  | cons arg args =>
    -- no expression begins with a closing parenthesis, so this is no empty list
    obtain ⟨x, ls, hls, hx⟩ := arg.head
    have hne : x ≠ .punct .rightParen := by
      rintro rfl
      cases hx
    have hhead : (inCommas ((arg :: args).map Expr.lexemes) ++ .punct .rightParen :: l ++
        after).head? = some x := by
      rw [List.map_cons, inCommas, hls]
      rfl
    rw [hhead, decide_eq_false (by simpa using hne), if_neg Bool.false_ne_true, bind_assoc]
    refine .bind (.commaSeparated (fun e he rest => ?_) (fun e he => ?_) ?_) fun ids => ?_
    · exact harg e he _ (stops_of_mem (by simp) 0 rest)
    · exact harg e he _ (stops_of_mem (by simp) 0 _)
    · simp
    · rw [bind_assoc]
      apply Matches.expect
      rw [pure_bind]
      exact h ids

/-- A literal, a name, a call or an expression in parentheses. -/
theorem ReadsOperands.primary {e : Expr} (he : e.WellFormed) (hlevel : 14 ≤ e.level)
    (hn : e.lexemes.length ≤ n + 1) (hafter : after.head? ≠ some (.punct .leftParen)) :
    Matches (primary operandAt) e.build e.lexemes after := by
  cases e with
  | literal value =>
    refine .here fun loc => .peek ?_
    exact .advance (.of_keeps (.addExpr _ _ _))
  | name x =>
    refine .here fun loc => .peek (.advance (.same (.resolve x loc) fun d => ?_))
    apply Matches.check
    rw [List.nil_append, decide_eq_false hafter]
    exact .same (.declOf d) fun decl => .of_keeps (.addExpr _ _ _)
  | call f args =>
    rw [Expr.lexemes, Expr.lexemesOfEach_eq_map] at hn ⊢
    rw [Expr.build, Expr.buildEach_eq_map]
    refine .here fun loc => .peek (.advance (.same (.resolve f loc) fun d => .check ?_))
    refine .same (.declOf d) fun decl => .ite (fun _ => .advance ?_) fun _ => .fail_bind
    refine hop.arguments (Expr.eachWellFormed_iff.1 he) ?_ fun ids => ?_
    · simp at hn
      omega
    · exact .same (.declOf d) fun decl => .of_keeps (.addExpr _ _ _)
  | paren inner =>
    rw [Expr.lexemes] at hn ⊢
    rw [Expr.build]
    refine .here fun loc => .peek (.advance ?_)
    refine .bind (hop .assignment inner _ he (Nat.zero_le _) ?_ (stops_of_mem (by simp) 0 _))
      fun e => .expect ?_
    · simp at hn
      omega
    · exact .same (.typeOf e) fun type => .of_keeps (.addExpr _ _ _)
  | unary op operand =>
    rw [Expr.level] at hlevel
    split at hlevel <;> omega
  | binary op lhs rhs => exact absurd (Nat.le_trans hlevel op.level_le) (by decide)
  | subscript | cast | sizeOfType | sizeOf => simp [Expr.level] at hlevel

/-! ## Suffixes -/

/-- The primary expression inside all suffixes is read first; `h` says what reading further suffixes
does. -/
theorem ReadsOperands.suffixes {e : Expr} (he : e.WellFormed) (hlevel : 13 ≤ e.level)
    (hn : e.lexemes.length ≤ n + 1) {l : List Lexeme} {g : ExprId → Parser ExprId}
    (hhead : (l ++ after).head? ≠ some (.punct .leftParen))
    (h : ∀ id bound, (l ++ after).length ≤ bound →
      Matches (suffixes operandAt bound id) (g id) l after) :
    Matches (Parser.primary operandAt >>= fun id => remaining >>= fun bound =>
      Parser.suffixes operandAt bound id) (e.build >>= g) (e.lexemes ++ l) after := by
  -- suffixes are read from the inside out, and what is still to be read is passed on as `l`
  induction e generalizing l g with
  | subscript base index ih _ =>
    obtain ⟨hbase, hbaseLevel, hindex⟩ := he
    rw [Expr.lexemes] at hn ⊢
    simp only [List.length_append, List.length_cons] at hn
    rw [Expr.build, bind_assoc, List.append_assoc, List.cons_append, List.append_assoc,
      List.singleton_append]
    refine ih hbase hbaseLevel (by omega) (by simp) fun id bound hbound => ?_
    cases bound with
    | zero => simp at hbound
    | succ bound =>
      simp only [bind_assoc]
      refine .here fun loc => .accept ?_
      refine .bind (hop .assignment index _ hindex (Nat.zero_le _) (by omega)
        (stops_of_mem (by simp) 0 _)) ?_
      intro i
      refine .expect (.same (.typeOf id) fun type =>
        .same (.addExpr _ _ _) fun id' => h id' bound ?_)
      simp only [List.length_append, List.length_cons] at hbound ⊢
      omega
  | unary op operand ih =>
    cases htrails : op.trails with
    | false =>
      simp [Expr.level, htrails] at hlevel
    | true =>
      obtain ⟨hoperand, hoperandLevel⟩ := he
      rw [if_pos htrails] at hoperandLevel
      rw [Expr.lexemes, if_pos htrails] at hn ⊢
      simp only [List.length_append, List.length_cons] at hn
      rw [Expr.build, if_pos htrails, bind_assoc, List.append_assoc, List.singleton_append]
      have hsign : op.sign ≠ .leftParen := by
        intro heq
        cases op <;> cases heq
      refine ih hoperand hoperandLevel (by omega) (by simpa using hsign) fun id bound hbound => ?_
      cases bound with
      | zero => simp at hbound
      | succ bound =>
        have hrest : ∀ id', Matches (Parser.suffixes operandAt bound id') (g id') l after := by
          intro id'
          apply h id' bound
          simp only [List.length_append, List.length_cons] at hbound ⊢
          omega
        simp only [bind_assoc]
        cases op with
        | postInc =>
          refine .here fun loc => .accept_ne (by simp [UnaryOp.sign]) (.accept ?_)
          exact .same (.addUnary _ _ _) hrest
        | postDec =>
          refine .here fun loc =>
            .accept_ne (by simp [UnaryOp.sign]) (.accept_ne (by simp [UnaryOp.sign]) ?_)
          exact .accept (.same (.addUnary _ _ _) hrest)
        | _ => cases htrails
  | binary op lhs rhs _ _ => exact absurd (Nat.le_trans hlevel op.level_le) (by decide)
  | cast | sizeOfType | sizeOf => simp [Expr.level] at hlevel
  | literal | name | call | paren =>
    refine .bind (hop.primary he (by simp [Expr.level]) hn hhead) fun id => .remaining ?_
    exact h id _ (Nat.le_refl _)

theorem ReadsOperands.suffixed {e : Expr} (he : e.WellFormed) (hlevel : 13 ≤ e.level)
    (hn : e.lexemes.length ≤ n + 1) (hafter : Stops 13 after) :
    Matches (suffixed operandAt) e.build e.lexemes after := by
  rw [← bind_pure e.build, ← List.append_nil e.lexemes]
  refine hop.suffixes he hlevel hn (hafter.head_ne (by simp)) fun id bound _ => ?_
  cases bound with
  | zero => exact .pure id
  | succ bound =>
    refine .here_left fun loc => .accept_ne (hafter.head_ne (by simp)) ?_
    refine .accept_ne (hafter.head_ne (by simp)) (.accept_ne (hafter.head_ne (by simp)) ?_)
    exact .pure id

/-! ## Operators in front of their operand, and casts -/

theorem ReadsOperands.sizeofOperand {e : Expr} (he : e.WellFormed) (hlevel : 12 ≤ e.level)
    (hn : e.lexemes.length ≤ n) (hafter : Stops 12 (l ++ after)) {f g : CType → Parser ExprId}
    (h : ∀ type, Matches (f type) (g type) l after) :
    Matches (Parser.sizeofOperand operandAt >>= f)
      (e.build >>= fun id => typeOf id >>= g) (e.lexemes ++ l) after := by
  unfold Parser.sizeofOperand
  rw [bind_assoc]
  refine .look startsParenthesisedType_apply ?_
  rw [List.append_assoc, Expr.beginCast_eq_false he hlevel, if_neg Bool.false_ne_true, bind_assoc]
  exact .bind (hop .unary e _ he hlevel hn hafter) fun id => .same (.typeOf id) h

theorem ReadsOperands.prefixed {e : Expr} (he : e.WellFormed) (hlevel : 12 ≤ e.level)
    (hn : e.lexemes.length ≤ n + 1) (hafter : Stops 12 after) :
    Matches (prefixed operandAt) e.build e.lexemes after := by
  -- without an operator in front, the first lexeme sends the reader on to the suffixes
  have hsuffixed (hlevel : 13 ≤ e.level) :
      Matches (Parser.prefixed operandAt) e.build e.lexemes after := by
    obtain ⟨x, ls, hls, hx⟩ := e.head_of_level he hlevel
    have h := hop.suffixed he hlevel hn (hafter.tight (by decide))
    refine .here_left fun loc => .peek ?_
    rw [hls, List.cons_append, List.head?_cons, ← hls]
    cases x with
    | integer _ | identifier _ => exact h
    | keyword _ => cases hx
    | punct sign =>
      cases of_decide_eq_true hx
      exact h
  cases e with
  | sizeOfType type =>
    refine .here fun loc => .peek (.advance ?_)
    exact matches_sizeofOperand (.of_keeps (.addExpr _ _ _))
  | sizeOf operand =>
    rw [Expr.lexemes, List.length_cons] at hn
    rw [Expr.lexemes, ← List.append_nil operand.lexemes]
    refine .here fun loc => .peek (.advance ?_)
    refine hop.sizeofOperand (l := []) he.1 he.2 (by omega) hafter fun type => ?_
    exact .of_keeps (.addExpr _ _ _)
  | unary op operand =>
    cases htrails : op.trails with
    | true => exact hsuffixed (by simp [Expr.level, htrails])
    | false =>
      obtain ⟨hoperand, hoperandLevel⟩ := he
      simp only [htrails, Bool.false_eq_true, if_false] at hoperandLevel
      simp only [Expr.lexemes, htrails, Bool.false_eq_true, if_false, List.length_cons] at hn ⊢
      simp only [Expr.build, htrails, Bool.false_eq_true, if_false]
      refine .here fun loc => .peek ?_
      rw [List.cons_append, List.head?_cons]
      dsimp only
      rw [UnaryOp.unary?_sign htrails, ← List.append_nil operand.lexemes]
      refine .advance
        (.bind (hop .cast operand _ hoperand hoperandLevel (by omega) ?_) fun id => ?_)
      · exact hafter.tight (by decide)
      · exact .of_keeps (.addUnary _ _ _)
  | binary op lhs rhs => exact absurd (Nat.le_trans hlevel op.level_le) (by decide)
  | cast type operand => simp [Expr.level] at hlevel
  | literal | name | call | paren | subscript => exact hsuffixed (by simp [Expr.level])

theorem ReadsOperands.casted {e : Expr} (he : e.WellFormed) (hlevel : 11 ≤ e.level)
    (hn : e.lexemes.length ≤ n + 1) (hafter : Stops 11 after) :
    Matches (casted operandAt) e.build e.lexemes after := by
  have hprefixed (hlevel : 12 ≤ e.level) :
      Matches (Parser.casted operandAt) e.build e.lexemes after := by
    refine .here_left fun loc => .look startsParenthesisedType_apply ?_
    rw [Expr.beginCast_eq_false he hlevel, if_neg Bool.false_ne_true]
    exact hop.prefixed he hlevel hn (hafter.tight (by decide))
  cases e with
  | cast type operand =>
    rw [Expr.lexemes, List.length_cons, List.length_append, List.length_cons] at hn
    rw [Expr.lexemes, Expr.build]
    refine .here fun loc => .look startsParenthesisedType_apply ?_
    rw [TypeName.lexemes, List.cons_append, List.cons_append, List.cons_append,
      beginCast, baseType?_word]
    refine .advance ?_
    rw [← List.cons_append, ← TypeName.lexemes]
    refine .typeName (by simp) (.expect ?_)
    rw [← List.append_nil operand.lexemes]
    refine .bind (hop .cast operand _ he.1 he.2 (by omega) hafter) fun id => ?_
    exact .of_keeps (.addExpr _ _ _)
  | binary op lhs rhs => exact absurd (Nat.le_trans hlevel op.level_le) (by decide)
  | unary op operand =>
    apply hprefixed
    rw [Expr.level]
    split <;> decide
  | literal | name | call | paren | subscript | sizeOfType | sizeOf =>
    exact hprefixed (by simp [Expr.level])

/-! ## Left-associative operators -/

omit hop in
/-- The operand inside all operators of a level is read first; `h` says what reading further
operators of the level does. -/
theorem matches_leftChain {k : Nat} (hk : k < binaryLevels.length) {operand : Parser ExprId}
    (htight : ∀ (e : Expr) (after : List Lexeme), e.WellFormed → k + 2 ≤ e.level →
      e.lexemes.length ≤ n → Stops (k + 2) after → Matches operand e.build e.lexemes after)
    {e : Expr} (he : e.WellFormed) (hlevel : k + 1 ≤ e.level)
    (hn : e.lexemes.length ≤ n) {l : List Lexeme}
    {g : ExprId → Parser ExprId} (hstops : Stops (k + 2) (l ++ after))
    (h : ∀ id bound, (l ++ after).length ≤ bound →
      Matches (leftChain binaryLevels[k] operand bound id) (g id) l after) :
    Matches (operand >>= fun id => remaining >>= fun bound =>
      leftChain binaryLevels[k] operand bound id) (e.build >>= g) (e.lexemes ++ l) after := by
  have hlast {e : Expr} (he : e.WellFormed) (hlevel : k + 2 ≤ e.level) (hn : e.lexemes.length ≤ n)
      {l : List Lexeme} {g : ExprId → Parser ExprId} (hstops : Stops (k + 2) (l ++ after))
      (h : ∀ id bound, (l ++ after).length ≤ bound →
        Matches (leftChain binaryLevels[k] operand bound id) (g id) l after) :
      Matches (operand >>= fun id => remaining >>= fun bound =>
        leftChain binaryLevels[k] operand bound id) (e.build >>= g) (e.lexemes ++ l) after :=
    .bind (htight e _ he hlevel hn hstops) fun id => .remaining (h id _ (Nat.le_refl _))
  -- the chain leans to the left, so the induction goes down the left operands
  induction e generalizing l g with
  | binary op lhs rhs ih _ =>
    by_cases hop : op.level = k + 1
    · obtain ⟨hlhs, hrhs, hlevels⟩ := he
      have hassignment : ¬ op.isAssignment = true := by
        rw [← BinaryOp.level_eq_zero_iff]
        omega
      rw [if_neg hassignment] at hlevels
      rw [Expr.lexemes] at hn ⊢
      simp only [List.length_append, List.length_cons] at hn
      rw [Expr.build, bind_assoc, List.append_assoc, List.cons_append]
      have hsign := stops_sign op (rhs.lexemes ++ l ++ after)
      rw [hop] at hsign
      refine ih hlhs (by omega) (by omega) hsign fun id bound hbound => ?_
      cases bound with
      | zero => simp at hbound
      | succ bound =>
        simp only [bind_assoc]
        refine .here fun loc => .peek ?_
        rw [List.cons_append, List.head?_cons, Option.bind_some,
          BinaryOp.operator?_sign op hk, if_pos hop]
        refine .advance (.bind (htight rhs _ hrhs (by omega) (by omega) hstops) fun id' => ?_)
        refine .same (.addBinary _ _ _ _) fun id'' => h id'' bound ?_
        simp only [List.length_append, List.length_cons] at hbound ⊢
        omega
    · exact hlast he (by rw [Expr.level] at hlevel ⊢; omega) hn hstops h
  | unary op operand _ =>
    have hk : k < 10 := hk
    exact hlast he (by rw [Expr.level]; split <;> omega) hn hstops h
  | literal | name | call | paren | subscript | cast | sizeOfType | sizeOf =>
    have hk : k < 10 := hk
    exact hlast he (by rw [Expr.level]; omega) hn hstops h

theorem ReadsOperands.binary {k : Nat} (hk : k ≤ binaryLevels.length) {e : Expr} (he : e.WellFormed)
    (hlevel : k + 1 ≤ e.level) (hn : e.lexemes.length ≤ n + 1) (hafter : Stops (k + 1) after) :
    Matches (binary operandAt (binaryLevels.drop k)) e.build e.lexemes after := by
  induction hd : binaryLevels.length - k generalizing k e after with
  | zero =>
    cases Nat.le_antisymm hk (Nat.le_of_sub_eq_zero hd)
    exact hop.casted he hlevel hn hafter
  | succ d ih =>
    have hk : k < binaryLevels.length := by omega
    rw [List.drop_eq_getElem_cons hk, ← bind_pure e.build, ← List.append_nil e.lexemes]
    refine matches_leftChain hk (fun e after he hlevel hn hafter =>
      ih hk he hlevel hn hafter (by omega)) he hlevel
      hn (hafter.mono (Nat.le_succ _)) fun id bound _ => ?_
    cases bound with
    | zero => exact .pure id
    | succ bound =>
      refine .here_left fun loc => .peek ?_
      rw [List.nil_append, hafter.operator?_eq_none hk (Nat.le_refl _)]
      exact .pure id

/-! ## All levels -/

theorem ReadsOperands.assignment {e : Expr} (he : e.WellFormed) (hn : e.lexemes.length ≤ n + 1)
    (hafter : Stops 0 after) : Matches (assignment operandAt) e.build e.lexemes after := by
  -- what is no assignment is followed by no assignment sign
  have hbinary (hlevel : 1 ≤ e.level) :
      Matches (Parser.assignment operandAt) e.build e.lexemes after := by
    rw [← bind_pure e.build, ← List.append_nil e.lexemes]
    have h := hop.binary (Nat.zero_le _) he hlevel hn (hafter.mono (Nat.zero_le _))
    refine .bind h fun id => .here_left fun loc => .peek ?_
    rw [List.nil_append]
    split
    · next sign hsign =>
      rw [hafter.assignment?_eq_none hsign]
      exact .pure id
    · exact .pure id
  cases e with
  | binary op lhs rhs =>
    cases hop' : op.isAssignment with
    | false =>
      apply hbinary
      have := mt BinaryOp.level_eq_zero_iff.1 (by simpa using hop')
      rw [Expr.level]
      omega
    | true =>
      obtain ⟨hlhs, hrhs, hlevel⟩ := he
      rw [if_pos hop'] at hlevel
      rw [Expr.lexemes, List.length_append, List.length_cons] at hn
      have hsign := stops_sign op (rhs.lexemes ++ after)
      rw [BinaryOp.level_eq_zero_iff.2 hop'] at hsign
      rw [Expr.lexemes, Expr.build]
      refine .bind (hop.binary (Nat.zero_le _) hlhs hlevel (by omega) hsign) fun id =>
        .here fun loc => .peek ?_
      rw [List.cons_append, List.head?_cons]
      dsimp only
      rw [BinaryOp.assignment?_sign, if_pos hop', ← List.append_nil rhs.lexemes]
      refine .advance
        (.bind (hop .assignment rhs _ hrhs (Nat.zero_le _) (by omega) hafter) fun id' => ?_)
      exact .of_keeps (.addBinary _ _ _ _)
  | unary op operand =>
    apply hbinary
    rw [Expr.level]
    split <;> decide
  | literal | name | call | paren | subscript | cast | sizeOfType | sizeOf =>
    exact hbinary (by simp [Expr.level])

end Levels

theorem readsOperands_expressionWithin (n : Nat) : ReadsOperands (expressionWithin n) n := by
  induction n with
  | zero =>
    intro level e after _ _ hn _
    obtain ⟨x, ls, hls, -⟩ := e.head
    simp [hls] at hn
  | succ n ih =>
    intro level e after he hlevel hn hafter
    cases level with
    | assignment => exact ih.assignment he hn hafter
    | cast => exact ih.casted he hlevel hn hafter
    | unary => exact ih.prefixed he hlevel hn hafter

/-- On the lexemes of a well-formed expression, reading it is building it. -/
theorem matches_expression {e : Expr} (he : e.WellFormed) (hafter : Stops 0 after) :
    Matches expression e.build e.lexemes after := by
  refine .remaining (readsOperands_expressionWithin _ .assignment e after he
    (Nat.zero_le _) ?_ hafter)
  rw [List.length_append]
  exact Nat.le_add_right _ _

end MiniC.Written
