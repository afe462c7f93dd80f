import MiniC.Proofs.ExpressionDescent

/-!
# Steps and depth of reading a file

Variables, statements, functions and the file as a whole, in the order in which they are made of
each other. What a list collects is not free: every variable of a file costs two steps more when it
is added to the items, and these are set aside while the declarators are read
(`follows_otherDeclarators`, `follows_addItems`). The last loop has to say more than a contract,
since it only stops where no token is left (`follows_translationUnit`).
-/

set_option autoImplicit false

namespace MiniC

namespace Descent

open Code MiniC.Parser Written

/-! ## Variables -/

/-- A length takes its number and the bracket after it. -/
theorem meets_arrayLength (s : ParserState) : Meets .arrayLength arrayLength s 2 4 0 := by
  have hfail {n extra : Nat} (h : Paid s 0 extra n s) (hextra : extra ≤ 2) :
      KeepsTo s 2 4 0 (act .here >>= fun loc => act (.fail .arraySize loc))
        (here >>= fun loc => (fail .arraySize loc : Parser Nat)) s n := by
    refine h.keeps rfl ?_
    intro loc t hhere
    exact hhere.fail (by omega)
  refine (Paid.start s).peek (fun hnone => hfail hnone (by decide)) ?_
  intro lexeme hpos hlook
  cases lexeme with
  | integer value =>
    cases value with
    | zero => exact hfail hlook (by decide)
    | succ value =>
      refine hlook.advance hpos ?_
      intro s₁ hvalue
      refine hvalue.takes (takesOne_expect _) (by decide) ?_
      intro _ s₂ hclose
      exact hclose.pure (by decide)
  | identifier | keyword | punct => exact hfail hlook (by decide)

/-- The opening bracket pays for the look at a second one. -/
theorem meets_variableType (type : CType) (s : ParserState) :
    Meets (.variableType type) (variableType type) s 0 1 0 := by
  refine (Paid.start s).accept ?array ?plain
  case array =>
    intro s₁ hopen
    refine hopen.bind_call (meets_arrayLength s₁) (by decide) ?_
    intro length n s₂ hlength
    refine hlength.test (spots_check _) ?second ?closed
    case second =>
      intro _ hlook
      refine hlook.keeps rfl ?_
      intro loc s₃ hhere
      exact hhere.bind_fail (by decide)
    case closed =>
      intro hlook
      exact hlook.pure (by decide)
  case plain =>
    intro s₁ hlook
    exact hlook.pure (by decide)

/-- Without brackets and an initialiser, the rest of a variable takes no token. -/
theorem meets_variableRest (type : CType) (name : String) (loc : Location) (storage : Storage)
    (s : ParserState) :
    Meets (.variableRest type name loc storage) (variableRest type name loc storage) s 0 7 1 := by
  refine (Paid.start s).bind_call (meets_variableType type s) (by decide) ?_
  intro type' n s₁ htype
  dsimp only
  split
  · exact htype.bind_fail (by decide)
  · refine htype.keeps rfl ?_
    intro d s₂ hadd
    refine hadd.keeps_or_fails rfl (by decide) ?_
    intro _ s₃ hdeclare
    refine hdeclare.keeps rfl ?_
    intro equals s₄ hhere
    refine hhere.accept ?initialised ?bare
    case initialised =>
      intro s₅ hequals
      simp only [if_true]
      split
      · exact hequals.bind_fail (by decide)
      · refine hequals.bind_call (meets_expression s₅) (by decide) ?_
        intro init n s₆ hinit
        refine hinit.keeps rfl ?_
        intro _ s₇ hmodify
        exact hmodify.pure (by decide)
    case bare =>
      intro s₅ hlook
      exact hlook.pure (by decide)

/-- The name of a declarator is taken in any case. -/
theorem meets_declarator (base : CType) (storage : Storage) (s : ParserState) :
    Meets (.declarator base storage) (declarator base storage) s 1 12 0 := by
  refine (Paid.start s).bind_goto (meets_stars base s) (by decide) ?_
  intro type n s₁ hstars
  refine hstars.keeps rfl ?_
  intro loc s₂ hhere
  refine hhere.takes takesOne_identifier (by decide) ?_
  intro name s₃ hname
  have hrest := meets_variableRest type name loc storage s₃
  exact hname.last_call hrest (by decide) (by decide)

theorem goesRound_declarators (base : CType) (storage : Storage) (m : Nat) :
    GoesRound (.declarator base storage) (.moreDeclarators base storage) (declarator base storage)
      m where
  body _ := rfl
  item s _ := (meets_declarator base storage s).mono (by decide)

/-- There are no more declarators than tokens, and each is worth two steps more. -/
theorem follows_otherDeclarators (base : CType) (storage : Storage) (s : ParserState) :
    Follows (Procedure.otherDeclarators base storage).body (otherDeclarators base storage) s
      (20 * s.rest.length) (100 * s.rest.length + 3) 0 fun n ds t =>
        t.rest.length + 1 ≤ s.rest.length ∧
          n + 2 * ds.length + 100 * (t.rest.length + 1) ≤ 100 * s.rest.length + 3 := by
  have hround := goesRound_declarators base storage s.rest.length
  have hmore := follows_afterCommas hround (Nat.le_refl _) (Nat.le_refl _) []
  simp only [List.nil_append, bind_pure, List.length_nil] at hmore
  have hloop : Follows (goto (.moreDeclarators base storage []))
      (Parser.afterCommas (declarator base storage) s.rest.length) s
      (20 * s.rest.length) (100 * s.rest.length + 3) 0 fun n ds t =>
        t.rest.length ≤ s.rest.length ∧
          n + 2 * ds.length + 100 * t.rest.length ≤ 100 * s.rest.length + 2 := by
    refine .goto (hmore.mono (Nat.le_refl _) ?_ ?_)
    · omega
    · rintro n ds t ⟨-, hds, hn⟩
      constructor
      · omega
      · omega
  refine .remaining (hloop.bind ?_)
  rintro n ds t ⟨ht, hn⟩
  have hlimit : n + 1 ≤ 100 * s.rest.length + 3 := by omega
  refine .takes (takesOne_expect _) hlimit ?_
  intro _ u hu
  rw [← hu] at ht hn
  refine .pure ⟨ht, ?_⟩
  omega

theorem meets_otherDeclarators (base : CType) (storage : Storage) (s : ParserState) :
    Meets (.otherDeclarators base storage) (otherDeclarators base storage) s 1 3 0 := by
  have hothers := follows_otherDeclarators base storage s
  change KeepsTo s 1 3 0 (Procedure.otherDeclarators base storage).body _ s 0
  refine hothers.imp fun n ds t ht => ?_
  obtain ⟨htokens, hsteps⟩ := ht
  refine ⟨htokens, ?_⟩
  omega

/-- A list of variables takes the word for its base type, a name and a semicolon at least. -/
theorem meets_localDeclaration (s : ParserState) :
    Meets .localDeclaration localDeclaration s 1 18 0 := by
  refine (Paid.start s).takes takesOne_baseType (by decide) ?_
  intro base s₁ hbase
  refine hbase.bind_call (meets_declarator base .local s₁) (by decide) ?_
  intro first n s₂ hfirst
  refine hfirst.bind_call (meets_otherDeclarators base .local s₂) (by decide) ?_
  intro others n s₃ hothers
  exact hothers.pure (by decide)

/-! ## Statements -/

/-- An expression that may be missing takes no token in any case. -/
theorem meets_expressionUnless (sign : Punct) (s : ParserState) :
    Meets (.expressionUnless sign) (expressionUnless sign) s 0 69 16 := by
  refine (Paid.start s).test (spots_check _) ?missing ?present
  case missing =>
    intro _ hlook
    exact hlook.pure (by decide)
  case present =>
    intro hlook
    refine Follows.map (hlook.bind_call (meets_expression s) (by decide) ?_)
    intro e n t he
    exact he.pure (by decide)

/-- The word `return` is taken by the caller, the semicolon in any case. -/
theorem meets_returnRest (loc : Location) (s : ParserState) :
    Meets (.returnRest loc) (returnRest loc) s 1 85 17 := by
  refine (Paid.start s).bind_call (meets_expressionUnless .semicolon s) (by decide) ?_
  intro value n s₁ hvalue
  refine hvalue.takes (takesOne_expect _) (by decide) ?_
  intro _ s₂ hend
  exact hend.last rfl (by decide)

/-- A first clause ends with a semicolon, whatever it is. -/
theorem meets_forInit (s : ParserState) : Meets .forInit forInit s 1 75 16 := by
  refine (Paid.start s).keeps rfl ?_
  intro loc s₁ hhere
  refine hhere.accept ?missing ?present
  case missing =>
    intro s₂ hend
    exact hend.pure (by decide)
  case present =>
    intro s₂ hsemicolon
    refine hsemicolon.test spots_startsType ?declared ?evaluated
    case declared =>
      intro _ hlook
      refine hlook.bind_call (meets_localDeclaration s₂) (by decide) ?_
      intro ds n s₃ hds
      refine Follows.map (hds.keeps rfl ?_)
      intro id s₄ hadd
      exact hadd.pure (by decide)
    case evaluated =>
      intro hlook
      refine hlook.bind_call (meets_expression s₂) (by decide) ?_
      intro e n s₃ he
      refine he.takes (takesOne_expect _) (by decide) ?_
      intro _ s₄ hend
      refine Follows.map (hend.keeps rfl ?_)
      intro id s₅ hadd
      exact hadd.pure (by decide)

section Statements

/-! Within a statement, the statements of which it consists are read where fewer than `m` tokens are
left. -/

variable {statement : Parser StmtId} {m : Nat}
  (hstatement : ∀ s, s.rest.length < m → Meets .statement statement s 1 78 16)
include hstatement

/-- Every statement of a block pays for the round in which it is read. -/
theorem meets_repeatUntil {bound : Nat} {s : ParserState} (hbound : s.rest.length ≤ bound)
    (hs : s.rest.length < m) (ss : List StmtId) :
    Meets (.moreStatements ss)
      (repeatUntil blockEnds statement bound >>= fun more => pure (ss ++ more)) s 0 80 17 := by
  induction bound generalizing s ss with
  | zero =>
    have hrest : s.rest = [] := List.length_eq_zero_iff.1 (Nat.le_zero.1 hbound)
    have hends : Action.blockEnds.run s = .ok (true, s) := by
      obtain ⟨rest, endLoc, program, scopes⟩ := s
      obtain rfl : rest = [] := hrest
      rfl
    rw [repeatUntil, pure_bind, List.append_nil]
    refine (Paid.start s).alone hends ?_
    intro hlook
    exact hlook.pure (by decide)
  | succ bound ih =>
    rw [repeatUntil, bind_assoc]
    refine (Paid.start s).test spots_blockEnds ?again ?done
    case again =>
      intro hpos hlook
      simp only [Bool.false_eq_true, if_false, bind_assoc, pure_bind]
      refine hlook.bind_call (hstatement s hs) (by decide) ?_
      intro first n t hfirst
      -- the parser's loop puts the items of a round in front, the procedure puts them at the end
      have hround : (repeatUntil blockEnds statement bound >>= fun more =>
            pure (ss ++ first :: more)) =
          repeatUntil blockEnds statement bound >>= fun more => pure (ss ++ [first] ++ more) := by
        simp
      rw [hround]
      have hmore := ih (hfirst.le_of_le_add hbound) (hfirst.lt_of_lt hs) (ss ++ [first])
      exact hfirst.last_goto hmore (by decide) (by decide)
    case done =>
      intro hlook
      simp only [Bool.not_false, if_true, pure_bind, List.append_nil]
      exact hlook.pure (by decide)

theorem meets_blockBody {s : ParserState} (hs : s.rest.length < m) :
    Meets (.moreStatements []) (blockBody statement) s 0 80 17 := by
  have hmore := meets_repeatUntil hstatement (Nat.le_refl _) hs []
  simp only [List.nil_append, bind_pure] at hmore
  exact hmore.remaining

/-- The opening brace is taken by the caller, the closing one in any case. -/
theorem meets_blockRest (loc : Location) {s : ParserState} (hs : s.rest.length < m) :
    Meets (.blockRest loc) (blockRest statement loc) s 1 85 17 := by
  have hbody : KeepsTo s 0 83 17 (Descent.inScope (goto (.moreStatements [])))
      (Parser.inScope (blockBody statement)) s 0 := by
    refine (Paid.start s).inScope ?_
    intro s₁ henter
    have hstatements := meets_blockBody hstatement (henter.lt_of_lt hs)
    exact henter.last_goto hstatements (by decide) (by decide)
  change KeepsTo s 1 85 17 (Procedure.blockRest loc).body (Parser.blockRest statement loc) s 0
  refine (hbody.within (show 83 ≤ 85 by decide)).bind ?_
  intro n body t hleave
  refine hleave.takes (takesOne_expect _) (by decide) ?_
  intro _ u hclose
  exact hclose.last rfl (by decide)

/-- Both branches are read behind the parentheses, and the second one behind the first one and a
word. -/
theorem meets_ifRest (loc : Location) {s : ParserState} (hs : s.rest.length < m) :
    Meets (.ifRest loc) (ifRest statement loc) s 1 85 17 := by
  refine (Paid.start s).takes (takesOne_expect _) (by decide) ?_
  intro _ s₁ hopen
  refine hopen.bind_call (meets_expression s₁) (by decide) ?_
  intro condition n s₂ hcondition
  refine hcondition.takes (takesOne_expect _) (by decide) ?_
  intro _ s₃ hclose
  refine hclose.bind_call (hstatement s₃ (hclose.lt_of_lt hs)) (by decide) ?_
  intro thenBranch n s₄ hthen
  refine hthen.accept ?two ?one
  case two =>
    intro s₅ hword
    have hbranch : Meets .statement statement s₅ 1 78 16 := hstatement s₅ (hword.lt_of_lt hs)
    have helse : KeepsTo s 2 85 17 (some <$> call .statement) (some <$> statement) s₅ (n + 1) := by
      refine Follows.map (hword.bind_call hbranch (by decide) ?_)
      intro id n t hid
      exact hid.pure (by decide)
    refine Follows.bind helse ?_
    intro n elseBranch s₆ hpaid
    exact hpaid.last rfl (by decide)
  case one =>
    intro s₅ hlook
    refine hlook.bind_pure ?_
    intro _
    exact hlook.last rfl (by decide)

/-- The word `while` is taken by the caller, and the parentheses pay for what the loop adds. -/
theorem meets_whileRest (loc : Location) {s : ParserState} (hs : s.rest.length < m) :
    Meets (.whileRest loc) (whileRest statement loc) s 1 85 17 := by
  refine (Paid.start s).takes (takesOne_expect _) (by decide) ?_
  intro _ s₁ hopen
  refine hopen.bind_call (meets_expression s₁) (by decide) ?_
  intro condition n s₂ hcondition
  refine hcondition.takes (takesOne_expect _) (by decide) ?_
  intro _ s₃ hclose
  refine hclose.bind_call (hstatement s₃ (hclose.lt_of_lt hs)) (by decide) ?_
  intro body n s₄ hbody
  exact hbody.last rfl (by decide)

/-- A loop with three clauses takes its parentheses and two semicolons besides what they enclose. -/
theorem meets_forRest (loc : Location) {s : ParserState} (hs : s.rest.length < m) :
    Meets (.forRest loc) (forRest statement loc) s 1 85 17 := by
  refine (Paid.start s).inScope ?_
  intro s₁ henter
  refine henter.takes (takesOne_expect _) (by decide) ?_
  intro _ s₂ hopen
  refine hopen.bind_call (meets_forInit s₂) (by decide) ?_
  intro init n s₃ hinit
  refine hinit.bind_call (meets_expressionUnless .semicolon s₃) (by decide) ?_
  intro condition n s₄ hcondition
  refine hcondition.takes (takesOne_expect _) (by decide) ?_
  intro _ s₅ hsemicolon
  refine hsemicolon.bind_call (meets_expressionUnless .rightParen s₅) (by decide) ?_
  intro increment n s₆ hincrement
  refine hincrement.takes (takesOne_expect _) (by decide) ?_
  intro _ s₇ hclose
  refine hclose.bind_call (hstatement s₇ (hclose.lt_of_lt hs)) (by decide) ?_
  intro body n s₈ hbody
  exact hbody.last rfl (by decide)

/-- A statement of each kind but the last two has a word or a sign in front that pays for what
follows it. -/
theorem meets_statementStep {s : ParserState} (hs : s.rest.length ≤ m) :
    Meets .statement (statementStep statement) s 1 78 16 := by
  refine (Paid.start s).keeps rfl ?_
  intro loc s₁ hhere
  refine hhere.accept ?block ?_
  case block =>
    intro s₂ hbrace
    have hrest := meets_blockRest hstatement loc (hbrace.lt_of_le hs)
    exact hbrace.last_call hrest (by decide) (by decide)
  intro s₂ hlook
  refine hlook.accept ?«return» ?_
  case «return» =>
    intro s₃ hword
    exact hword.last_call (meets_returnRest loc s₃) (by decide) (by decide)
  intro s₃ hlook
  refine hlook.accept ?«if» ?_
  case «if» =>
    intro s₄ hword
    have hrest := meets_ifRest hstatement loc (hword.lt_of_le hs)
    exact hword.last_call hrest (by decide) (by decide)
  intro s₄ hlook
  refine hlook.accept ?«while» ?_
  case «while» =>
    intro s₅ hword
    have hrest := meets_whileRest hstatement loc (hword.lt_of_le hs)
    exact hword.last_call hrest (by decide) (by decide)
  intro s₅ hlook
  refine hlook.accept ?«for» ?_
  case «for» =>
    intro s₆ hword
    have hrest := meets_forRest hstatement loc (hword.lt_of_le hs)
    exact hword.last_call hrest (by decide) (by decide)
  intro s₆ hlook
  refine hlook.accept ?empty ?_
  case empty =>
    intro s₇ hsemicolon
    exact hsemicolon.last rfl (by decide)
  intro s₇ hlook
  refine hlook.test spots_startsType ?declaration ?expression
  case declaration =>
    intro _ htype
    refine htype.bind_call (meets_localDeclaration s₇) (by decide) ?_
    intro ds n s₈ hds
    exact hds.last rfl (by decide)
  case expression =>
    intro htype
    refine htype.bind_call (meets_expression s₇) (by decide) ?_
    intro e n s₈ he
    refine he.takes (takesOne_expect _) (by decide) ?_
    intro _ s₉ hend
    exact hend.last rfl (by decide)

end Statements

theorem statementStep_at_end {statement : Parser StmtId} {s : ParserState} (hs : s.rest = []) :
    statementStep statement s = unexpected s := by
  obtain ⟨rest, endLoc, program, scopes⟩ := s
  obtain rfl : rest = [] := hs
  rfl

/-- The bound on how deeply statements nest does not matter if the tokens left are no more. -/
theorem meets_statementWithin {bound : Nat} {s : ParserState} (hbound : s.rest.length ≤ bound) :
    Meets .statement (statementWithin bound) s 1 78 16 := by
  induction bound generalizing s with
  | zero =>
    -- at the end no statement is read, so that it does not matter how those within it would be
    have hrest : s.rest = [] := List.length_eq_zero_iff.1 (Nat.le_zero.1 hbound)
    have hnone (s : ParserState) (hs : s.rest.length < 0) : Meets .statement unexpected s 1 78 16 :=
      absurd hs (Nat.not_lt_zero _)
    exact (meets_statementStep hnone hbound).congr (statementStep_at_end hrest).symm
  | succ bound ih =>
    have hstatement (s : ParserState) (hs : s.rest.length < bound + 1) :
        Meets .statement (statementWithin bound) s 1 78 16 := ih (Nat.le_of_lt_succ hs)
    exact meets_statementStep hstatement hbound

/-! ## Functions -/

theorem meets_functionStatements (s : ParserState) :
    Meets (.moreStatements []) functionStatements s 0 80 17 := by
  have hstatement (t : ParserState) (ht : t.rest.length < s.rest.length + 1) :
      Meets .statement (statementWithin s.rest.length) t 1 78 16 :=
    meets_statementWithin (Nat.le_of_lt_succ ht)
  exact (meets_blockBody hstatement (Nat.lt_succ_self _)).remaining

/-- Brackets take two tokens, with or without a length between them. -/
theorem meets_parameterType (type : CType) (s : ParserState) :
    Meets (.parameterType type) (parameterType type) s 0 1 0 := by
  -- with or without a length, the closing bracket is all that is left
  have hclose (length : Nat) {n : Nat} {t : ParserState} (ht : Paid s 1 3 n t) :
      KeepsTo s 0 1 0 (do act (.expect .parameterArrayClose); return type.withLength length)
        (do expect .parameterArrayClose; return type.withLength length) t n := by
    refine ht.takes (takesOne_expect _) (by decide) ?_
    intro _ u hclosed
    exact hclosed.pure (by decide)
  refine (Paid.start s).accept ?array ?plain
  case array =>
    intro s₁ hopen
    refine hopen.peek ?_ ?_
    · intro hlook
      refine hlook.bind_pure ?_
      intro _
      exact hclose 0 (hlook.weaken (by decide))
    intro lexeme hpos hlook
    cases lexeme with
    | integer length =>
      refine hlook.advance hpos ?_
      intro s₂ hlength
      refine hlength.bind_pure ?_
      intro _
      exact hclose length (hlength.weaken (by decide))
    | identifier | keyword | punct =>
      refine hlook.bind_pure ?_
      intro _
      exact hclose 0 (hlook.weaken (by decide))
  case plain =>
    intro s₁ hlook
    exact hlook.pure (by decide)

/-- A parameter takes the word for its base type in any case, its name only if it has one. -/
theorem meets_parameter (s : ParserState) : Meets .parameter parameter s 1 12 1 := by
  refine (Paid.start s).bind_call (meets_typeName s) (by decide) ?_
  intro type n s₁ htype
  refine htype.keeps rfl ?_
  intro loc s₂ hhere
  refine hhere.takes_or_keeps (a := .parameterName) ensures_parameterName rfl ?_
  intro name s₃ hname
  refine hname.bind_call (meets_parameterType type s₃) (by decide) ?_
  intro type' n s₄ htype'
  dsimp only
  split
  · exact htype'.bind_fail (by decide)
  · refine htype'.keeps rfl ?_
    intro d s₅ hadd
    split
    · exact hadd.pure (by decide)
    · refine hadd.keeps_or_fails rfl (by decide) ?_
      intro _ s₆ hdeclare
      exact hdeclare.pure (by decide)

theorem goesRound_parameters (m : Nat) :
    GoesRound .parameter .moreParameters parameter m where
  body _ := rfl
  item s _ := (meets_parameter s).mono (by decide)

/-- A list of parameters may be empty. -/
theorem meets_parameters (s : ParserState) : Meets .parameters parameters s 0 17 2 := by
  refine (Paid.start s).test (spots_check _) ?empty ?other
  case empty =>
    intro _ hlook
    exact hlook.pure (by decide)
  intro hlook
  refine hlook.test spots_startsVoidList ?void ?list
  case void =>
    intro hpos hvoid
    refine hvoid.advance hpos ?_
    intro s₁ hword
    exact hword.pure (by decide)
  case list =>
    intro hvoid
    have hround := goesRound_parameters s.rest.length
    have hfirst : Meets .parameter parameter s 1 12 1 := meets_parameter s
    refine Follows.imp (follows_commaSeparated hround hvoid (Nat.le_refl _) hfirst (by decide)) ?_
    intro n params t hparams
    exact hparams.weaken (by decide)

/-- A function is looked up or declared without a token. -/
theorem meets_functionDecl (returnType : CType) (name : String) (loc : Location)
    (params : List DeclId) (s : ParserState) :
    Meets (.functionDecl returnType name loc params) (functionDecl returnType name loc params) s
      0 4 0 := by
  refine (Paid.start s).keeps rfl ?_
  intro found s₁ hfind
  cases found with
  | some d =>
    refine hfind.keeps rfl ?_
    intro decl s₂ hdecl
    dsimp only
    split
    · exact hdecl.pure (by decide)
    · exact hdecl.bind_fail (by decide)
  | none =>
    refine hfind.keeps rfl ?_
    intro d s₂ hadd
    refine hadd.keeps rfl ?_
    intro _ s₃ hdeclare
    refine hdeclare.keeps rfl ?_
    intro _ s₄ hitem
    exact hitem.pure (by decide)

/-- The opening brace of a body is taken by the caller, the closing one in any case. -/
theorem meets_functionBody (d : DeclId) (name : String) (loc opening : Location)
    (params : List DeclId) (s : ParserState) :
    Meets (.functionBody d name loc opening params) (functionBody d name loc opening params) s
      1 90 17 := by
  refine (Paid.start s).keeps rfl ?_
  intro decl s₁ hdecl
  dsimp only
  split
  · exact hdecl.bind_fail (by decide)
  · refine hdecl.keeps rfl ?_
    intro _ s₂ hparams
    refine hparams.bind_goto (meets_functionStatements s₂) (by decide) ?_
    intro statements n s₃ hstatements
    refine hstatements.takes (takesOne_expect _) (by decide) ?_
    intro _ s₄ hclose
    refine hclose.keeps rfl ?_
    intro body s₅ hadd
    exact hadd.last rfl (by decide)

/-- What follows the opening parenthesis of a function ends with a brace or with a semicolon. -/
theorem meets_functionRest (returnType : CType) (name : String) (loc : Location)
    (s : ParserState) :
    Meets (.functionRest returnType name loc) (functionRest returnType name loc) s 1 30 3 := by
  refine (Paid.start s).inScope ?_
  intro s₁ henter
  refine henter.bind_call (meets_parameters s₁) (by decide) ?_
  intro params n s₂ hparams
  refine hparams.takes (takesOne_expect _) (by decide) ?_
  intro _ s₃ hclose
  have hdecl := meets_functionDecl returnType name loc params s₃
  refine hclose.bind_call hdecl (by decide) ?_
  intro d n s₄ hdecl
  refine hdecl.keeps rfl ?_
  intro opening s₅ hhere
  refine hhere.accept ?body ?declaration
  case body =>
    intro s₆ hbrace
    have hbody := meets_functionBody d name loc opening params s₆
    exact hbrace.last_call hbody (by decide) (by decide)
  case declaration =>
    intro s₆ hlook
    exact hlook.last_takes (a := .expect .functionEnd) (takesOne_expect _) (by decide) (by decide)

/-! ## Files -/

/-- The items that are added cost two steps each, and take no token. -/
theorem follows_addItems (ds : List DeclId) (s : ParserState) {depth spent limit : Nat}
    (hlimit : spent + 2 * ds.length ≤ limit) :
    Follows (Procedure.addItems ds).body (ds.forM fun d => addItem (.variable d)) s depth limit
      spent fun n _ t => t.rest.length = s.rest.length ∧ n = spent + 2 * ds.length := by
  induction ds generalizing s spent with
  | nil => exact .pure ⟨rfl, rfl⟩
  | cons d ds ih =>
    have hlength : spent + 2 * (d :: ds).length = spent + 1 + 1 + 2 * ds.length := by
      rw [List.length_cons]
      omega
    rw [hlength] at hlimit ⊢
    refine .keeps rfl ?_
    intro _ t ht
    refine .goto ((ih t hlimit).imp ?_)
    rintro n _ u ⟨hu, hn⟩
    exact ⟨hu.trans ht, hn⟩

/-- A declaration of the file takes its base type, a name and its end. The steps for adding its
variables are set aside where their declarators are read. -/
theorem meets_topLevel (s : ParserState) : Meets .topLevel topLevel s 1 40 0 := by
  refine (Paid.start s).takes_or_keeps (a := .accept Keyword.externKw) ?_ rfl ?_
  · refine ensures_accept.mono fun _ t ht => ?_
    exact ht.imp And.right And.right
  intro _ s₁ hextern
  refine hextern.takes takesOne_baseType (by decide) ?_
  intro base s₂ hbase
  refine hbase.bind_goto (meets_stars base s₂) (by decide) ?_
  intro type n s₃ hstars
  refine hstars.keeps rfl ?_
  intro loc s₄ hhere
  refine hhere.takes takesOne_identifier (by decide) ?_
  intro name s₅ hname
  refine hname.accept ?function ?declarators
  case function =>
    intro s₆ hopen
    exact hopen.last_call (meets_functionRest type name loc s₆) (by decide) (by decide)
  case declarators =>
    intro s₆ hlook
    refine hlook.bind_call (meets_variableRest type name loc .global s₆) (by decide) ?_
    intro first n s₇ hfirst
    obtain ⟨htokens, hsteps⟩ := hfirst
    have hothers : Follows (call (.otherDeclarators base .global)) (otherDeclarators base .global)
        s₇ (20 * s.rest.length + 0) (100 * s.rest.length + 40) n fun k ds t =>
          t.rest.length + 1 ≤ s₇.rest.length ∧
            k + 2 * ds.length + 100 * (t.rest.length + 1) ≤ n + 1 + 100 * s₇.rest.length + 3 := by
      have hlimit : n + 1 + (100 * s₇.rest.length + 3) ≤ 100 * s.rest.length + 40 + 0 := by omega
      have hdepth : 20 * s₇.rest.length < 20 * s.rest.length + 0 := by omega
      refine .call
        ((follows_otherDeclarators base .global s₇).mono (Nat.le_refl _) hlimit ?_) hdepth
      rintro k ds t ⟨ht, hk⟩
      refine ⟨ht, ?_⟩
      omega
    refine hothers.bind ?_
    rintro k others s₈ ⟨h₈, hk⟩
    have hlength : (first :: others).length = others.length + 1 := rfl
    have hlimit : k + 1 + 2 * (first :: others).length ≤ 100 * s.rest.length + 40 := by omega
    refine .goto ((follows_addItems (first :: others) s₈ hlimit).imp ?_)
    rintro l _ t ⟨ht, hl⟩
    constructor
    · omega
    · omega

/-- The loop over the items of a file ends, and where there is no error, nothing is left. -/
theorem follows_repeatTopLevel {bound : Nat} {s : ParserState} (hbound : s.rest.length ≤ bound) :
    Follows Procedure.translationUnit.body (repeatUntil atEnd topLevel bound >>= fun _ => pure ()) s
      (20 * s.rest.length + 1) (100 * s.rest.length + 42) 0 fun n _ t =>
        t.rest = [] ∧ n ≤ 100 * s.rest.length + 42 := by
  induction bound generalizing s with
  | zero =>
    have hrest : s.rest = [] := List.length_eq_zero_iff.1 (Nat.le_zero.1 hbound)
    have hend : Action.atEnd.run s = .ok (true, s) := by
      change Except.ok ((s.rest.head?.map Token.lexeme).isNone, s) = _
      rw [hrest]
      rfl
    rw [repeatUntil, pure_bind]
    refine .alone hend (.pure ⟨hrest, ?_⟩)
    omega
  | succ bound ih =>
    rw [repeatUntil, bind_assoc]
    refine .answers (atEnd_apply s) ?_
    cases hends : s.lexemes.isEmpty with
    | true =>
      -- this is the only way out of the loop without an error
      have hrest : s.rest = [] := List.map_eq_nil_iff.1 (List.isEmpty_iff.1 hends)
      simp only [if_true, pure_bind]
      refine .pure ⟨hrest, ?_⟩
      omega
    | false =>
      simp only [Bool.false_eq_true, if_false, bind_assoc, pure_bind]
      have hlook : Paid s 0 1 1 s := (Paid.start s).still rfl
      have hcall : Follows (call .topLevel) topLevel s (20 * s.rest.length + 1)
          (100 * s.rest.length + 42) 1 fun n _ t => Paid s 1 42 n t :=
        hlook.call (meets_topLevel s) (by decide)
      refine hcall.bind ?_
      intro n _ t hitem
      -- the token that the item takes pays for the item and for this round
      have hrest := ih (hitem.le_of_le_add hbound)
      have htokens := hitem.tokens
      have hsteps := hitem.steps
      refine .goto (hrest.mono ?_ ?_ ?_)
      · omega
      · omega
      · rintro k _ u ⟨hu, hk⟩
        refine ⟨hu, ?_⟩
        omega

theorem follows_translationUnit (s : ParserState) :
    Follows Procedure.translationUnit.body translationUnit s (20 * s.rest.length + 1)
      (100 * s.rest.length + 42) 0 fun n _ t => t.rest = [] ∧ n ≤ 100 * s.rest.length + 42 :=
  .remaining (follows_repeatTopLevel (Nat.le_refl _))

end Descent

end MiniC
