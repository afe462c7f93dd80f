import MiniC.Proofs.DescentSteps

/-!
# Steps and depth of reading an expression

The functions for the levels of expressions have the operands for a parameter, and an operand is
only read after a token in front of it. So each level meets its contract as far as the operands do
where fewer tokens are left (`meets_assignment` and those before it), and the whole follows by
induction on the tokens (`meets_expression`). The steps and calls that a contract allows besides
grow from each level to the looser ones, by four steps and one call for a level with a loop.
-/

set_option autoImplicit false

namespace MiniC

namespace Descent

open Code MiniC.Parser

/-! ## Types -/

/-- Every star pays for the look at what follows it. -/
theorem meets_starsWithin {bound : Nat} {s : ParserState} (hbound : s.rest.length ≤ bound)
    (type : CType) : Meets (.stars type) (starsWithin bound type) s 0 1 0 := by
  induction bound generalizing s type with
  | zero =>
    -- the parser stops without a look, and the procedure looks for a star in vain
    have hrest : s.rest = [] := List.length_eq_zero_iff.1 (Nat.le_zero.1 hbound)
    refine (Paid.start s).alone (accept_nil hrest _) ?_
    intro hlook
    exact hlook.pure (by decide)
  | succ bound ih =>
    refine (Paid.start s).accept ?star ?none
    case star =>
      intro t hstar
      have hmore : Meets (.stars type.withPointer) (starsWithin bound type.withPointer) t 0 1 0 :=
        ih (hstar.le_of_le_add hbound) _
      exact hstar.last_goto hmore (by decide) (by decide)
    case none =>
      intro t hlook
      exact hlook.pure (by decide)

theorem meets_stars (type : CType) (s : ParserState) : Meets (.stars type) (stars type) s 0 1 0 :=
  Meets.remaining (meets_starsWithin (Nat.le_refl _) type)

/-- The word for the base type is taken in any case. -/
theorem meets_typeName (s : ParserState) : Meets .typeName typeName s 1 3 0 := by
  refine (Paid.start s).takes takesOne_baseType (by decide) ?_
  intro base t hbase
  exact hbase.last_goto (meets_stars base t) (by decide) (by decide)

/-! ## Operators -/

theorem length_drop_binaryLevels (level : Nat) : (binaryLevels.drop level).length ≤ 10 := by
  rw [List.length_drop]
  exact Nat.sub_le _ _

/-- The operator of a round pays for the round, and its operand for itself. -/
theorem meets_leftChain (operators : BinaryLevel) {level : Nat} {operand : Parser ExprId} {m : Nat}
    (hlevel : ∀ s, s.rest.length ≤ m → Meets (.binary level) operand s 1 63 14) {bound : Nat}
    {s : ParserState} (hbound : s.rest.length ≤ bound) (hs : s.rest.length ≤ m) (lhs : ExprId) :
    Meets (.leftChain operators level lhs) (leftChain operators operand bound lhs) s 0 2 0 := by
  induction bound generalizing s lhs with
  | zero =>
    have hrest : s.rest = [] := List.length_eq_zero_iff.1 (Nat.le_zero.1 hbound)
    -- the parser stops without a look at the next token, and there is none
    have hpeek : Action.peek.run s = .ok (none, s) := by
      change Except.ok (s.rest.head?.map Token.lexeme, s) = _
      rw [hrest]
      rfl
    refine (Paid.start s).alone (a := .here) rfl ?_
    intro hhere
    refine hhere.alone hpeek ?_
    intro hlook
    exact hlook.pure (by decide)
  | succ bound ih =>
    refine (Paid.start s).keeps rfl ?_
    intro loc s₁ hhere
    refine hhere.peek ?_ ?_
    · intro hnone
      exact hnone.pure (by decide)
    intro lexeme hpos hlook
    simp only [Option.bind_some]
    cases operators.operator? lexeme with
    | none => exact hlook.pure (by decide)
    | some op =>
      refine hlook.advance hpos ?_
      intro s₂ hop
      refine hop.bind_call (hlevel s₂ (hop.le_of_le hs)) (by decide) ?_
      intro rhs n s₃ hrhs
      refine hrhs.keeps rfl ?_
      intro e s₄ hadd
      have hbound' : s₄.rest.length ≤ bound := hadd.le_of_le_add (Nat.le_succ_of_le hbound)
      exact hadd.last_goto (ih hbound' (hadd.le_of_le hs) e) (by decide) (by decide)

/-! ## Operands -/

/-- The procedure that reads an operand of a level. -/
def procedureAt : OperandLevel → Procedure ExprId
  | .assignment => .assignment
  | .cast => .casted
  | .unary => .prefixed

section Operands

/-! An operand is read where fewer than `m` tokens are left, by the parameter of the functions for
the levels. -/

variable {operandAt : OperandLevel → Parser ExprId} {m : Nat}
  (hoperand : ∀ level s, s.rest.length < m → Meets (procedureAt level) (operandAt level) s 1 67 15)
include hoperand

/-- Arguments are read like any other list in commas. -/
theorem goesRound_arguments :
    GoesRound .assignment .moreArguments (operandAt .assignment) m where
  body _ := rfl
  item s hs := (hoperand .assignment s hs).mono (by decide)

/-- The closing parenthesis pays where there is no argument. -/
theorem meets_arguments {s : ParserState} (hs : s.rest.length < m) :
    Meets .arguments (arguments operandAt) s 1 73 16 := by
  have hclose {n : Nat} {args : List ExprId} {t : ParserState} (hargs : Paid s 0 71 n t) :
      KeepsTo s 1 73 16 (do act (.expect .argumentsClose); return args)
        (do expect .argumentsClose; return args) t n := by
    refine hargs.takes (takesOne_expect _) (by decide) ?_
    intro _ u hclosed
    exact hclosed.pure (by decide)
  refine (Paid.start s).test (spots_check _) ?none ?some
  case none =>
    intro _ hlook
    refine hlook.bind_pure ?_
    intro _
    exact hclose (hlook.weaken (by decide))
  case some =>
    intro hlook
    have hfirst : Meets .assignment (operandAt .assignment) s 1 67 15 := hoperand .assignment s hs
    have hround := goesRound_arguments hoperand
    refine (follows_commaSeparated hround hlook (Nat.le_of_lt hs) hfirst (by decide)).bind ?_
    intro n args t hargs
    exact hclose (hargs.weaken (by decide))

/-- The name is taken by the caller, and a name without arguments takes nothing more. -/
theorem meets_reference (name : String) (loc : Location) {s : ParserState}
    (hs : s.rest.length ≤ m) :
    Meets (.reference name loc) (reference operandAt name loc) s 0 6 0 := by
  refine (Paid.start s).keeps_or_fails rfl (by decide) ?_
  intro d s₁ hresolve
  refine hresolve.test (spots_check _) ?called ?named
  case called =>
    intro hpos hlook
    refine Follows.keeps (a := .declOf d) rfl ?_
    intro decl s₂ hsame
    have hdecl := hlook.still hsame
    simp only
    split
    -- the parenthesis is taken first, so that the arguments are read where fewer tokens are left
    · refine hdecl.advance (hsame ▸ hpos) ?_
      intro s₃ hopen
      have hargs : Meets .arguments (arguments operandAt) s₃ 1 73 16 :=
        meets_arguments hoperand (hopen.lt_of_le hs)
      refine hopen.bind_call hargs (by decide) ?_
      intro args n s₄ hclose
      refine hclose.keeps rfl ?_
      intro decl s₅ hresult
      exact hresult.last rfl (by decide)
    · exact hdecl.bind_fail (by decide)
  case named =>
    intro hlook
    refine hlook.keeps rfl ?_
    intro decl s₂ hdecl
    exact hdecl.last rfl (by decide)

/-- Each kind of primary begins with a token of its own. -/
theorem meets_primary {s : ParserState} (hs : s.rest.length ≤ m) :
    Meets .primary (primary operandAt) s 1 10 0 := by
  refine (Paid.start s).keeps rfl ?_
  intro loc s₁ hhere
  refine hhere.peek ?_ ?_
  · intro hnone
    exact hnone.unexpected (by decide)
  intro lexeme hpos hlook
  cases lexeme with
  | integer value =>
    refine hlook.advance hpos ?_
    intro s₂ hvalue
    exact hvalue.last rfl (by decide)
  | identifier name =>
    refine hlook.advance hpos ?_
    intro s₂ hname
    have href : Meets (.reference name loc) (reference operandAt name loc) s₂ 0 6 0 :=
      meets_reference hoperand name loc (hname.le_of_le hs)
    exact hname.last_call href (by decide) (by decide)
  | keyword word => exact hlook.unexpected (by decide)
  | punct sign =>
    cases sign with
    | leftParen =>
      refine hlook.advance hpos ?_
      intro s₂ hopen
      refine hopen.bind_call (hoperand .assignment s₂ (hopen.lt_of_le hs)) (by decide) ?_
      intro inner n s₃ hinner
      refine hinner.takes (takesOne_expect _) (by decide) ?_
      intro _ s₄ hclose
      refine hclose.keeps rfl ?_
      intro type s₅ htype
      exact htype.last rfl (by decide)
    | _ => exact hlook.unexpected (by decide)

/-- A suffix begins with a sign of its own, which pays for the next round. -/
theorem meets_suffixes {bound : Nat} {s : ParserState} (hbound : s.rest.length ≤ bound)
    (hs : s.rest.length ≤ m) (e : ExprId) :
    Meets (.suffixes e) (suffixes operandAt bound e) s 0 4 0 := by
  induction bound generalizing s e with
  | zero =>
    -- no token is left, so the procedure looks for the three signs in vain
    have hrest : s.rest = [] := List.length_eq_zero_iff.1 (Nat.le_zero.1 hbound)
    refine (Paid.start s).alone (a := .here) rfl ?_
    intro hhere
    refine hhere.alone (accept_nil hrest _) ?_
    intro hbracket
    refine hbracket.alone (accept_nil hrest _) ?_
    intro hplus
    refine hplus.alone (accept_nil hrest _) ?_
    intro hminus
    exact hminus.pure (by decide)
  | succ bound ih =>
    -- another round is taken on the account of this one
    have hround {taken extra n : Nat} {t : ParserState} (e : ExprId)
        (ht : Paid s (taken + 1) extra n t) (hextra : extra ≤ 90) :
        KeepsTo s 0 4 0 (goto (.suffixes e)) (suffixes operandAt bound e) t n := by
      have hmore : Meets (.suffixes e) (suffixes operandAt bound e) t 0 4 0 := by
        refine ih (ht.le_of_le_add ?_) (ht.le_of_le hs) e
        omega
      exact ht.last_goto hmore ⟨by omega, Nat.zero_le _⟩ ⟨Nat.zero_le _, by omega⟩
    refine (Paid.start s).keeps rfl ?_
    intro loc s₁ hhere
    refine hhere.accept ?subscript ?none
    case subscript =>
      intro s₂ hopen
      refine hopen.bind_call (hoperand .assignment s₂ (hopen.lt_of_le hs)) (by decide) ?_
      intro index n s₃ hindex
      refine hindex.takes (takesOne_expect _) (by decide) ?_
      intro _ s₄ hclose
      refine hclose.keeps rfl ?_
      intro type s₅ htype
      refine htype.keeps rfl ?_
      intro e' s₆ hadd
      exact hround e' hadd (by decide)
    case none =>
      intro s₂ hbracket
      refine hbracket.accept ?increment ?none
      case increment =>
        intro s₃ hsign
        refine hsign.keeps rfl ?_
        intro e' s₄ hadd
        exact hround e' hadd (by decide)
      case none =>
        intro s₃ hplus
        refine hplus.accept ?decrement ?none
        case decrement =>
          intro s₄ hsign
          refine hsign.keeps rfl ?_
          intro e' s₅ hadd
          exact hround e' hadd (by decide)
        case none =>
          intro s₄ hminus
          exact hminus.pure (by decide)

theorem meets_suffixed {s : ParserState} (hs : s.rest.length ≤ m) :
    Meets .suffixed (suffixed operandAt) s 1 16 1 := by
  refine (Paid.start s).bind_call (meets_primary hoperand hs) (by decide) ?_
  intro e n t hprimary
  have hmore : Meets (.suffixes e) (suffixes operandAt t.rest.length e) t 0 4 0 :=
    meets_suffixes hoperand (Nat.le_refl _) (hprimary.le_of_le hs) e
  exact Follows.remaining (hprimary.last_goto hmore (by decide) (by decide))

/-- Nothing is taken before an operand that is no type; the keyword before it is taken by the
caller. -/
theorem meets_sizeofOperand {s : ParserState} (hs : s.rest.length < m) :
    Meets .sizeofOperand (sizeofOperand operandAt) s 1 70 16 := by
  refine (Paid.start s).test spots_startsParenthesisedType ?type ?operand
  case type =>
    intro hpos hlook
    refine hlook.advance hpos ?_
    intro s₁ hopen
    refine hopen.bind_call (meets_typeName s₁) (by decide) ?_
    intro type n s₂ htype
    refine htype.takes (takesOne_expect _) (by decide) ?_
    intro _ s₃ hclose
    exact hclose.pure (by decide)
  case operand =>
    intro hlook
    have hunary : Meets .prefixed (operandAt .unary) s 1 67 15 := hoperand .unary s hs
    refine hlook.bind_call hunary (by decide) ?_
    intro e n s₁ he
    exact he.last rfl (by decide)

/-- What is neither an operator nor a size is left to the suffixes, whatever the next token is. -/
theorem meets_prefixed {s : ParserState} (hs : s.rest.length ≤ m) :
    Meets .prefixed (prefixed operandAt) s 1 19 2 := by
  have hsuffixed {t : ParserState} (ht : Paid s 0 2 2 t) :
      KeepsTo s 1 19 2 (call .suffixed) (suffixed operandAt) t 2 := by
    have hcontract : Meets .suffixed (suffixed operandAt) t 1 16 1 :=
      meets_suffixed hoperand (ht.le_of_le hs)
    exact ht.last_call hcontract (by decide) (by decide)
  refine (Paid.start s).keeps rfl ?_
  intro loc s₁ hhere
  refine hhere.peek hsuffixed ?_
  intro lexeme hpos hlook
  cases lexeme with
  | integer value => exact hsuffixed hlook
  | identifier name => exact hsuffixed hlook
  | keyword word =>
    cases word with
    | sizeofKw =>
      refine hlook.advance hpos ?_
      intro s₂ hword
      have hsize : Meets .sizeofOperand (sizeofOperand operandAt) s₂ 1 70 16 :=
        meets_sizeofOperand hoperand (hword.lt_of_le hs)
      refine hword.bind_call hsize (by decide) ?_
      intro type n s₃ htype
      exact htype.last rfl (by decide)
    | _ => exact hsuffixed hlook
  | punct sign =>
    dsimp only
    cases hop : sign.unary? with
    | none => exact hsuffixed hlook
    | some op =>
      refine hlook.advance hpos ?_
      intro s₂ hsign
      refine hsign.bind_call (hoperand .cast s₂ (hsign.lt_of_le hs)) (by decide) ?_
      intro operand n s₃ hinner
      exact hinner.last rfl (by decide)

/-- The parenthesis before the type pays for what a conversion adds to its operand. -/
theorem meets_casted {s : ParserState} (hs : s.rest.length ≤ m) :
    Meets .casted (casted operandAt) s 1 22 3 := by
  refine (Paid.start s).keeps rfl ?_
  intro loc s₁ hhere
  refine hhere.test spots_startsParenthesisedType ?conversion ?other
  case conversion =>
    intro hpos hlook
    refine hlook.advance hpos ?_
    intro s₂ hopen
    refine hopen.bind_call (meets_typeName s₂) (by decide) ?_
    intro type n s₃ htype
    refine htype.takes (takesOne_expect _) (by decide) ?_
    intro _ s₄ hclose
    refine hclose.bind_call (hoperand .cast s₄ (hclose.lt_of_le hs)) (by decide) ?_
    intro operand n s₅ hinner
    exact hinner.last rfl (by decide)
  case other =>
    intro hlook
    have hprefixed : Meets .prefixed (prefixed operandAt) s₁ 1 19 2 :=
      meets_prefixed hoperand (hlook.le_of_le hs)
    exact hlook.last_call hprefixed (by decide) (by decide)

/-! ## Levels -/

/-- Each of the ten levels adds a call, a loop and the look at an operator. -/
theorem meets_binary {levels : List BinaryLevel} {level : Nat}
    (hlevels : binaryLevels.drop level = levels) {s : ParserState} (hs : s.rest.length ≤ m) :
    Meets (.binary level) (binary operandAt levels) s 1 (23 + 4 * levels.length)
      (4 + levels.length) := by
  induction levels generalizing level s with
  | nil =>
    have hnone : binaryLevels[level]? = none := by
      rw [← List.head?_drop, hlevels]
      rfl
    have hbody : (Procedure.binary level).body = call .casted := by
      simp only [Procedure.body, hnone]
    rw [Meets, hbody]
    exact (Paid.start s).last_call (meets_casted hoperand hs) (by decide) (by decide)
  | cons operators tighter ih =>
    -- the tail of the table is the table from the next level on, whose procedure is called
    have hsome : binaryLevels[level]? = some operators := by
      rw [← List.head?_drop, hlevels]
      rfl
    have htighter : binaryLevels.drop (level + 1) = tighter := by
      rw [← List.tail_drop, hlevels]
      rfl
    have hlength : tighter.length ≤ 10 := htighter ▸ length_drop_binaryLevels (level + 1)
    have hbody : (Procedure.binary level).body =
        call (.binary (level + 1)) >>= fun lhs => goto (.leftChain operators (level + 1) lhs) := by
      simp only [Procedure.body, hsome]
    have hlevel {s : ParserState} (hs : s.rest.length ≤ m) :
        Meets (.binary (level + 1)) (binary operandAt tighter) s 1 (23 + 4 * tighter.length)
          (4 + tighter.length) := ih htighter hs
    rw [Meets, hbody, List.length_cons]
    refine (Paid.start s).bind_call (hlevel hs) ⟨by omega, by omega⟩ ?_
    intro lhs n t hlhs
    have hoperands (s : ParserState) (hs : s.rest.length ≤ m) :
        Meets (.binary (level + 1)) (binary operandAt tighter) s 1 63 14 := by
      refine (hlevel hs).mono ⟨?_, ?_⟩
      · omega
      · omega
    have hchain := meets_leftChain operators hoperands (Nat.le_refl _) (hlhs.le_of_le hs) lhs
    exact Follows.remaining (hlhs.last_goto hchain ⟨by omega, Nat.zero_le _⟩ ⟨by decide, by omega⟩)

/-- No level needs more than the loosest one. -/
theorem meets_level (level : Nat) {s : ParserState} (hs : s.rest.length ≤ m) :
    Meets (.binary level) (binary operandAt (binaryLevels.drop level)) s 1 63 14 := by
  have hlength := length_drop_binaryLevels level
  refine (meets_binary hoperand rfl hs).mono ⟨?_, ?_⟩
  · omega
  · omega

/-- The sign of an assignment pays for its right side. -/
theorem meets_assignment {s : ParserState} (hs : s.rest.length ≤ m) :
    Meets .assignment (assignment operandAt) s 1 67 15 := by
  have hbinary : Meets (.binary 0) (binary operandAt binaryLevels) s 1 63 14 :=
    meets_level hoperand 0 hs
  refine (Paid.start s).bind_call hbinary (by decide) ?_
  intro lhs n s₁ hlhs
  refine hlhs.keeps rfl ?_
  intro loc s₂ hhere
  refine hhere.peek ?_ ?_
  · intro hnone
    exact hnone.pure (by decide)
  intro lexeme hpos hlook
  cases lexeme with
  | integer value => exact hlook.pure (by decide)
  | identifier name => exact hlook.pure (by decide)
  | keyword word => exact hlook.pure (by decide)
  | punct sign =>
    dsimp only
    cases sign.assignment? with
    | none => exact hlook.pure (by decide)
    | some op =>
      refine hlook.advance hpos ?_
      intro s₃ hsign
      refine hsign.bind_call (hoperand .assignment s₃ (hsign.lt_of_le hs)) (by decide) ?_
      intro rhs n s₄ hrhs
      exact hrhs.last rfl (by decide)

end Operands

/-! ## Expressions -/

section AtEnd

variable {operandAt : OperandLevel → Parser ExprId} {s : ParserState} (hs : s.rest = [])
include hs

/-- Where no token is left, an operand of any level is missed in the same way. -/
theorem prefixed_at_end : prefixed operandAt s = unexpected s := by
  obtain ⟨rest, endLoc, program, scopes⟩ := s
  obtain rfl : rest = [] := hs
  rfl

theorem casted_at_end : casted operandAt s = unexpected s := by
  obtain ⟨rest, endLoc, program, scopes⟩ := s
  obtain rfl : rest = [] := hs
  rfl

theorem binary_at_end (levels : List BinaryLevel) : binary operandAt levels s = unexpected s := by
  induction levels with
  | nil => exact casted_at_end hs
  | cons operators tighter ih =>
    change Except.bind (binary operandAt tighter s) _ = _
    rw [ih]
    rfl

theorem assignment_at_end : assignment operandAt s = unexpected s := by
  change Except.bind (binary operandAt binaryLevels s) _ = _
  rw [binary_at_end hs]
  rfl

end AtEnd

/-- The bound on how deeply operands nest does not matter if the tokens that are left are no
more. -/
theorem meets_expressionWithin {bound : Nat} {s : ParserState} (hbound : s.rest.length ≤ bound)
    (level : OperandLevel) :
    Meets (procedureAt level) (expressionWithin bound level) s 1 67 15 := by
  induction bound generalizing s level with
  | zero =>
    have hrest : s.rest = [] := List.length_eq_zero_iff.1 (Nat.le_zero.1 hbound)
    -- no operand is read, so that it does not matter how that would be done
    have hnone (level : OperandLevel) (s : ParserState) (hs : s.rest.length < 0) :
        Meets (procedureAt level) unexpected s 1 67 15 := absurd hs (Nat.not_lt_zero _)
    cases level with
    | assignment => exact (meets_assignment hnone hbound).congr (assignment_at_end hrest).symm
    | cast =>
      have hcasted := (meets_casted hnone hbound).congr (casted_at_end hrest).symm
      exact hcasted.mono (by decide)
    | unary =>
      have hprefixed := (meets_prefixed hnone hbound).congr (prefixed_at_end hrest).symm
      exact hprefixed.mono (by decide)
  | succ bound ih =>
    have hoperand (level : OperandLevel) (s : ParserState) (hs : s.rest.length < bound + 1) :
        Meets (procedureAt level) (expressionWithin bound level) s 1 67 15 :=
          ih (Nat.le_of_lt_succ hs) level
    cases level with
    | assignment => exact meets_assignment hoperand hbound
    | cast => exact (meets_casted hoperand hbound).mono (by decide)
    | unary => exact (meets_prefixed hoperand hbound).mono (by decide)

/-- An expression takes one token at least. -/
theorem meets_expression (s : ParserState) : Meets .assignment expression s 1 67 15 :=
  Meets.remaining (meets_expressionWithin (Nat.le_refl _) .assignment)

end Descent

end MiniC
