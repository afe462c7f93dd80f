import MiniC.Proofs.FileDescent

/-!
# The parser always makes progress

Every procedure of the recursive program is one of the functions of the grammar
(`Procedure.parser`), where the bounds of these are the number of tokens left. From every state it
ends, after a number of steps and within a depth of calls that are linear in this number
(`Procedure.ends`), so no loop goes on forever and no bound is ever met. `parser_progresses` adds
that whatever must take a token has taken one when it succeeds, and what this says of whole texts.
-/

set_option autoImplicit false

namespace MiniC

namespace Descent

open MiniC.Parser

/-! ## Procedures as functions of the grammar -/

/-- The function of the grammar that the procedure stands for. A loop puts what it collects after
what it has. -/
def Procedure.parser : {α : Type} → Procedure α → Parser α
  | _, assignment => expression
  | _, binary level => do Parser.binary (expressionWithin (← remaining)) (binaryLevels.drop level)
  | _, leftChain operators level lhs => do
    let bound ← remaining
    Parser.leftChain operators
      (Parser.binary (expressionWithin bound) (binaryLevels.drop level)) bound lhs
  | _, casted => do Parser.casted (expressionWithin (← remaining))
  | _, prefixed => do Parser.prefixed (expressionWithin (← remaining))
  | _, sizeofOperand => do Parser.sizeofOperand (expressionWithin (← remaining))
  | _, suffixed => do Parser.suffixed (expressionWithin (← remaining))
  | _, suffixes e => do
    let bound ← remaining
    Parser.suffixes (expressionWithin bound) bound e
  | _, primary => do Parser.primary (expressionWithin (← remaining))
  | _, reference name loc => do Parser.reference (expressionWithin (← remaining)) name loc
  | _, arguments => do Parser.arguments (expressionWithin (← remaining))
  | _, moreArguments args => do
    let bound ← remaining
    let more ← Parser.afterCommas (expressionWithin bound .assignment) bound
    return args ++ more
  | _, typeName => Parser.typeName
  | _, stars type => Parser.stars type
  | _, arrayLength => Parser.arrayLength
  | _, variableType type => Parser.variableType type
  | _, variableRest type name loc storage => Parser.variableRest type name loc storage
  | _, declarator base storage => Parser.declarator base storage
  | _, moreDeclarators base storage ds => do
    let more ← Parser.afterCommas (Parser.declarator base storage) (← remaining)
    return ds ++ more
  | _, otherDeclarators base storage => Parser.otherDeclarators base storage
  | _, localDeclaration => Parser.localDeclaration
  | _, expressionUnless sign => Parser.expressionUnless sign
  | _, returnRest loc => Parser.returnRest loc
  | _, forInit => Parser.forInit
  | _, moreStatements ss => do
    let bound ← remaining
    let more ← repeatUntil Parser.blockEnds (statementWithin bound) bound
    return ss ++ more
  | _, blockRest loc => do Parser.blockRest (statementWithin (← remaining)) loc
  | _, ifRest loc => do Parser.ifRest (statementWithin (← remaining)) loc
  | _, whileRest loc => do Parser.whileRest (statementWithin (← remaining)) loc
  | _, forRest loc => do Parser.forRest (statementWithin (← remaining)) loc
  | _, statement => do statementWithin (← remaining)
  | _, parameterType type => Parser.parameterType type
  | _, parameter => Parser.parameter
  | _, moreParameters params => do
    let more ← Parser.afterCommas Parser.parameter (← remaining)
    return params ++ more
  | _, parameters => Parser.parameters
  | _, functionDecl returnType name loc params => Parser.functionDecl returnType name loc params
  | _, functionBody d name loc opening params => Parser.functionBody d name loc opening params
  | _, functionRest returnType name loc => Parser.functionRest returnType name loc
  | _, addItems ds => ds.forM fun d => Parser.addItem (.variable d)
  | _, topLevel => Parser.topLevel
  | _, translationUnit => Parser.translationUnit

/-- The number of items that the procedure has still to add. -/
def Procedure.pending : {α : Type} → Procedure α → Nat
  | _, addItems ds => ds.length
  | _, _ => 0

section Ends

variable {α : Type} {p : Procedure α} {x : Parser α} {s : ParserState} {need extra height : Nat}

/-- From the state, the procedure ends with what the parser answers. The number of its steps and the
depth of its calls are bounded by the number of tokens that are left. -/
def Procedure.EndsAs (p : Procedure α) (x : Parser α) (s : ParserState) : Prop :=
  ∃ steps ≤ 100 * (s.rest.length + 1) + 2 * p.pending,
    Finishes p.body s (20 * (s.rest.length + 1)) steps (x s)

/-- The procedure ends, and if it succeeds, it has taken some tokens, one at least, from those that
were left. -/
structure Procedure.Progresses (p : Procedure α) (x : Parser α) (s : ParserState) : Prop where
  ends : p.EndsAs x s
  takes : ∀ a t, x s = .ok (a, t) → ∃ taken, taken ≠ [] ∧ s.rest = taken ++ t.rest

theorem Procedure.EndsAs.remaining {g : Nat → Parser α} (h : p.EndsAs (g s.rest.length) s) :
    p.EndsAs (Parser.remaining >>= g) s := h

theorem Procedure.EndsAs.exists_taken (h : p.EndsAs x s) {a : α} {t : ParserState}
    (ht : x s = .ok (a, t)) :
    ∃ taken, s.rest = taken ++ t.rest := by
  obtain ⟨steps, -, hfinishes⟩ := h
  rw [ht] at hfinishes
  obtain ⟨taken, hrest, -⟩ := hfinishes.exists_taken
  exact ⟨taken, hrest⟩

theorem Follows.endsAs {depth limit : Nat} {P : Nat → α → ParserState → Prop}
    (h : Follows p.body x s depth limit 0 P)
    (hdepth : depth ≤ 20 * (s.rest.length + 1))
    (hlimit : limit ≤ 100 * (s.rest.length + 1) + 2 * p.pending)
    (hP : ∀ n a t, P n a t → n ≤ 100 * (s.rest.length + 1) + 2 * p.pending) : p.EndsAs x s := by
  obtain ⟨steps, hfinishes, hsteps⟩ := h
  rw [Nat.zero_add] at hsteps
  refine ⟨steps, ?_, hfinishes.mono hdepth⟩
  cases hx : x s with
  | ok r =>
    rw [hx] at hsteps
    exact hP steps _ _ hsteps
  | error e =>
    rw [hx] at hsteps
    exact Nat.le_trans hsteps hlimit

theorem Meets.endsAs (hp : Meets p x s need extra height) (hroom : extra ≤ 100 ∧ height ≤ 20) :
    p.EndsAs x s := by
  have hkeeps : KeepsTo s need extra height p.body x s 0 := hp
  have hlimit : 100 * s.rest.length + extra ≤ 100 * (s.rest.length + 1) + 2 * p.pending := by omega
  refine Follows.endsAs hkeeps ?_ hlimit ?_
  · omega
  · intro n a t hpaid
    have hsteps := hpaid.steps
    omega

/-- A procedure whose contract asks for a token progresses. -/
theorem Meets.progresses (hp : Meets p x s 1 extra height) (hroom : extra ≤ 100 ∧ height ≤ 20) :
    p.Progresses x s := by
  have hends : p.EndsAs x s := hp.endsAs hroom
  refine ⟨hends, fun a t ht => ?_⟩
  obtain ⟨taken, hrest⟩ := hends.exists_taken ht
  refine ⟨taken, ?_, hrest⟩
  rintro rfl
  -- the contract says that one token less is left
  obtain ⟨steps, -, hpaid⟩ := hp
  rw [ht] at hpaid
  have htokens : t.rest.length + 1 ≤ s.rest.length := hpaid.tokens
  rw [hrest, List.nil_append] at htokens
  exact absurd htokens (Nat.not_succ_le_self _)

end Ends

theorem meets_operand (bound : Nat) (level : OperandLevel) (s : ParserState)
    (hs : s.rest.length < bound + 1) :
    Meets (procedureAt level) (expressionWithin bound level) s 1 67 15 :=
  meets_expressionWithin (Nat.le_of_lt_succ hs) level

theorem meets_substatement (bound : Nat) (s : ParserState) (hs : s.rest.length < bound + 1) :
    Meets .statement (statementWithin bound) s 1 78 16 :=
      meets_statementWithin (Nat.le_of_lt_succ hs)

/-- Every procedure ends, each loop included, with what the function of the grammar answers. -/
theorem Procedure.ends {α : Type} (p : Procedure α) (s : ParserState) : p.EndsAs p.parser s := by
  -- operands and statements are read within the number of tokens left, here and wherever fewer are
  -- left
  have hle := Nat.le_succ s.rest.length
  have hlt := Nat.lt_succ_self s.rest.length
  have hoperand := meets_operand s.rest.length
  have hstatement := meets_substatement s.rest.length
  cases p with
  | assignment => exact (meets_expression s).endsAs (by decide)
  | binary level => exact .remaining <| (meets_level hoperand level hle).endsAs (by decide)
  | leftChain operators level lhs =>
    have hlevel (t : ParserState) (ht : t.rest.length ≤ s.rest.length + 1) :=
      meets_level hoperand level ht
    exact .remaining <|
      (meets_leftChain operators hlevel (Nat.le_refl _) hle lhs).endsAs (by decide)
  | casted => exact .remaining <| (meets_casted hoperand hle).endsAs (by decide)
  | prefixed => exact .remaining <| (meets_prefixed hoperand hle).endsAs (by decide)
  | sizeofOperand => exact .remaining <| (meets_sizeofOperand hoperand hlt).endsAs (by decide)
  | suffixed => exact .remaining <| (meets_suffixed hoperand hle).endsAs (by decide)
  | suffixes e =>
    exact .remaining <| (meets_suffixes hoperand (Nat.le_refl _) hle e).endsAs (by decide)
  | primary => exact .remaining <| (meets_primary hoperand hle).endsAs (by decide)
  | reference name loc =>
    exact .remaining <| (meets_reference hoperand name loc hle).endsAs (by decide)
  | arguments => exact .remaining <| (meets_arguments hoperand hlt).endsAs (by decide)
  | moreArguments args =>
    exact .remaining <|
      (meets_afterCommas (goesRound_arguments hoperand) (Nat.le_refl _) hle args).endsAs (by decide)
  | typeName => exact (meets_typeName s).endsAs (by decide)
  | stars type => exact (meets_stars type s).endsAs (by decide)
  | arrayLength => exact (meets_arrayLength s).endsAs (by decide)
  | variableType type => exact (meets_variableType type s).endsAs (by decide)
  | variableRest type name loc storage =>
    exact (meets_variableRest type name loc storage s).endsAs (by decide)
  | declarator base storage => exact (meets_declarator base storage s).endsAs (by decide)
  | moreDeclarators base storage ds =>
    have hmore := goesRound_declarators base storage s.rest.length
    exact .remaining <|
      (meets_afterCommas hmore (Nat.le_refl _) (Nat.le_refl _) ds).endsAs (by decide)
  | otherDeclarators base storage =>
    exact (meets_otherDeclarators base storage s).endsAs (by decide)
  | localDeclaration => exact (meets_localDeclaration s).endsAs (by decide)
  | expressionUnless sign => exact (meets_expressionUnless sign s).endsAs (by decide)
  | returnRest loc => exact (meets_returnRest loc s).endsAs (by decide)
  | forInit => exact (meets_forInit s).endsAs (by decide)
  | moreStatements ss =>
    exact .remaining <| (meets_repeatUntil hstatement (Nat.le_refl _) hlt ss).endsAs (by decide)
  | blockRest loc => exact .remaining <| (meets_blockRest hstatement loc hlt).endsAs (by decide)
  | ifRest loc => exact .remaining <| (meets_ifRest hstatement loc hlt).endsAs (by decide)
  | whileRest loc => exact .remaining <| (meets_whileRest hstatement loc hlt).endsAs (by decide)
  | forRest loc => exact .remaining <| (meets_forRest hstatement loc hlt).endsAs (by decide)
  | statement => exact .remaining <| (meets_statementWithin (Nat.le_refl _)).endsAs (by decide)
  | parameterType type => exact (meets_parameterType type s).endsAs (by decide)
  | parameter => exact (meets_parameter s).endsAs (by decide)
  | moreParameters params =>
    have hmore := goesRound_parameters s.rest.length
    exact .remaining <|
      (meets_afterCommas hmore (Nat.le_refl _) (Nat.le_refl _) params).endsAs (by decide)
  | parameters => exact (meets_parameters s).endsAs (by decide)
  | functionDecl returnType name loc params =>
    exact (meets_functionDecl returnType name loc params s).endsAs (by decide)
  | functionBody d name loc opening params =>
    exact (meets_functionBody d name loc opening params s).endsAs (by decide)
  | functionRest returnType name loc =>
    exact (meets_functionRest returnType name loc s).endsAs (by decide)
  | addItems ds =>
    have hsteps : 0 + 2 * ds.length ≤ 2 * ds.length := Nat.le_of_eq (Nat.zero_add _)
    refine Follows.endsAs (follows_addItems ds s hsteps) (Nat.zero_le _) (Nat.le_add_left _ _) ?_
    rintro n _ t ⟨-, hn⟩
    exact Nat.le_trans (Nat.le_of_eq hn) (Nat.le_trans hsteps (Nat.le_add_left _ _))
  | topLevel => exact (meets_topLevel s).endsAs (by decide)
  | translationUnit =>
    have hfile := follows_translationUnit s
    refine hfile.endsAs ?_ ?_ ?_
    · omega
    · omega
    · rintro n _ t ⟨-, hn⟩
      omega

/-- A file is read to its end, or not at all. -/
theorem rest_of_translationUnit {s t : ParserState} (h : translationUnit s = .ok ((), t)) :
    t.rest = [] := by
  obtain ⟨steps, -, hsteps⟩ := follows_translationUnit s
  rw [h] at hsteps
  exact hsteps.1

/-- Reading always makes progress. Wherever a declaration of the file, a statement, an expression or
an operand of any level is read with success, one token at least has been taken, and none that was
not left; the bounds on how deeply statements and operands nest do not matter if they are no less
than the number of tokens. Every procedure, and with it every loop, ends from every state, after a
number of steps and within a depth of calls that are linear in the number of tokens, and takes
tokens from the front alone. So the parsing of every text ends: either the text has no tokens, or
the whole file is read as a procedure that ends, and this succeeds only where no token is left. -/
theorem parser_progresses :
    (∀ s, Procedure.Progresses .topLevel topLevel s) ∧
    (∀ s bound, s.rest.length ≤ bound → Procedure.Progresses .statement (statementWithin bound) s) ∧
    (∀ s, Procedure.Progresses .assignment expression s) ∧
    (∀ s bound, s.rest.length ≤ bound →
      (∀ level, Procedure.Progresses (.binary level)
        (binary (expressionWithin bound) (binaryLevels.drop level)) s) ∧
      Procedure.Progresses .casted (casted (expressionWithin bound)) s ∧
      Procedure.Progresses .prefixed (prefixed (expressionWithin bound)) s ∧
      Procedure.Progresses .suffixed (suffixed (expressionWithin bound)) s ∧
      Procedure.Progresses .primary (primary (expressionWithin bound)) s) ∧
    (∀ {α : Type} (p : Procedure α) (s : ParserState), p.EndsAs p.parser s ∧
      ∀ a t, p.parser s = .ok (a, t) → ∃ taken, s.rest = taken ++ t.rest) ∧
    (∀ s t, translationUnit s = .ok ((), t) → t.rest = []) ∧
    ∀ source,
      (∃ e, tokenize source = .error e ∧ Program.parse source = .error e.toParseError) ∨
      ∃ stream, tokenize source = .ok stream ∧
        (∃ steps ≤ 100 * (stream.tokens.length + 1),
          Finishes Procedure.translationUnit.body (.start stream)
          (20 * (stream.tokens.length + 1)) steps (translationUnit (.start stream))) ∧
        Program.parse source = (translationUnit (.start stream)).map fun r => r.2.program := by
  refine ⟨?topLevel, ?statement, ?expression, ?levels, ?procedures, ?whole, ?texts⟩
  case topLevel => exact fun s => (meets_topLevel s).progresses (by decide)
  case statement =>
    exact fun s bound hbound => (meets_statementWithin hbound).progresses (by decide)
  case expression => exact fun s => (meets_expression s).progresses (by decide)
  case levels =>
    intro s bound hbound
    have hoperand := meets_operand bound
    have hle := Nat.le_succ_of_le hbound
    refine ⟨fun level => ?_, ?cast, ?unary, ?suffix, ?primary⟩
    · exact (meets_level hoperand level hle).progresses (by decide)
    case cast => exact (meets_casted hoperand hle).progresses (by decide)
    case unary => exact (meets_prefixed hoperand hle).progresses (by decide)
    case suffix => exact (meets_suffixed hoperand hle).progresses (by decide)
    case primary => exact (meets_primary hoperand hle).progresses (by decide)
  case procedures => exact fun p s => ⟨p.ends s, fun a t => (p.ends s).exists_taken⟩
  case whole => exact fun s t => rest_of_translationUnit
  case texts =>
    intro source
    rw [Program.parse]
    cases hstream : tokenize source with
    | error e => exact .inl ⟨e, rfl, rfl⟩
    | ok stream => exact .inr ⟨stream, rfl, Procedure.translationUnit.ends (.start stream), rfl⟩

/-- A function with a loop, a block and an index: the declaration takes all tokens, and parsing
ends. -/
theorem parser_progresses_through_a_loop :
    ∃ stream t, tokenize "int f(int a[], int n) { while (n) { a[n] = -n; n = n - 1; } return 0; }" =
      .ok stream ∧ topLevel (.start stream) = .ok ((), t) ∧ t.rest = [] ∧
      (∃ taken, taken ≠ [] ∧ stream.tokens = taken ++ t.rest) ∧
      ∃ steps ≤ 100 * (stream.tokens.length + 1),
        Finishes Procedure.translationUnit.body (.start stream)
        (20 * (stream.tokens.length + 1)) steps (translationUnit (.start stream)) := by
  have hreads :
    (tokenize
      "int f(int a[], int n) { while (n) { a[n] = -n; n = n - 1; } return 0; }").toOption.any
      (fun stream => (topLevel (.start stream)).toOption.any fun r => r.2.rest.isEmpty) = true := by
        decide +kernel
  obtain ⟨hdeclaration, -, -, -, -, -, htexts⟩ := parser_progresses
  obtain ⟨e, hstream, -⟩ | ⟨stream, hstream, hends, -⟩ :=
    htexts "int f(int a[], int n) { while (n) { a[n] = -n; n = n - 1; } return 0; }"
  · rw [hstream] at hreads
    cases hreads
  · rw [hstream] at hreads
    have hempty : (topLevel (.start stream)).toOption.any (fun r => r.2.rest.isEmpty) = true :=
      hreads
    cases htop : topLevel (.start stream) with
    | error e =>
      rw [htop] at hempty
      cases hempty
    | ok r =>
      obtain ⟨⟨⟩, t⟩ := r
      rw [htop] at hempty
      exact ⟨stream, t, hstream, htop, List.isEmpty_iff.1 hempty,
        (hdeclaration _).takes () t htop, hends⟩

end Descent

end MiniC
