import MiniC.Proofs.RelabelledParsing

/-!
# Files with other names and places

Declarations, statements and functions are read alike under other names and places. So a list of
tokens has a program if and only if the same tokens with other names and places have one, which is
the same program with the other names and places; and if they have none, it is for the same reason
(`Program.ofTokens_relabel`).
-/

set_option autoImplicit false

namespace MiniC

namespace Parser

variable {α : Type} {ρ : Relabelling}

/-! ## Variables -/

/-- The length of an array is read alike. -/
theorem blind_arrayLength : Blind ρ arrayLength := by
  apply natural_peek.bind
  intro found
  have hfail : Blind ρ (do fail .arraySize (← here) : Parser Nat) :=
    natural_here.bind fun _ => natural_fail _ _
  rcases found with _ | (_ | n) | _ | _ | _
  case some.integer.succ =>
    exact blind_advance.bind fun _ => (blind_expect _).bind fun _ => blind_pure _
  all_goals exact hfail

/-- The type of a variable is read alike. -/
theorem blind_variableType (type : CType) : Blind ρ (variableType type) := by
  apply (blind_accept (x := Punct.leftBracket) rfl).bind
  intro bracket
  apply Natural.ite
  · apply blind_arrayLength.bind
    intro length
    apply (blind_check (x := Punct.leftBracket) rfl).bind
    intro again
    apply Natural.ite
    · exact natural_here.bind fun _ => (natural_fail (g := id) _ _).bind fun _ => blind_pure _
    · exact blind_pure _
  · exact blind_pure _

theorem withInit_relabel (init : ExprId) (d : Decl) :
    (d.relabel ρ).withInit init = (d.withInit init).relabel ρ := by
  unfold Decl.withInit
  rw [Decl.kind_relabel]
  cases d.kind <;> rfl

/-- An initialiser, if there is one. -/
theorem natural_initialiser (type : CType) (d : DeclId) :
    Blind ρ (do
      let equals ← here
      if ← accept Punct.assign then
        if type.isArray then fail .arrayInitializer equals
        let init ← expression
        modifyDecl d (Decl.withInit init)
      return d) := by
  have hinit : Blind ρ (do
      let init ← expression
      modifyDecl d (Decl.withInit init)
      return d) := by
    apply blind_expression.bind
    exact fun init => (natural_modifyDecl d (withInit_relabel init)).bind fun _ => blind_pure d
  apply natural_here.bind
  intro equals
  apply (blind_accept (x := Punct.assign) rfl).bind
  intro initialised
  apply Natural.ite
  · apply Natural.ite
    · exact (natural_fail (g := id) _ _).bind fun _ => hinit
    · exact hinit
  · exact blind_pure d

/-- A variable is declared under its new name at its new place. -/
theorem natural_variableRest (type : CType) (name : String) (loc : Location) (storage : Storage) :
    Natural ρ id (variableRest type name loc storage)
      (variableRest type (ρ.name name) (ρ.place loc) storage) := by
  apply (blind_variableType type).bind
  intro type
  -- what follows where the type is not refused
  have hrest : Natural ρ id (do
      let d ← addDecl name (.variable type none storage) loc
      declare name d loc
      let equals ← here
      if ← accept Punct.assign then
        if type.isArray then fail .arrayInitializer equals
        let init ← expression
        modifyDecl d (Decl.withInit init)
      return d) (do
      let d ← addDecl (ρ.name name) (.variable type none storage) (ρ.place loc)
      declare (ρ.name name) d (ρ.place loc)
      let equals ← here
      if ← accept Punct.assign then
        if type.isArray then fail .arrayInitializer equals
        let init ← expression
        modifyDecl d (Decl.withInit init)
      return d) := by
    apply (natural_addDecl name _ loc).bind
    exact fun d => (natural_declare name d loc).bind fun _ => natural_initialiser type d
  apply Natural.ite
  · exact (natural_fail (g := id) _ _).bind fun _ => hrest
  · exact hrest

/-- A declarator is read alike, up to its name and its place. -/
theorem blind_declarator (base : CType) (storage : Storage) :
    Blind ρ (declarator base storage) := by
  apply (blind_stars base).bind
  intro type
  exact natural_here.bind fun loc => natural_identifier.bind fun name =>
    natural_variableRest type name loc storage

/-- The other declarators of a list are read alike. -/
theorem blind_otherDeclarators (base : CType) (storage : Storage) :
    Blind ρ (otherDeclarators base storage) := by
  apply blind_remaining.bind
  intro bound
  exact ((blind_declarator base storage).afterCommas bound).bind fun _ =>
    (blind_expect _).bind fun _ => blind_pure _

/-- A local declaration is read alike. -/
theorem blind_localDeclaration : Blind ρ localDeclaration := by
  apply blind_baseType.bind
  intro base
  apply (blind_declarator base .local).bind
  exact fun _ => (blind_otherDeclarators base .local).bind fun _ => blind_pure _

/-! ## Statements -/

theorem blind_blockEnds : Blind ρ blockEnds := by
  apply natural_peek.bind
  intro found
  cases found with
  | none => exact blind_pure _
  | some l =>
    have hbrace : (l.rename ρ.toRenaming = Punct.rightBrace) = (l = Punct.rightBrace) :=
      propext (Lexeme.rename_eq_iff rfl)
    simp only [Option.map_some, hbrace]
    exact blind_pure _

theorem blind_expressionUnless (sign : Punct) : Blind ρ (expressionUnless sign) := by
  apply (blind_check (x := sign) rfl).bind
  exact fun _ => .ite (blind_pure _) (blind_expression.map fun _ => rfl)

/-- The rest of a `return` is read alike and gets its new place. -/
theorem natural_returnRest (loc : Location) :
    Natural ρ id (returnRest loc) (returnRest (ρ.place loc)) := by
  apply (blind_expressionUnless _).bind
  exact fun _ => (blind_expect _).bind fun _ => natural_addStmt _ _

/-- The first clause of a loop is told apart by words that have no other name. -/
theorem blind_forInit : Blind ρ forInit := by
  apply natural_here.bind
  intro loc
  apply (blind_accept (x := Punct.semicolon) rfl).bind
  intro absent
  apply Natural.ite
  · exact blind_pure _
  apply blind_startsType.bind
  intro typed
  apply Natural.ite
  · exact blind_localDeclaration.bind fun _ => (natural_addStmt _ _).map fun _ => rfl
  · apply blind_expression.bind
    exact fun _ => (blind_expect _).bind fun _ => (natural_addStmt _ _).map fun _ => rfl

section Nested

variable {statement : Parser StmtId} (hs : Blind ρ statement)
include hs

theorem blind_blockBody : Blind ρ (blockBody statement) :=
  blind_remaining.bind fun _ => .repeatUntil blind_blockEnds hs _

/-- A block is read alike and gets its new place. -/
theorem natural_blockRest (loc : Location) :
    Natural ρ id (blockRest statement loc) (blockRest statement (ρ.place loc)) := by
  apply (blind_blockBody hs).inScope.bind
  exact fun _ => (blind_expect _).bind fun _ => natural_addStmt _ _

/-- An `if` is read alike and gets its new place. -/
theorem natural_ifRest (loc : Location) :
    Natural ρ id (ifRest statement loc) (ifRest statement (ρ.place loc)) := by
  apply (blind_expect _).bind
  intro _
  apply blind_expression.bind
  intro condition
  apply (blind_expect _).bind
  intro _
  apply hs.bind
  intro thenBranch
  apply (blind_accept (x := Keyword.elseKw) rfl).bind
  intro otherwise
  have hadd (elseBranch : Option StmtId) :
    Natural ρ id (addStmt (.ifElse condition thenBranch elseBranch) loc)
      (addStmt (.ifElse condition thenBranch elseBranch) (ρ.place loc)) := natural_addStmt _ _
  apply Natural.ite
  · exact (hs.map (f := some) (k := some) (h := id) fun _ => rfl).bind hadd
  · exact (blind_pure none).bind hadd

theorem natural_whileRest (loc : Location) :
    Natural ρ id (whileRest statement loc) (whileRest statement (ρ.place loc)) := by
  apply (blind_expect _).bind
  intro _
  apply blind_expression.bind
  intro condition
  exact (blind_expect _).bind fun _ => hs.bind fun _ => natural_addStmt _ _

/-- A `for` loop is read alike and gets its new place. -/
theorem natural_forRest (loc : Location) :
    Natural ρ id (forRest statement loc) (forRest statement (ρ.place loc)) := by
  apply Natural.inScope
  apply (blind_expect _).bind
  intro _
  apply blind_forInit.bind
  intro init
  apply (blind_expressionUnless _).bind
  intro condition
  apply (blind_expect _).bind
  intro _
  apply (blind_expressionUnless _).bind
  intro increment
  exact (blind_expect _).bind fun _ => hs.bind fun _ => natural_addStmt _ _

/-- A statement is read alike if those in it are. -/
theorem blind_statementStep : Blind ρ (statementStep statement) := by
  apply natural_here.bind
  intro loc
  apply (blind_accept (x := Punct.leftBrace) rfl).bind
  refine fun _ => .ite (natural_blockRest hs loc) ?_
  apply (blind_accept (x := Keyword.returnKw) rfl).bind
  refine fun _ => .ite (natural_returnRest loc) ?_
  apply (blind_accept (x := Keyword.ifKw) rfl).bind
  refine fun _ => .ite (natural_ifRest hs loc) ?_
  apply (blind_accept (x := Keyword.whileKw) rfl).bind
  refine fun _ => .ite (natural_whileRest hs loc) ?_
  apply (blind_accept (x := Keyword.forKw) rfl).bind
  refine fun _ => .ite (natural_forRest hs loc) ?_
  apply (blind_accept (x := Punct.semicolon) rfl).bind
  refine fun _ => .ite (natural_addStmt _ _) ?_
  apply blind_startsType.bind
  refine fun _ => .ite (blind_localDeclaration.bind fun _ => natural_addStmt _ _) ?_
  exact blind_expression.bind fun _ => (blind_expect _).bind fun _ => natural_addStmt _ _

end Nested

/-- Statements are read alike, to whatever depth they nest. -/
theorem blind_statementWithin (bound : Nat) : Blind ρ (statementWithin bound) := by
  induction bound with
  | zero => exact blind_unexpected
  | succ bound ih => exact blind_statementStep ih

theorem blind_functionStatements : Blind ρ functionStatements :=
  blind_remaining.bind fun _ => blind_blockBody (blind_statementWithin _)

/-! ## Parameters -/

/-- A missing name stays missing. -/
theorem natural_parameterName : Natural ρ ρ.name parameterName parameterName := by
  apply natural_peek.bind
  intro found
  have hmissing : Natural ρ ρ.name (pure "") (pure "") := by
    intro s
    change Except.ok ("", s.relabel ρ) = Except.ok (ρ.name "", s.relabel ρ)
    rw [ρ.empty]
  rcases found with _ | (_ | name | _ | _)
  case some.identifier => exact blind_advance.bind fun _ => natural_pure name
  all_goals exact hmissing

theorem blind_parameterType (type : CType) : Blind ρ (parameterType type) := by
  have hclose (length : Nat) : Blind ρ (do
      expect .parameterArrayClose
      return type.withLength length) := (blind_expect _).bind fun _ => blind_pure _
  apply (blind_accept (x := Punct.leftBracket) rfl).bind
  intro bracket
  apply Natural.ite
  · apply natural_peek.bind
    intro found
    rcases found with _ | (n | _ | _ | _)
    case some.integer => exact blind_advance.bind fun _ => (blind_pure n).bind hclose
    all_goals exact (blind_pure 0).bind hclose
  · exact blind_pure _

/-- A parameter is read alike, up to its name and its place. -/
theorem blind_parameter : Blind ρ parameter := by
  apply blind_typeName.bind
  intro type
  apply natural_here.bind
  intro loc
  apply natural_parameterName.bind
  intro name
  apply (blind_parameterType type).bind
  intro type
  -- whether the name is missing is the same in either naming
  have hadd : Natural ρ id (do
      let d ← addDecl name (.variable type none .param) loc
      unless name.isEmpty do declare name d loc
      return d) (do
      let d ← addDecl (ρ.name name) (.variable type none .param) (ρ.place loc)
      unless (ρ.name name).isEmpty do declare (ρ.name name) d (ρ.place loc)
      return d) := by
    apply (natural_addDecl name _ loc).bind
    intro d
    rw [ρ.isEmpty_name]
    apply Natural.ite
    · exact blind_pure d
    · exact (natural_declare name d loc).bind fun _ => blind_pure d
  apply Natural.ite
  · exact (natural_fail (g := id) _ _).bind fun _ => hadd
  · exact hadd

theorem blind_startsVoidList : Blind ρ startsVoidList := by
  apply natural_get_bind
  rintro ⟨_ | ⟨first, _ | ⟨second, _⟩⟩, _, _, _⟩
  case cons.cons =>
    have hfirst : ((first.relabel ρ).lexeme = Keyword.voidKw) = (first.lexeme = Keyword.voidKw) :=
      propext (Lexeme.rename_eq_iff rfl)
    have hsecond : ((second.relabel ρ).lexeme = Punct.rightParen) =
        (second.lexeme = Punct.rightParen) :=
      propext (Lexeme.rename_eq_iff rfl)
    simp only [ParserState.relabel, List.map_cons, hfirst, hsecond]
    exact blind_pure _
  all_goals exact blind_pure _

/-- The parameters of a function are read alike. -/
theorem blind_parameters : Blind ρ parameters := by
  apply (blind_check (x := Punct.rightParen) rfl).bind
  intro empty
  apply Natural.ite
  · exact blind_pure _
  apply blind_startsVoidList.bind
  exact fun _ => .ite (blind_advance.bind fun _ => blind_pure _) blind_parameter.commaSeparated

/-! ## Functions -/

/-- A function is found or declared under its new name. -/
theorem natural_functionDecl (returnType : CType) (name : String) (loc : Location)
    (params : List DeclId) :
    Natural ρ id (functionDecl returnType name loc params)
      (functionDecl returnType (ρ.name name) (ρ.place loc) params) := by
  apply (natural_resolveInFile? name).bind
  intro found
  cases found with
  | none =>
    apply (natural_addDecl name _ loc).bind
    intro d
    exact (natural_declareInFile name d).bind fun _ => (blind_addItem _).bind fun _ => blind_pure d
  | some d =>
    apply natural_declOf_bind
    intro decl decl' hkind
    rw [Decl.isFunction_congr hkind]
    apply Natural.ite
    · exact blind_pure d
    · exact (natural_fail (g := id) _ _).bind fun _ => blind_pure d

theorem withParams_relabel (params : List DeclId) (loc : Location) (d : Decl) :
    (d.relabel ρ).withParams params (ρ.place loc) = (d.withParams params loc).relabel ρ := by
  unfold Decl.withParams
  rw [Decl.kind_relabel]
  cases d.kind <;> rfl

theorem withBody_relabel (body : StmtId) (d : Decl) :
    (d.relabel ρ).withBody body = (d.withBody body).relabel ρ := by
  unfold Decl.withBody
  rw [Decl.kind_relabel]
  cases d.kind <;> rfl

/-- The body of a function is read alike. -/
theorem natural_functionBody (d : DeclId) (name : String) (loc opening : Location)
    (params : List DeclId) :
    Natural ρ id (functionBody d name loc opening params)
      (functionBody d (ρ.name name) (ρ.place loc) (ρ.place opening) params) := by
  -- what follows where there is no body yet
  have hbody : Natural ρ id (do
      modifyDecl d (Decl.withParams params loc)
      let statements ← functionStatements
      expect .functionBodyClose
      let body ← addStmt (.block statements) opening
      modifyDecl d (Decl.withBody body)) (do
      modifyDecl d (Decl.withParams params (ρ.place loc))
      let statements ← functionStatements
      expect .functionBodyClose
      let body ← addStmt (.block statements) (ρ.place opening)
      modifyDecl d (Decl.withBody body)) := by
    apply (natural_modifyDecl d (withParams_relabel params loc)).bind
    intro _
    apply blind_functionStatements.bind
    intro statements
    apply (blind_expect _).bind
    intro _
    exact (natural_addStmt _ _).bind fun body => natural_modifyDecl d (withBody_relabel body)
  apply natural_declOf_bind
  intro decl decl' hkind
  rw [Decl.hasBody_congr hkind]
  apply Natural.ite
  · exact (natural_fail (g := id) _ _).bind fun _ => hbody
  · exact hbody

/-- What comes after the name of a function is read alike. -/
theorem natural_functionRest (returnType : CType) (name : String) (loc : Location) :
    Natural ρ id (functionRest returnType name loc)
      (functionRest returnType (ρ.name name) (ρ.place loc)) := by
  apply Natural.inScope
  apply blind_parameters.bind
  intro params
  apply (blind_expect _).bind
  intro _
  apply (natural_functionDecl returnType name loc params).bind
  intro d
  apply natural_here.bind
  intro opening
  apply (blind_accept (x := Punct.leftBrace) rfl).bind
  exact fun _ => .ite (natural_functionBody d name loc opening params) (blind_expect _)

/-! ## Files -/

/-- Every declaration of a file is read alike. -/
theorem blind_topLevel : Blind ρ topLevel := by
  apply (blind_accept (x := Keyword.externKw) rfl).bind
  intro _
  apply blind_baseType.bind
  intro base
  apply (blind_stars base).bind
  intro type
  apply natural_here.bind
  intro loc
  apply natural_identifier.bind
  intro name
  apply (blind_accept (x := Punct.leftParen) rfl).bind
  intro isFunction
  apply Natural.ite
  · exact natural_functionRest type name loc
  · apply (natural_variableRest type name loc .global).bind
    intro first
    exact (blind_otherDeclarators base .global).bind fun others =>
      .forM (fun d => blind_addItem (.variable d)) _

theorem blind_atEnd : Blind ρ atEnd := by
  apply natural_peek.bind
  intro found
  rw [Option.isNone_map]
  exact blind_pure _

/-- A file is read alike, up to names and places. -/
theorem blind_translationUnit : Blind ρ translationUnit := by
  apply blind_remaining.bind
  exact fun bound => (Natural.repeatUntil blind_atEnd blind_topLevel bound).bind fun _ =>
    blind_pure _

end Parser

/-- Tokens with other names and places have the same program with other names and places, or none
for the same reason. -/
theorem Program.ofTokens_relabel (ρ : Relabelling) (stream : TokenStream) :
    Program.ofTokens (stream.relabel ρ) =
      match Program.ofTokens stream with
      | .ok p => .ok (p.relabel ρ)
      | .error e => .error (e.relabel ρ) := by
  have hstart : ParserState.start (stream.relabel ρ) = (ParserState.start stream).relabel ρ := by
    simp [ParserState.start, ParserState.relabel, TokenStream.relabel, Program.relabel,
      Program.empty, Scopes.rename, Scopes.empty, Scope.rename]
  have hunit : Parser.translationUnit.run (.start (stream.relabel ρ)) =
      Parser.relabelOutcome ρ id (Parser.translationUnit.run (.start stream)) := by
    rw [hstart]
    exact Parser.blind_translationUnit (.start stream)
  unfold ofTokens
  rw [hunit]
  cases Parser.translationUnit.run (.start stream) with
  | error e => rfl
  | ok r => rfl

end MiniC
