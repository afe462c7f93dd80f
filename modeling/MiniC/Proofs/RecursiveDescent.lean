import MiniC.Proofs.ParserOutcome

/-!
# The grammar as a recursive program

The functions of the grammar call each other, and some of them go round a loop, with no bound on how
often. `Procedure` names these functions and loops, and `Procedure.body` is the text of each one: a
`Code` of operations that take one token at most (`Action`), calls, and jumps to the next round of a
loop. `Finishes` says that a code comes to its end, with which result, after how many steps, and
within which depth of calls; there is one result and one number of steps (`Finishes.unique`). A code
that goes on forever does not finish.
-/

set_option autoImplicit false

namespace MiniC

namespace Descent

/-! ## Operations -/

/-- What the grammar does in one step: it looks at the next tokens, takes one, adds a node, or looks
up a name. -/
inductive Action : Type → Type 1
  | peek : Action (Option Lexeme)
  | here : Action Location
  | check (lexeme : Lexeme) : Action Bool
  | startsType : Action Bool
  | startsParenthesisedType : Action Bool
  | startsVoidList : Action Bool
  | blockEnds : Action Bool
  | atEnd : Action Bool
  | advance : Action Unit
  | accept (lexeme : Lexeme) : Action Bool
  | expect (delimiter : Delimiter) : Action Unit
  | identifier : Action String
  | baseType : Action CType
  | parameterName : Action String
  | fail {α : Type} (fault : ParseFault) (loc : Location) : Action α
  | unexpected {α : Type} : Action α
  | addExpr (kind : ExprKind) (type : CType) (loc : Location) : Action ExprId
  | addBinary (op : BinaryOp) (lhs rhs : ExprId) (loc : Location) : Action ExprId
  | addUnary (op : UnaryOp) (operand : ExprId) (loc : Location) : Action ExprId
  | addStmt (kind : StmtKind) (loc : Location) : Action StmtId
  | addDecl (name : String) (kind : DeclKind) (loc : Location) : Action DeclId
  | addItem (item : Item) : Action Unit
  | modifyDecl (d : DeclId) (f : Decl → Decl) : Action Unit
  | declOf (d : DeclId) : Action Decl
  | typeOf (e : ExprId) : Action CType
  | enterScope : Action Unit
  | leaveScope : Action Unit
  | declare (name : String) (d : DeclId) (loc : Location) : Action Unit
  | declareInFile (name : String) (d : DeclId) : Action Unit
  | resolve (name : String) (loc : Location) : Action DeclId
  | resolveInFile? (name : String) : Action (Option DeclId)

/-- The operation that an action stands for. -/
def Action.run : {α : Type} → Action α → Parser α
  | _, peek => Parser.peek
  | _, here => Parser.here
  | _, check lexeme => Parser.check lexeme
  | _, startsType => Parser.startsType
  | _, startsParenthesisedType => Parser.startsParenthesisedType
  | _, startsVoidList => Parser.startsVoidList
  | _, blockEnds => Parser.blockEnds
  | _, atEnd => Parser.atEnd
  | _, advance => Parser.advance
  | _, accept lexeme => Parser.accept lexeme
  | _, expect delimiter => Parser.expect delimiter
  | _, identifier => Parser.identifier
  | _, baseType => Parser.baseType
  | _, parameterName => Parser.parameterName
  | _, fail fault loc => Parser.fail fault loc
  | _, unexpected => Parser.unexpected
  | _, addExpr kind type loc => Parser.addExpr kind type loc
  | _, addBinary op lhs rhs loc => Parser.addBinary op lhs rhs loc
  | _, addUnary op operand loc => Parser.addUnary op operand loc
  | _, addStmt kind loc => Parser.addStmt kind loc
  | _, addDecl name kind loc => Parser.addDecl name kind loc
  | _, addItem item => Parser.addItem item
  | _, modifyDecl d f => Parser.modifyDecl d f
  | _, declOf d => Parser.declOf d
  | _, typeOf e => Parser.typeOf e
  | _, enterScope => modify fun s => { s with scopes := s.scopes.enter }
  | _, leaveScope => modify fun s => { s with scopes := s.scopes.leave }
  | _, declare name d loc => Parser.declare name d loc
  | _, declareInFile name d => Parser.declareInFile name d
  | _, resolve name loc => Parser.resolve name loc
  | _, resolveInFile? name => Parser.resolveInFile? name

/-! ## Procedures -/

/-- The functions of the grammar, and their loops. A loop has for parameters what it has collected
so far. -/
inductive Procedure : Type → Type
  | assignment : Procedure ExprId
  /-- The left-associative levels from the given one on. -/
  | binary (level : Nat) : Procedure ExprId
  | leftChain (operators : BinaryLevel) (operand : Nat) (lhs : ExprId) : Procedure ExprId
  | casted : Procedure ExprId
  | prefixed : Procedure ExprId
  | sizeofOperand : Procedure CType
  | suffixed : Procedure ExprId
  | suffixes (e : ExprId) : Procedure ExprId
  | primary : Procedure ExprId
  | reference (name : String) (loc : Location) : Procedure ExprId
  | arguments : Procedure (List ExprId)
  | moreArguments (args : List ExprId) : Procedure (List ExprId)
  | typeName : Procedure CType
  | stars (type : CType) : Procedure CType
  | arrayLength : Procedure Nat
  | variableType (type : CType) : Procedure CType
  | variableRest (type : CType) (name : String) (loc : Location) (storage : Storage) :
    Procedure DeclId
  | declarator (base : CType) (storage : Storage) : Procedure DeclId
  | moreDeclarators (base : CType) (storage : Storage) (ds : List DeclId) : Procedure (List DeclId)
  | otherDeclarators (base : CType) (storage : Storage) : Procedure (List DeclId)
  | localDeclaration : Procedure (List DeclId)
  | expressionUnless (sign : Punct) : Procedure (Option ExprId)
  | returnRest (loc : Location) : Procedure StmtId
  | forInit : Procedure (Option StmtId)
  | moreStatements (ss : List StmtId) : Procedure (List StmtId)
  | blockRest (loc : Location) : Procedure StmtId
  | ifRest (loc : Location) : Procedure StmtId
  | whileRest (loc : Location) : Procedure StmtId
  | forRest (loc : Location) : Procedure StmtId
  | statement : Procedure StmtId
  | parameterType (type : CType) : Procedure CType
  | parameter : Procedure DeclId
  | moreParameters (params : List DeclId) : Procedure (List DeclId)
  | parameters : Procedure (List DeclId)
  | functionDecl (returnType : CType) (name : String) (loc : Location) (params : List DeclId) :
    Procedure DeclId
  | functionBody (d : DeclId) (name : String) (loc opening : Location) (params : List DeclId) :
    Procedure Unit
  | functionRest (returnType : CType) (name : String) (loc : Location) : Procedure Unit
  | addItems (ds : List DeclId) : Procedure Unit
  | topLevel : Procedure Unit
  | translationUnit : Procedure Unit

/-- What a procedure consists of. -/
inductive Code : Type → Type 1
  | done {α : Type} (a : α) : Code α
  | seq {α β : Type} (first : Code α) (next : α → Code β) : Code β
  | act {α : Type} (x : Action α) : Code α
  /-- Calls a procedure, which is one level deeper. -/
  | call {α : Type} (p : Procedure α) : Code α
  /-- Goes on with a procedure on the same level, as for the next round of a loop. -/
  | goto {α : Type} (p : Procedure α) : Code α

instance : Monad Code where
  pure := .done
  bind := .seq

open Code

/-- The next round of a list whose items are separated by commas. -/
def afterCommas {α : Type} (item : Procedure α) (again : List α → Procedure (List α))
    (collected : List α) :
    Code (List α) := do
  if ← act (.accept Punct.comma) then
    let next ← call item
    goto (again (collected ++ [next]))
  else return collected

/-- A list with at least one item. -/
def commaSeparated {α : Type} (item : Procedure α) (again : List α → Procedure (List α)) :
    Code (List α) := do
  let first ← call item
  goto (again [first])

/-- A code in a scope of its own. -/
def inScope {α : Type} (body : Code α) : Code α := do
  act .enterScope
  let result ← body
  act .leaveScope
  return result

/-- The text of a procedure. -/
def Procedure.body : {α : Type} → Procedure α → Code α
  | _, assignment => do
    let lhs ← call (.binary 0)
    let loc ← act .here
    match ← act .peek with
    | some (.punct sign) =>
      match sign.assignment? with
      | some op =>
        act .advance
        let rhs ← call .assignment
        act (.addBinary op lhs rhs loc)
      | none => return lhs
    | _ => return lhs
  | _, binary level =>
    match binaryLevels[level]? with
    | none => call .casted
    | some operators => do
      let lhs ← call (.binary (level + 1))
      goto (.leftChain operators (level + 1) lhs)
  | _, leftChain operators operand lhs => do
    let loc ← act .here
    match (← act .peek).bind operators.operator? with
    | none => return lhs
    | some op =>
      act .advance
      let rhs ← call (.binary operand)
      goto (.leftChain operators operand (← act (.addBinary op lhs rhs loc)))
  | _, casted => do
    let loc ← act .here
    if ← act .startsParenthesisedType then
      act .advance
      let type ← call .typeName
      act (.expect .castClose)
      let operand ← call .casted
      act (.addExpr (.cast operand) type loc)
    else call .prefixed
  | _, prefixed => do
    let loc ← act .here
    match ← act .peek with
    | some (.keyword .sizeofKw) =>
      act .advance
      let type ← call .sizeofOperand
      act (.addExpr (.sizeOf type) .int loc)
    | some (.punct sign) =>
      match sign.unary? with
      | some op =>
        act .advance
        let operand ← call .casted
        act (.addUnary op operand loc)
      | none => call .suffixed
    | _ => call .suffixed
  | _, sizeofOperand => do
    if ← act .startsParenthesisedType then
      act .advance
      let type ← call .typeName
      act (.expect .sizeofClose)
      return type
    else act (.typeOf (← call .prefixed))
  | _, suffixed => do
    let e ← call .primary
    goto (.suffixes e)
  | _, suffixes e => do
    let loc ← act .here
    if ← act (.accept Punct.leftBracket) then
      let index ← call .assignment
      act (.expect .subscriptClose)
      goto (.suffixes (← act (.addExpr (.subscript e index) (← act (.typeOf e)).element loc)))
    else if ← act (.accept Punct.plusPlus) then
      goto (.suffixes (← act (.addUnary .postInc e loc)))
    else if ← act (.accept Punct.minusMinus) then
      goto (.suffixes (← act (.addUnary .postDec e loc)))
    else return e
  | _, primary => do
    let loc ← act .here
    match ← act .peek with
    | some (.integer value) =>
      act .advance
      act (.addExpr (.intLiteral (.ofNat value)) .int loc)
    | some (.identifier name) =>
      act .advance
      call (.reference name loc)
    | some (.punct .leftParen) =>
      act .advance
      let inner ← call .assignment
      act (.expect .parenClose)
      act (.addExpr (.paren inner) (← act (.typeOf inner)) loc)
    | _ => act .unexpected
  | _, reference name loc => do
    let d ← act (.resolve name loc)
    if ← act (.check Punct.leftParen) then
      unless (← act (.declOf d)).isFunction do act (.fail (.notAFunction name) loc)
      act .advance
      let args ← call .arguments
      act (.addExpr (.call d args) (← act (.declOf d)).type.result loc)
    else act (.addExpr (.declRef d) (← act (.declOf d)).type loc)
  | _, arguments => do
    let args ← if ← act (.check Punct.rightParen) then pure []
      else commaSeparated .assignment .moreArguments
    act (.expect .argumentsClose)
    return args
  | _, moreArguments args => afterCommas .assignment .moreArguments args
  | _, typeName => do goto (.stars (← act .baseType))
  | _, stars type => do
    if ← act (.accept Punct.star) then goto (.stars type.withPointer) else return type
  | _, arrayLength => do
    match ← act .peek with
    | some (.integer (n + 1)) =>
      act .advance
      act (.expect .arraySizeClose)
      return n + 1
    | _ => act (.fail .arraySize (← act .here))
  | _, variableType type => do
    if ← act (.accept Punct.leftBracket) then
      let length ← call .arrayLength
      if ← act (.check Punct.leftBracket) then act (.fail .multiDimensional (← act .here))
      return type.withLength length
    else return type
  | _, variableRest type name loc storage => do
    let type ← call (.variableType type)
    if type.isVoid then act (.fail (.voidVariable name) loc)
    let d ← act (.addDecl name (.variable type none storage) loc)
    act (.declare name d loc)
    let equals ← act .here
    if ← act (.accept Punct.assign) then
      if type.isArray then act (.fail .arrayInitializer equals)
      let init ← call .assignment
      act (.modifyDecl d (Decl.withInit init))
    return d
  | _, declarator base storage => do
    let type ← goto (.stars base)
    let loc ← act .here
    let name ← act .identifier
    call (.variableRest type name loc storage)
  | _, moreDeclarators base storage ds =>
    afterCommas (.declarator base storage) (.moreDeclarators base storage) ds
  | _, otherDeclarators base storage => do
    let others ← goto (.moreDeclarators base storage [])
    act (.expect .variableEnd)
    return others
  | _, localDeclaration => do
    let base ← act .baseType
    let first ← call (.declarator base .local)
    let others ← call (.otherDeclarators base .local)
    return first :: others
  | _, expressionUnless sign => do
    if ← act (.check sign) then return none else some <$> call .assignment
  | _, returnRest loc => do
    let value ← call (.expressionUnless .semicolon)
    act (.expect .returnEnd)
    act (.addStmt (.ret value) loc)
  | _, forInit => do
    let loc ← act .here
    if ← act (.accept Punct.semicolon) then return none
    else if ← act .startsType then some <$> act (.addStmt (.declare (← call .localDeclaration)) loc)
    else
      let e ← call .assignment
      act (.expect .forInitEnd)
      some <$> act (.addStmt (.expr e) loc)
  | _, moreStatements ss => do
    if ← act .blockEnds then return ss
    let next ← call .statement
    goto (.moreStatements (ss ++ [next]))
  | _, blockRest loc => do
    let body ← inScope (goto (.moreStatements []))
    act (.expect .blockClose)
    act (.addStmt (.block body) loc)
  | _, ifRest loc => do
    act (.expect .ifOpen)
    let condition ← call .assignment
    act (.expect .ifClose)
    let thenBranch ← call .statement
    let elseBranch ← if ← act (.accept Keyword.elseKw) then some <$> call .statement else pure none
    act (.addStmt (.ifElse condition thenBranch elseBranch) loc)
  | _, whileRest loc => do
    act (.expect .whileOpen)
    let condition ← call .assignment
    act (.expect .whileClose)
    let body ← call .statement
    act (.addStmt (.whileLoop condition body) loc)
  | _, forRest loc => inScope do
    act (.expect .forOpen)
    let init ← call .forInit
    let condition ← call (.expressionUnless .semicolon)
    act (.expect .forConditionEnd)
    let increment ← call (.expressionUnless .rightParen)
    act (.expect .forClose)
    let body ← call .statement
    act (.addStmt (.forLoop init condition increment body) loc)
  | _, statement => do
    let loc ← act .here
    if ← act (.accept Punct.leftBrace) then call (.blockRest loc)
    else if ← act (.accept Keyword.returnKw) then call (.returnRest loc)
    else if ← act (.accept Keyword.ifKw) then call (.ifRest loc)
    else if ← act (.accept Keyword.whileKw) then call (.whileRest loc)
    else if ← act (.accept Keyword.forKw) then call (.forRest loc)
    else if ← act (.accept Punct.semicolon) then act (.addStmt .empty loc)
    else if ← act .startsType then act (.addStmt (.declare (← call .localDeclaration)) loc)
    else
      let e ← call .assignment
      act (.expect .expressionEnd)
      act (.addStmt (.expr e) loc)
  | _, parameterType type => do
    if ← act (.accept Punct.leftBracket) then
      let length ← match ← act .peek with
        | some (.integer n) => do
          act .advance
          pure n
        | _ => pure 0
      act (.expect .parameterArrayClose)
      return type.withLength length
    else return type
  | _, parameter => do
    let type ← call .typeName
    let loc ← act .here
    let name ← act .parameterName
    let type ← call (.parameterType type)
    if type.isVoid then act (.fail .voidParameter loc)
    let d ← act (.addDecl name (.variable type none .param) loc)
    unless name.isEmpty do act (.declare name d loc)
    return d
  | _, moreParameters params => afterCommas .parameter .moreParameters params
  | _, parameters => do
    if ← act (.check Punct.rightParen) then return []
    else if ← act .startsVoidList then
      act .advance
      return []
    else commaSeparated .parameter .moreParameters
  | _, functionDecl returnType name loc params => do
    match ← act (.resolveInFile? name) with
    | some d =>
      unless (← act (.declOf d)).isFunction do act (.fail (.differentKind name) loc)
      return d
    | none =>
      let d ← act (.addDecl name (.function returnType params none) loc)
      act (.declareInFile name d)
      act (.addItem (.function d))
      return d
  | _, functionBody d name loc opening params => do
    if (← act (.declOf d)).hasBody then act (.fail (.functionRedefinition name) loc)
    act (.modifyDecl d (Decl.withParams params loc))
    let statements ← goto (.moreStatements [])
    act (.expect .functionBodyClose)
    let body ← act (.addStmt (.block statements) opening)
    act (.modifyDecl d (Decl.withBody body))
  | _, functionRest returnType name loc => inScope do
    let params ← call .parameters
    act (.expect .parametersClose)
    let d ← call (.functionDecl returnType name loc params)
    let opening ← act .here
    if ← act (.accept Punct.leftBrace) then call (.functionBody d name loc opening params)
    else act (.expect .functionEnd)
  | _, addItems ds =>
    match ds with
    | [] => return ()
    | d :: ds => do
      act (.addItem (.variable d))
      goto (.addItems ds)
  | _, topLevel => do
    let _ ← act (.accept Keyword.externKw)
    let base ← act .baseType
    let type ← goto (.stars base)
    let loc ← act .here
    let name ← act .identifier
    if ← act (.accept Punct.leftParen) then call (.functionRest type name loc)
    else
      let first ← call (.variableRest type name loc .global)
      let others ← call (.otherDeclarators base .global)
      goto (.addItems (first :: others))
  | _, translationUnit => do
    if ← act .atEnd then return ()
    call .topLevel
    goto .translationUnit

/-! ## Execution -/

/-- From the state, the code comes to its end after the given number of steps and with the given
result; calls within it are nested at most as deeply as `depth`. Every operation, call and jump is a
step, and an error ends everything. -/
inductive Finishes : {α : Type} → Code α → ParserState → (depth steps : Nat) →
    Except ParseError (α × ParserState) → Prop
  | done {α : Type} {a : α} {s : ParserState} {depth : Nat} :
    Finishes (done a) s depth 0 (.ok (a, s))
  | seq {α β : Type} {first : Code α} {next : α → Code β} {s t : ParserState}
    {depth m n : Nat} {a : α}
      {result : Except ParseError (β × ParserState)} :
      Finishes first s depth m (.ok (a, t)) → Finishes (next a) t depth n result →
      Finishes (seq first next) s depth (m + n) result
  | fails {α β : Type} {first : Code α} {next : α → Code β} {s : ParserState} {depth n : Nat}
    {e : ParseError} :
      Finishes first s depth n (.error e) → Finishes (seq first next) s depth n (.error e)
  | act {α : Type} {x : Action α} {s : ParserState} {depth : Nat} :
    Finishes (act x) s depth 1 (x.run s)
  | call {α : Type} {p : Procedure α} {s : ParserState} {depth n : Nat}
    {result : Except ParseError (α × ParserState)} :
      Finishes p.body s depth n result → Finishes (call p) s (depth + 1) (n + 1) result
  | goto {α : Type} {p : Procedure α} {s : ParserState} {depth n : Nat}
    {result : Except ParseError (α × ParserState)} :
      Finishes p.body s depth n result → Finishes (goto p) s depth (n + 1) result

variable {α : Type} {c : Code α} {s : ParserState} {depth n : Nat}
    {result : Except ParseError (α × ParserState)}

/-- More depth is allowed than is used. -/
theorem Finishes.mono {depth' : Nat} (h : Finishes c s depth n result) (hdepth : depth ≤ depth') :
    Finishes c s depth' n result := by
  induction h generalizing depth' with
  | done => exact .done
  | seq _ _ ihfirst ihnext => exact .seq (ihfirst hdepth) (ihnext hdepth)
  | fails _ ih => exact .fails (ih hdepth)
  | act => exact .act
  | call _ ih =>
    obtain ⟨k, rfl⟩ := Nat.exists_eq_add_of_le' (Nat.le_trans (Nat.le_add_left 1 _) hdepth)
    exact .call (ih (Nat.le_of_succ_le_succ hdepth))
  | goto _ ih => exact .goto (ih hdepth)

/-- A code has one result, after one number of steps. -/
theorem Finishes.unique {depth' n' : Nat} {result' : Except ParseError (α × ParserState)}
    (h : Finishes c s depth n result) (h' : Finishes c s depth' n' result') :
    n = n' ∧ result = result' := by
  -- the other execution is cut where the first one is; it cannot fail where that one goes on
  induction h generalizing depth' n' with
  | done =>
    cases h'
    exact ⟨rfl, rfl⟩
  | seq _ _ ihfirst ihnext =>
    cases h' with
    | seq hfirst hnext =>
      obtain ⟨rfl, hsame⟩ := ihfirst hfirst
      cases hsame
      obtain ⟨rfl, rfl⟩ := ihnext hnext
      exact ⟨rfl, rfl⟩
    | fails hfirst => cases (ihfirst hfirst).2
  | fails _ ih =>
    cases h' with
    | seq hfirst _ => cases (ih hfirst).2
    | fails hfirst =>
      obtain ⟨rfl, hsame⟩ := ih hfirst
      cases hsame
      exact ⟨rfl, rfl⟩
  | act =>
    cases h'
    exact ⟨rfl, rfl⟩
  | call _ ih =>
    cases h' with
    | call hbody =>
      obtain ⟨rfl, rfl⟩ := ih hbody
      exact ⟨rfl, rfl⟩
  | goto _ ih =>
    cases h' with
    | goto hbody =>
      obtain ⟨rfl, rfl⟩ := ih hbody
      exact ⟨rfl, rfl⟩

end Descent

end MiniC
