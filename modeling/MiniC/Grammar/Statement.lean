import MiniC.Grammar.Declaration

/-!
# Statements

A block and a `for` statement open a scope; the branches of `if` and the body of `while` do not.
Statements nest; as for expressions, the way back is a parameter, and `statementWithin` closes the
circle with a bound that the number of tokens left always meets.
-/

set_option autoImplicit false

namespace MiniC.Parser

/-- Whether a closing brace comes next, or the end of the file. -/
def blockEnds : Parser Bool := do
  match ← peek with
  | none => return true
  | some lexeme => return lexeme = Punct.rightBrace

/-- An expression, unless a given punctuator comes next. -/
def expressionUnless (sign : Punct) : Parser (Option ExprId) := do
  if ← check sign then return none else some <$> expression

/-- What follows the word `return`. -/
def returnRest (loc : Location) : Parser StmtId := do
  let value ← expressionUnless .semicolon
  expect .returnEnd
  addStmt (.ret value) loc

/-- The first clause of a `for` statement, with its semicolon. -/
def forInit : Parser (Option StmtId) := do
  let loc ← here
  if ← accept Punct.semicolon then return none
  else if ← startsType then some <$> addStmt (.declare (← localDeclaration)) loc
  else
    let e ← expression
    expect .forInitEnd
    some <$> addStmt (.expr e) loc

variable (statement : Parser StmtId)

/-- The statements of a block, up to its closing brace. -/
def blockBody : Parser (List StmtId) := do
  repeatUntil blockEnds statement (← remaining)

/-- What follows the opening brace of a block. -/
def blockRest (loc : Location) : Parser StmtId := do
  let body ← inScope (blockBody statement)
  expect .blockClose
  addStmt (.block body) loc

/-- What follows the word `if`. -/
def ifRest (loc : Location) : Parser StmtId := do
  expect .ifOpen
  let condition ← expression
  expect .ifClose
  let thenBranch ← statement
  let elseBranch ← if ← accept Keyword.elseKw then some <$> statement else pure none
  addStmt (.ifElse condition thenBranch elseBranch) loc

/-- What follows the word `while`. -/
def whileRest (loc : Location) : Parser StmtId := do
  expect .whileOpen
  let condition ← expression
  expect .whileClose
  let body ← statement
  addStmt (.whileLoop condition body) loc

/-- What follows the word `for`. -/
def forRest (loc : Location) : Parser StmtId := inScope do
  expect .forOpen
  let init ← forInit
  let condition ← expressionUnless .semicolon
  expect .forConditionEnd
  let increment ← expressionUnless .rightParen
  expect .forClose
  let body ← statement
  addStmt (.forLoop init condition increment body) loc

/-- A statement whose parts that are statements are read by the parameter. -/
def statementStep : Parser StmtId := do
  let loc ← here
  if ← accept Punct.leftBrace then blockRest statement loc
  else if ← accept Keyword.returnKw then returnRest loc
  else if ← accept Keyword.ifKw then ifRest statement loc
  else if ← accept Keyword.whileKw then whileRest statement loc
  else if ← accept Keyword.forKw then forRest statement loc
  else if ← accept Punct.semicolon then addStmt .empty loc
  else if ← startsType then addStmt (.declare (← localDeclaration)) loc
  else
    let e ← expression
    expect .expressionEnd
    addStmt (.expr e) loc

/-- A statement, where statements nest at most as deeply as the bound. -/
def statementWithin : Nat → Parser StmtId
  | 0 => unexpected
  | bound + 1 => statementStep (statementWithin bound)

/-- The statements of a function body, up to its closing brace. -/
def functionStatements : Parser (List StmtId) := do
  let bound ← remaining
  blockBody (statementWithin bound)

end MiniC.Parser
