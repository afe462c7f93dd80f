import MiniC.Grammar.TypeName

/-!
# Expressions

Expressions are read by levels of precedence. Assignments are the loosest and associate to the
right; then come ten levels of binary operators that associate to the left (`binaryLevels`), then
casts, prefix operators, postfix operators and primary expressions. Each node is added to the
program after its operands, with the static type that they give it (`BinaryOp.resultType`,
`UnaryOp.resultType`).

Operands lead back to three of the levels. The functions for the levels take the way back as a
parameter; `expressionWithin` closes the circle, with a bound on the number of times round. Every
round takes a token, so the number of tokens left suffices, and a bound of zero means that no token
is left.
-/

set_option autoImplicit false

namespace MiniC

/-! ## Static types of operators -/

/-- The type of a binary operation: that of the target for assignments, that of the pointer for sums
and differences of one pointer, `int` otherwise. -/
def BinaryOp.resultType (op : BinaryOp) (lhs rhs : CType) : CType :=
  if op.isAssignment then lhs
  else if op.isAdditive then
    match lhs.isPointer, rhs.isPointer with
    | true, false => lhs
    | false, true => rhs
    | _, _ => .int
  else .int

/-- The type of a unary operation. -/
def UnaryOp.resultType : UnaryOp → CType → CType
  | .deref, operand => operand.element
  | .addressOf, operand => operand.withPointer
  | .preInc, operand | .preDec, operand | .postInc, operand | .postDec, operand => operand
  | .neg, _ | .plus, _ | .not, _ | .bitNot, _ => .int

/-! ## Operators by their signs -/

/-- The assignment that a sign writes. -/
def Punct.assignment? : Punct → Option BinaryOp
  | .assign => some .assign
  | .plusAssign => some (.compoundAssign (.additive .add))
  | .minusAssign => some (.compoundAssign (.additive .sub))
  | .starAssign => some (.compoundAssign (.multiplicative .mul))
  | .slashAssign => some (.compoundAssign (.multiplicative .div))
  | .percentAssign => some (.compoundAssign (.multiplicative .mod))
  | _ => none

/-- The operator that a sign writes in front of its operand. -/
def Punct.unary? : Punct → Option UnaryOp
  | .bang => some .not
  | .tilde => some .bitNot
  | .minus => some .neg
  | .plus => some .plus
  | .amp => some .addressOf
  | .star => some .deref
  | .plusPlus => some .preInc
  | .minusMinus => some .preDec
  | _ => none

/-- The operators of one level of precedence, with their signs. -/
abbrev BinaryLevel := List (Punct × BinaryOp)

/-- The left-associative levels, the loosest first. -/
def binaryLevels : List BinaryLevel :=
  [ [(.orOr, .logical .or)],
    [(.andAnd, .logical .and)],
    [(.pipe, .bitwise .or)],
    [(.caret, .bitwise .xor)],
    [(.amp, .bitwise .and)],
    [(.eqEq, .comparison .eq), (.notEq, .comparison .ne)],
    [(.lt, .comparison .lt), (.le, .comparison .le), (.gt, .comparison .gt),
      (.ge, .comparison .ge)],
    [(.shiftLeft, .bitwise .shiftLeft), (.shiftRight, .bitwise .shiftRight)],
    [(.plus, .arith (.additive .add)), (.minus, .arith (.additive .sub))],
    [(.star, .arith (.multiplicative .mul)), (.slash, .arith (.multiplicative .div)),
      (.percent, .arith (.multiplicative .mod))] ]

/-- The operator of a level that a lexeme writes. -/
def BinaryLevel.operator? (level : BinaryLevel) : Lexeme → Option BinaryOp
  | .punct sign => level.lookup sign
  | _ => none

/-! ## Levels -/

/-- The levels of precedence that operands lead back to. -/
inductive OperandLevel where
  | assignment | cast | unary
  deriving DecidableEq

namespace Parser

/-- Adds a binary operation. -/
def addBinary (op : BinaryOp) (lhs rhs : ExprId) (loc : Location) : Parser ExprId := do
  addExpr (.binary op lhs rhs) (op.resultType (← typeOf lhs) (← typeOf rhs)) loc

/-- Adds a unary operation. -/
def addUnary (op : UnaryOp) (operand : ExprId) (loc : Location) : Parser ExprId := do
  addExpr (.unary op operand) (op.resultType (← typeOf operand)) loc

variable (operandAt : OperandLevel → Parser ExprId)

/-- The arguments of a call, up to the closing parenthesis. -/
def arguments : Parser (List ExprId) := do
  let args ← if ← check Punct.rightParen then pure [] else commaSeparated (operandAt .assignment)
  expect .argumentsClose
  return args

/-- A variable, or a call if an opening parenthesis follows; the name is already taken. -/
def reference (name : String) (loc : Location) : Parser ExprId := do
  let d ← resolve name loc
  if ← check Punct.leftParen then
    unless (← declOf d).isFunction do fail (.notAFunction name) loc
    advance
    let args ← arguments operandAt
    addExpr (.call d args) (← declOf d).type.result loc
  else addExpr (.declRef d) (← declOf d).type loc

/-- A literal, a name, or an expression in parentheses. -/
def primary : Parser ExprId := do
  let loc ← here
  match ← peek with
  | some (.integer value) =>
    advance
    addExpr (.intLiteral (.ofNat value)) .int loc
  | some (.identifier name) =>
    advance
    reference operandAt name loc
  | some (.punct .leftParen) =>
    advance
    let inner ← operandAt .assignment
    expect .parenClose
    addExpr (.paren inner) (← typeOf inner) loc
  | _ => unexpected

/-- The subscripts and operators that follow an expression, at most as many as the bound. -/
def suffixes : Nat → ExprId → Parser ExprId
  | 0, e => return e
  | bound + 1, e => do
    let loc ← here
    if ← accept Punct.leftBracket then
      let index ← operandAt .assignment
      expect .subscriptClose
      suffixes bound (← addExpr (.subscript e index) (← typeOf e).element loc)
    else if ← accept Punct.plusPlus then suffixes bound (← addUnary .postInc e loc)
    else if ← accept Punct.minusMinus then suffixes bound (← addUnary .postDec e loc)
    else return e

/-- A primary expression with its suffixes. -/
def suffixed : Parser ExprId := do
  let e ← primary operandAt
  suffixes operandAt (← remaining) e

/-- What follows the word that asks for a size: a type in parentheses, or an expression, of which
only the type matters. -/
def sizeofOperand : Parser CType := do
  if ← startsParenthesisedType then
    advance
    let type ← typeName
    expect .sizeofClose
    return type
  else typeOf (← operandAt .unary)

/-- An operand of prefix operators. -/
def prefixed : Parser ExprId := do
  let loc ← here
  match ← peek with
  | some (.keyword .sizeofKw) =>
    advance
    let type ← sizeofOperand operandAt
    addExpr (.sizeOf type) .int loc
  | some (.punct sign) =>
    match sign.unary? with
    | some op =>
      advance
      let operand ← operandAt .cast
      addUnary op operand loc
    | none => suffixed operandAt
  | _ => suffixed operandAt

/-- An expression with its casts. -/
def casted : Parser ExprId := do
  let loc ← here
  if ← startsParenthesisedType then
    advance
    let type ← typeName
    expect .castClose
    let operand ← operandAt .cast
    addExpr (.cast operand) type loc
  else prefixed operandAt

/-- Continues an operand with the operators of a level, at most as often as the bound. -/
def leftChain (level : BinaryLevel) (operand : Parser ExprId) : Nat → ExprId → Parser ExprId
  | 0, lhs => return lhs
  | bound + 1, lhs => do
    let loc ← here
    match (← peek).bind level.operator? with
    | none => return lhs
    | some op =>
      advance
      let rhs ← operand
      leftChain level operand bound (← addBinary op lhs rhs loc)

/-- An expression of the given left-associative levels, the loosest first, above casts. -/
def binary : List BinaryLevel → Parser ExprId
  | [] => casted operandAt
  | level :: tighter => do
    let lhs ← binary tighter
    leftChain level (binary tighter) (← remaining) lhs

/-- An expression of any level. -/
def assignment : Parser ExprId := do
  let lhs ← binary operandAt binaryLevels
  let loc ← here
  match ← peek with
  | some (.punct sign) =>
    match sign.assignment? with
    | some op =>
      advance
      let rhs ← operandAt .assignment
      addBinary op lhs rhs loc
    | none => return lhs
  | _ => return lhs

/-- An expression of a level, where operands nest at most as deeply as the bound. -/
def expressionWithin : Nat → OperandLevel → Parser ExprId
  | 0, _ => unexpected
  | bound + 1, .assignment => assignment (expressionWithin bound)
  | bound + 1, .cast => casted (expressionWithin bound)
  | bound + 1, .unary => prefixed (expressionWithin bound)

/-- An expression. -/
def expression : Parser ExprId := do
  expressionWithin (← remaining) .assignment

end Parser

end MiniC
