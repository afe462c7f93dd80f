/-!
# Operators

Binary operators are grouped by what they do: arithmetic, comparison, logical connectives,
operations on bits, and assignments. A compound assignment carries the arithmetic operator that it
abbreviates, so its sign is that operator's sign with an equals sign (`BinaryOp.symbol`).
-/

set_option autoImplicit false

namespace MiniC

/-- Sums and differences, which pointers take part in. -/
inductive AddOp where
  | add | sub
  deriving DecidableEq

/-- Products, quotients and remainders. -/
inductive MulOp where
  | mul | div | mod
  deriving DecidableEq

/-- The arithmetic operators. -/
inductive ArithOp where
  | additive (op : AddOp)
  | multiplicative (op : MulOp)
  deriving DecidableEq

/-- The comparisons. -/
inductive Comparison where
  | eq | ne | lt | le | gt | ge
  deriving DecidableEq

/-- The logical connectives. -/
inductive LogicalOp where
  | and | or
  deriving DecidableEq

/-- The operators on bits. -/
inductive BitwiseOp where
  | and | or | xor | shiftLeft | shiftRight
  deriving DecidableEq

/-- The operators with two operands. -/
inductive BinaryOp where
  | arith (op : ArithOp)
  | comparison (op : Comparison)
  | logical (op : LogicalOp)
  | bitwise (op : BitwiseOp)
  | assign
  | compoundAssign (op : ArithOp)
  deriving DecidableEq

/-- The operators with one operand. -/
inductive UnaryOp where
  | neg | plus | not | bitNot
  | preInc | preDec | postInc | postDec
  | deref | addressOf
  deriving DecidableEq

/-! ## Signs -/

/-- The sign of a sum or difference. -/
def AddOp.symbol : AddOp → String
  | add => "+"
  | sub => "-"

/-- The sign of a product, quotient or remainder. -/
def MulOp.symbol : MulOp → String
  | mul => "*"
  | div => "/"
  | mod => "%"

/-- The sign of an arithmetic operator. -/
def ArithOp.symbol : ArithOp → String
  | additive op => op.symbol
  | multiplicative op => op.symbol

/-- The sign of a comparison. -/
def Comparison.symbol : Comparison → String
  | eq => "=="
  | ne => "!="
  | lt => "<"
  | le => "<="
  | gt => ">"
  | ge => ">="

/-- The sign of a logical connective. -/
def LogicalOp.symbol : LogicalOp → String
  | and => "&&"
  | or => "||"

/-- The sign of an operator on bits. -/
def BitwiseOp.symbol : BitwiseOp → String
  | and => "&"
  | or => "|"
  | xor => "^"
  | shiftLeft => "<<"
  | shiftRight => ">>"

/-- The sign of a binary operator. -/
def BinaryOp.symbol : BinaryOp → String
  | arith op => op.symbol
  | comparison op => op.symbol
  | logical op => op.symbol
  | bitwise op => op.symbol
  | assign => "="
  | compoundAssign op => op.symbol ++ "="

/-- The sign of a unary operator. -/
def UnaryOp.symbol : UnaryOp → String
  | neg => "-"
  | plus => "+"
  | not => "!"
  | bitNot => "~"
  | preInc | postInc => "++"
  | preDec | postDec => "--"
  | deref => "*"
  | addressOf => "&"

/-! ## Classes of binary operators -/

namespace BinaryOp

/-- The operators that store into their left operand. -/
def isAssignment : BinaryOp → Bool
  | assign | compoundAssign _ => true
  | _ => false

/-- The operators that pointers take part in. -/
def isAdditive : BinaryOp → Bool
  | arith (.additive _) => true
  | _ => false

/-- Products, quotients and remainders. -/
def isMultiplicative : BinaryOp → Bool
  | arith (.multiplicative _) => true
  | _ => false

/-- The operators whose value is a truth value. -/
def isComparison : BinaryOp → Bool
  | comparison _ => true
  | _ => false

end BinaryOp

end MiniC
