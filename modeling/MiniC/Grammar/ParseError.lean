import MiniC.Token.Basic
import MiniC.Token.LexError

/-!
# Faults of a source text

A `ParseFault` is a reason why a text is no program; a `ParseError` is a reason with the place that
it is reported for. The punctuators that the grammar demands in fixed places are listed as
`Delimiter`s, each with its sign and its place in words.
-/

set_option autoImplicit false

namespace MiniC

/-! ## Demanded punctuators -/

/-- The places of the grammar where one punctuator and no other may stand. -/
inductive Delimiter where
  | castClose | sizeofClose | subscriptClose | parenClose | argumentsClose
  | variableEnd | arraySizeClose | parameterArrayClose | parametersClose
  | functionBodyClose | functionEnd | blockClose | expressionEnd | returnEnd
  | ifOpen | ifClose | whileOpen | whileClose
  | forOpen | forInitEnd | forConditionEnd | forClose
  deriving DecidableEq

namespace Delimiter

/-- The punctuator that is demanded. -/
def sign : Delimiter → Punct
  | ifOpen | whileOpen | forOpen => .leftParen
  | castClose | sizeofClose | parenClose | argumentsClose | parametersClose => .rightParen
  | ifClose | whileClose | forClose => .rightParen
  | subscriptClose | arraySizeClose | parameterArrayClose => .rightBracket
  | functionBodyClose | blockClose => .rightBrace
  | variableEnd | functionEnd | expressionEnd | returnEnd => .semicolon
  | forInitEnd | forConditionEnd => .semicolon

/-- The place of the punctuator, in words that follow its sign. -/
def place : Delimiter → String
  | castClose => "after cast type"
  | sizeofClose => "after sizeof type"
  | subscriptClose => "after array index"
  | parenClose => "after expression"
  | argumentsClose => "after function arguments"
  | variableEnd => "after variable declaration"
  | arraySizeClose => "after array size"
  | parameterArrayClose => "in array parameter"
  | parametersClose => "after parameters"
  | functionBodyClose => "after function body"
  | functionEnd => "or function body after declaration"
  | blockClose => "after block"
  | expressionEnd => "after expression"
  | returnEnd => "after return"
  | ifOpen => "after 'if'"
  | ifClose => "after if condition"
  | whileOpen => "after 'while'"
  | whileClose => "after while condition"
  | forOpen => "after 'for'"
  | forInitEnd => "after for init"
  | forConditionEnd => "after for condition"
  | forClose => "after for clauses"

end Delimiter

/-! ## Faults -/

/-- Why a text is no program. What was found instead is missing at the end of the file. -/
inductive ParseFault where
  /-- The text has no tokens. -/
  | lexical (fault : LexFault)
  | expectedDelimiter (delimiter : Delimiter) (found : Option Lexeme)
  | expectedIdentifier (found : Option Lexeme)
  | expectedType (found : Option Lexeme)
  /-- No expression begins with this token. -/
  | unexpectedToken (found : Option Lexeme)
  /-- No enclosing scope declares a name. -/
  | undeclared (name : String)
  /-- A variable is called. -/
  | notAFunction (name : String)
  /-- A scope declares a name twice. -/
  | redefinition (name : String)
  /-- A function has the name of a variable of the file. -/
  | differentKind (name : String)
  /-- A function has a second body. -/
  | functionRedefinition (name : String)
  | voidVariable (name : String)
  | voidParameter
  | arraySize
  | multiDimensional
  | arrayInitializer
  deriving DecidableEq

/-- The wording of a fault. -/
def ParseFault.message : ParseFault → String
  | lexical fault => fault.message
  | expectedDelimiter delimiter found =>
    s!"Expected '{delimiter.sign.spelling}' {delimiter.place}, found {Lexeme.describe? found}"
  | expectedIdentifier found => s!"Expected identifier, found {Lexeme.describe? found}"
  | expectedType found => s!"Expected type, found {Lexeme.describe? found}"
  | unexpectedToken found => s!"Unexpected token: {Lexeme.describe? found}"
  | undeclared name => s!"Use of undeclared identifier '{name}'"
  | notAFunction name => s!"Called object '{name}' is not a function"
  | redefinition name => s!"Redefinition of '{name}'"
  | differentKind name => s!"Redefinition of '{name}' as a different kind of symbol"
  | functionRedefinition name => s!"Redefinition of function '{name}'"
  | voidVariable name => s!"Variable '{name}' has incomplete type 'void'"
  | voidParameter => "Parameter has incomplete type 'void'"
  | arraySize => "Array size must be a positive integer constant"
  | multiDimensional => "Multi-dimensional arrays are not supported"
  | arrayInitializer => "Array initializers are not supported"

/-- A fault and the place that it is reported for. -/
structure ParseError where
  fault : ParseFault
  loc : Location
  deriving DecidableEq

/-- The wording of an error, with its place. -/
def ParseError.message (e : ParseError) : String :=
  s!"Parse error at line {e.loc.line}, column {e.loc.column}: {e.fault.message}"

/-- A text without tokens is no program, for the same reason. -/
def LexError.toParseError (e : LexError) : ParseError := ⟨.lexical e.fault, e.loc⟩

end MiniC
