import MiniC.Grammar.Statement
import MiniC.Token.Lexer

/-!
# Files

A file is a sequence of declarations of variables and functions. A function may be declared any
number of times and defined once; all its declarations share one id, the return type is that of the
first, and the definition supplies the parameters and the body. `Program.parse` reads a whole file.
-/

set_option autoImplicit false

namespace MiniC

/-- Whether a declaration is that of a function with a body. -/
def Decl.hasBody (d : Decl) : Bool :=
  match d.kind with
  | .function _ _ (some _) => true
  | _ => false

/-- Gives a function the parameters and the place of its definition. -/
def Decl.withParams (params : List DeclId) (loc : Location) (d : Decl) : Decl :=
  match d.kind with
  | .function returnType _ body => { d with kind := .function returnType params body, loc }
  | .variable .. => { d with loc }

/-- Gives a function its body. -/
def Decl.withBody (body : StmtId) (d : Decl) : Decl :=
  match d.kind with
  | .function returnType params _ => { d with kind := .function returnType params (some body) }
  | .variable .. => d

namespace Parser

/-! ## Parameters -/

/-- The name of a parameter, which may be missing. -/
def parameterName : Parser String := do
  match ← peek with
  | some (.identifier name) =>
    advance
    return name
  | _ => return ""

/-- The type of a parameter, with the array length that may follow its name; a missing length is
zero. -/
def parameterType (type : CType) : Parser CType := do
  if ← accept Punct.leftBracket then
    let length ← match ← peek with
      | some (.integer n) => do
        advance
        pure n
      | _ => pure 0
    expect .parameterArrayClose
    return type.withLength length
  else return type

/-- A parameter. -/
def parameter : Parser DeclId := do
  let type ← typeName
  let loc ← here
  let name ← parameterName
  let type ← parameterType type
  if type.isVoid then fail .voidParameter loc
  let d ← addDecl name (.variable type none .param) loc
  unless name.isEmpty do declare name d loc
  return d

/-- Whether the word `void` and a closing parenthesis come next, which state that there are no
parameters. -/
def startsVoidList : Parser Bool := do
  match (← get).rest with
  | first :: second :: _ =>
    return first.lexeme = Keyword.voidKw && second.lexeme = Punct.rightParen
  | _ => return false

/-- The parameters of a function, up to the closing parenthesis. -/
def parameters : Parser (List DeclId) := do
  if ← check Punct.rightParen then return []
  else if ← startsVoidList then
    advance
    return []
  else commaSeparated parameter

/-! ## Functions -/

/-- The declaration that a function's name stands for: that of the name in the file, or a new
one. -/
def functionDecl (returnType : CType) (name : String) (loc : Location) (params : List DeclId) :
    Parser DeclId := do
  match ← resolveInFile? name with
  | some d =>
    unless (← declOf d).isFunction do fail (.differentKind name) loc
    return d
  | none =>
    let d ← addDecl name (.function returnType params none) loc
    declareInFile name d
    addItem (.function d)
    return d

/-- The body of a function whose opening brace was at `opening`. -/
def functionBody (d : DeclId) (name : String) (loc opening : Location) (params : List DeclId) :
    Parser Unit := do
  if (← declOf d).hasBody then fail (.functionRedefinition name) loc
  modifyDecl d (Decl.withParams params loc)
  let statements ← functionStatements
  expect .functionBodyClose
  let body ← addStmt (.block statements) opening
  modifyDecl d (Decl.withBody body)

/-- What follows the opening parenthesis of a function; the parameters and the body share a
scope. -/
def functionRest (returnType : CType) (name : String) (loc : Location) : Parser Unit := inScope do
  let params ← parameters
  expect .parametersClose
  let d ← functionDecl returnType name loc params
  let opening ← here
  if ← accept Punct.leftBrace then functionBody d name loc opening params
  else expect .functionEnd

/-! ## Files -/

/-- A declaration of variables or of a function. -/
def topLevel : Parser Unit := do
  let _ ← accept Keyword.externKw
  let base ← baseType
  let type ← stars base
  let loc ← here
  let name ← identifier
  if ← accept Punct.leftParen then functionRest type name loc
  else
    let first ← variableRest type name loc .global
    let others ← otherDeclarators base .global
    (first :: others).forM fun d => addItem (.variable d)

/-- Whether no token is left. -/
def atEnd : Parser Bool := do
  return (← peek).isNone

/-- All declarations of a file. -/
def translationUnit : Parser Unit := do
  let _ ← repeatUntil atEnd topLevel (← remaining)

end Parser

/-- The program of a list of tokens. -/
def Program.ofTokens (stream : TokenStream) : Except ParseError Program :=
  (Parser.translationUnit.run (.start stream)).map fun result => result.2.program

/-- The program that a source text writes. -/
def Program.parse (source : String) : Except ParseError Program :=
  match tokenize source with
  | .ok stream => Program.ofTokens stream
  | .error e => .error e.toParseError

end MiniC
