import MiniC.Grammar.ParseError
import MiniC.Grammar.Scope

/-!
# Reading a program token by token

A `Parser` reads tokens from the front of a list, adds nodes to the program built so far, keeps
track of the scopes around the reading position, and may fail. The operations here are all that the
grammar needs: looking at the next token, taking it, adding nodes, declaring and resolving names,
and repetition. A repetition takes a bound on the number of rounds; the number of tokens left always
suffices, since every round takes a token.
-/

set_option autoImplicit false

namespace MiniC

/-- What a parser works on: the tokens left, the place where the file ends, the program so far, and
the scopes around the reading position. -/
structure ParserState where
  rest : List Token
  endLoc : Location
  program : Program
  scopes : Scopes

/-- The state before the first token. -/
def ParserState.start (stream : TokenStream) : ParserState :=
  ⟨stream.tokens, stream.endLoc, .empty, .empty⟩

/-- A computation that reads tokens. -/
abbrev Parser := StateT ParserState (Except ParseError)

namespace Parser

/-! ## Tokens -/

/-- Gives up for a reason that is reported for a place. -/
def fail {α : Type} (fault : ParseFault) (loc : Location) : Parser α :=
  throw ⟨fault, loc⟩

/-- The next lexeme; nothing at the end of the file. -/
def peek : Parser (Option Lexeme) := do
  return (← get).rest.head?.map Token.lexeme

/-- The place of the next token; at the end of the file, the place where it ends. -/
def here : Parser Location := do
  let s ← get
  return (s.rest.head?.map Token.loc).getD s.endLoc

/-- The number of tokens left. -/
def remaining : Parser Nat := do
  return (← get).rest.length

/-- Takes the next token; nothing happens at the end of the file. -/
def advance : Parser Unit :=
  modify fun s => { s with rest := s.rest.tail }

/-- Whether the next token is a given one. -/
def check (lexeme : Lexeme) : Parser Bool := do
  return (← peek) = some lexeme

/-- Takes the next token if it is a given one, and says whether it was. -/
def accept (lexeme : Lexeme) : Parser Bool := do
  if ← check lexeme then
    advance
    return true
  else return false

/-- Takes a punctuator that the grammar demands. -/
def expect (delimiter : Delimiter) : Parser Unit := do
  if ← check delimiter.sign then advance
  else fail (.expectedDelimiter delimiter (← peek)) (← here)

/-- Takes an identifier. -/
def identifier : Parser String := do
  match ← peek with
  | some (.identifier name) =>
    advance
    return name
  | found => fail (.expectedIdentifier found) (← here)

/-- Gives up because of the next token. -/
def unexpected {α : Type} : Parser α := do
  fail (.unexpectedToken (← peek)) (← here)

/-! ## Nodes -/

/-- Adds an expression. -/
def addExpr (kind : ExprKind) (type : CType) (loc : Location) : Parser ExprId :=
  modifyGet fun s =>
    let (program, id) := s.program.pushExpr ⟨kind, type, loc⟩
    (id, { s with program })

/-- Adds a statement. -/
def addStmt (kind : StmtKind) (loc : Location) : Parser StmtId :=
  modifyGet fun s =>
    let (program, id) := s.program.pushStmt ⟨kind, loc⟩
    (id, { s with program })

/-- Adds a declaration. -/
def addDecl (name : String) (kind : DeclKind) (loc : Location) : Parser DeclId :=
  modifyGet fun s =>
    let (program, id) := s.program.pushDecl ⟨name, kind, loc⟩
    (id, { s with program })

/-- Adds a declaration to those of the file. -/
def addItem (item : Item) : Parser Unit :=
  modify fun s => { s with program := s.program.pushItem item }

/-- Changes a declaration. -/
def modifyDecl (d : DeclId) (f : Decl → Decl) : Parser Unit :=
  modify fun s => { s with program := s.program.modifyDecl d f }

/-- The declaration with an id. -/
def declOf (d : DeclId) : Parser Decl := do
  return (← get).program.decl d

/-- The static type of an expression. -/
def typeOf (e : ExprId) : Parser CType := do
  return ((← get).program.expr e).type

/-! ## Names -/

/-- Runs a parser inside a scope of its own. -/
def inScope {α : Type} (body : Parser α) : Parser α := do
  modify fun s => { s with scopes := s.scopes.enter }
  let result ← body
  modify fun s => { s with scopes := s.scopes.leave }
  return result

/-- Gives a name a meaning in the innermost scope, which must not have it yet. -/
def declare (name : String) (d : DeclId) (loc : Location) : Parser Unit := do
  if ((← get).scopes.innermost.lookup name).isSome then fail (.redefinition name) loc
  else modify fun s => { s with scopes := s.scopes.declare name d }

/-- Gives a name a meaning in the whole file. -/
def declareInFile (name : String) (d : DeclId) : Parser Unit :=
  modify fun s => { s with scopes := s.scopes.declareInFile name d }

/-- What a name means. -/
def resolve (name : String) (loc : Location) : Parser DeclId := do
  match (← get).scopes.resolve? name with
  | some d => return d
  | none => fail (.undeclared name) loc

/-- What a name means in the whole file, if it has a meaning there. -/
def resolveInFile? (name : String) : Parser (Option DeclId) := do
  return (← get).scopes.file.lookup name

/-! ## Repetition -/

/-- Reads items until a condition holds, at most as many as the bound. -/
def repeatUntil {α : Type} (stop : Parser Bool) (item : Parser α) : Nat → Parser (List α)
  | 0 => return []
  | bound + 1 => do
    if ← stop then return []
    let first ← item
    let others ← repeatUntil stop item bound
    return first :: others

/-- Reads items that are each preceded by a comma, at most as many as the bound. -/
def afterCommas {α : Type} (item : Parser α) : Nat → Parser (List α)
  | 0 => return []
  | bound + 1 => do
    if ← accept Punct.comma then
      let first ← item
      let others ← afterCommas item bound
      return first :: others
    else return []

/-- Reads one or more items separated by commas. -/
def commaSeparated {α : Type} (item : Parser α) : Parser (List α) := do
  let first ← item
  let others ← afterCommas item (← remaining)
  return first :: others

end Parser

end MiniC
