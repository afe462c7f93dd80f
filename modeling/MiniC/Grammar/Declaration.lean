import MiniC.Grammar.Expression

/-!
# Variables

A declaration of variables is a base type and one or more declarators, each with its own stars, an
optional array length and an optional initialiser. A variable is in scope from the end of its
declarator on, so its initialiser can mention it.
-/

set_option autoImplicit false

namespace MiniC

/-- Sets the initialiser of a variable. -/
def Decl.withInit (init : ExprId) (d : Decl) : Decl :=
  match d.kind with
  | .variable type _ storage => { d with kind := .variable type (some init) storage }
  | .function .. => d

namespace Parser

/-- The length of an array variable, up to the closing bracket. -/
def arrayLength : Parser Nat := do
  match ← peek with
  | some (.integer (n + 1)) =>
    advance
    expect .arraySizeClose
    return n + 1
  | _ => fail .arraySize (← here)

/-- The type of a variable, with the array length that may follow its name. -/
def variableType (type : CType) : Parser CType := do
  if ← accept Punct.leftBracket then
    let length ← arrayLength
    if ← check Punct.leftBracket then fail .multiDimensional (← here)
    return type.withLength length
  else return type

/-- What follows the name of a variable in its declarator. -/
def variableRest (type : CType) (name : String) (loc : Location) (storage : Storage) :
    Parser DeclId := do
  let type ← variableType type
  if type.isVoid then fail (.voidVariable name) loc
  let d ← addDecl name (.variable type none storage) loc
  declare name d loc
  let equals ← here
  if ← accept Punct.assign then
    if type.isArray then fail .arrayInitializer equals
    let init ← expression
    modifyDecl d (Decl.withInit init)
  return d

/-- A declarator over a base type. -/
def declarator (base : CType) (storage : Storage) : Parser DeclId := do
  let type ← stars base
  let loc ← here
  let name ← identifier
  variableRest type name loc storage

/-- The declarators after the first, up to the end of the declaration. -/
def otherDeclarators (base : CType) (storage : Storage) : Parser (List DeclId) := do
  let others ← afterCommas (declarator base storage) (← remaining)
  expect .variableEnd
  return others

/-- A declaration of variables inside a function. -/
def localDeclaration : Parser (List DeclId) := do
  let base ← baseType
  let first ← declarator base .local
  let others ← otherDeclarators base .local
  return first :: others

end Parser

end MiniC
