import MiniC.Grammar.Parser

/-!
# Types as they are written

A written type is a base type followed by any number of stars.
-/

set_option autoImplicit false

namespace MiniC

/-- The base type that a lexeme writes. -/
def Lexeme.baseType? : Lexeme → Option BaseType
  | .keyword .intKw => some .int
  | .keyword .charKw => some .char
  | .keyword .voidKw => some .void
  | _ => none

namespace Parser

/-- Whether a base type comes next. -/
def startsType : Parser Bool := do
  return ((← peek).bind Lexeme.baseType?).isSome

/-- Whether an opening parenthesis and then a base type come next. -/
def startsParenthesisedType : Parser Bool := do
  match (← get).rest with
  | first :: second :: _ => return first.lexeme = Punct.leftParen && second.lexeme.baseType?.isSome
  | _ => return false

/-- A base type. -/
def baseType : Parser CType := do
  let found ← peek
  match found.bind Lexeme.baseType? with
  | some base =>
    advance
    return .ofBase base
  | none => fail (.expectedType found) (← here)

/-- Takes stars, at most as many as the bound; each puts a pointer level on the type. -/
def starsWithin : Nat → CType → Parser CType
  | 0, type => return type
  | bound + 1, type => do
    if ← accept Punct.star then starsWithin bound type.withPointer else return type

/-- The stars that follow a base type. -/
def stars (type : CType) : Parser CType := do
  starsWithin (← remaining) type

/-- A written type. -/
def typeName : Parser CType := do
  stars (← baseType)

end Parser

end MiniC
