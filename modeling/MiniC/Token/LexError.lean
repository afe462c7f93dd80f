import MiniC.Source.Location

/-!
# Faults of a source text below the level of tokens

A `LexFault` is a reason why a text has no tokens; a `LexError` is a reason with a place.
-/

set_option autoImplicit false

namespace MiniC

/-- Why no token can be read. -/
inductive LexFault where
  /-- No token begins with this character. -/
  | unexpectedCharacter (c : Char)
  /-- A block comment is not closed. -/
  | unterminatedComment
  /-- A decimal numeral denotes no value below `2 ^ 31`. -/
  | literalTooLarge (digits : List Char)
  /-- The text ends inside a character literal. -/
  | endInCharacter
  /-- A backslash in a character literal is followed by a character that names no escape. -/
  | unknownEscape (c : Char)
  /-- A character literal holds more than one character. -/
  | unclosedCharacter
  deriving DecidableEq

/-- The wording of a fault. -/
def LexFault.message : LexFault → String
  | unexpectedCharacter c => s!"Unexpected character: '{c}'"
  | unterminatedComment => "Unterminated block comment"
  | literalTooLarge digits => s!"Invalid integer literal: {String.ofList digits}"
  | endInCharacter => "Unexpected end of file in character literal"
  | unknownEscape c => s!"Unknown escape sequence: \\{c}"
  | unclosedCharacter => "Expected closing quote in character literal"

/-- A fault and the place that it is reported for. -/
structure LexError where
  fault : LexFault
  loc : Location
  deriving DecidableEq

/-- The wording of an error, with its place. -/
def LexError.message (e : LexError) : String :=
  s!"Lexer error at line {e.loc.line}, column {e.loc.column}: {e.fault.message}"

end MiniC
