import MiniC.Source.Cursor
import MiniC.Token.Basic
import MiniC.Token.LexError

/-!
# From characters to tokens

`tokenize` splits a source text into tokens. Blanks, line comments, block comments and everything
from a number sign to the end of its line are skipped. A token is the longest one that begins
where the skipped text ends; its place is that of its first character.
-/

set_option autoImplicit false

namespace MiniC

/-! ## Text between tokens -/

/-- The characters that separate tokens. -/
def isBlank (c : Char) : Bool :=
  c = ' ' || c = '\t' || c = '\r' || c = '\n'

/-- The kind of skipped text that surrounds a reading position. -/
inductive Gap where
  /-- Blanks, or nothing. -/
  | blank
  /-- A comment or a directive that ends with its line. -/
  | line
  /-- A block comment that was opened at the given place. -/
  | block (opened : Location)

/-- The cursor at the first character of the next token, or at the end of the text, when reading
begins inside a gap of the given kind. -/
def skipGap : Gap → List Char → Location → Except LexError Cursor
  | .block opened, [], _ => throw ⟨.unterminatedComment, opened⟩
  | _, [], loc => pure ⟨[], loc⟩
  | .line, c :: rest, loc =>
    skipGap (if c = '\n' then .blank else .line) rest (loc.after c)
  | .block _, '*' :: '/' :: rest, loc => skipGap .blank rest (loc.afterAll ['*', '/'])
  | .block opened, c :: rest, loc => skipGap (.block opened) rest (loc.after c)
  | .blank, '/' :: '/' :: rest, loc => skipGap .line rest (loc.afterAll ['/', '/'])
  | .blank, '/' :: '*' :: rest, loc => skipGap (.block loc) rest (loc.afterAll ['/', '*'])
  | .blank, c :: rest, loc =>
    if c = '#' then skipGap .line rest (loc.after c)
    else if isBlank c then skipGap .blank rest (loc.after c)
    else pure ⟨c :: rest, loc⟩

/-! ## Literals and words -/

/-- The value of a sequence of decimal digits. -/
def decimalValue (digits : List Char) : Nat :=
  digits.foldl (fun value d => 10 * value + (d.toNat - '0'.toNat)) 0

/-- The first value that is too large for an integer literal. -/
def literalBound : Nat := 1 <<< 31

/-- The literal at a cursor that stands on a digit. -/
def scanNumber (cur : Cursor) : Except LexError (Lexeme × Cursor) :=
  let (digits, next) := cur.span Char.isDigit
  if decimalValue digits < literalBound then pure (.integer (decimalValue digits), next)
  else throw ⟨.literalTooLarge digits, cur.loc⟩

/-- The characters that may begin an identifier. -/
def isWordStart (c : Char) : Bool := c.isAlpha || c = '_'

/-- The characters that may continue an identifier. -/
def isWordChar (c : Char) : Bool := c.isAlphanum || c = '_'

/-- The keyword or identifier at a cursor that stands on the first character of one. -/
def scanWord (cur : Cursor) : Lexeme × Cursor :=
  let (chars, next) := cur.span isWordChar
  let word := String.ofList chars
  ((Keyword.ofSpelling? word).elim (.identifier word) .keyword, next)

/-- The character code that an escape denotes. -/
def escapeCode? : Char → Option Nat
  | 'n' => some 10
  | 't' => some 9
  | 'r' => some 13
  | '\\' => some 92
  | '\x27' => some 39
  | '0' => some 0
  | _ => none

/-- The code of the character inside a literal whose opening quote is read. -/
def scanCharacterCode (cur : Cursor) : Except LexError (Nat × Cursor) :=
  match cur.next? with
  | none => throw ⟨.endInCharacter, cur.loc⟩
  | some ('\\', escape) =>
    match escape.next? with
    | none => throw ⟨.endInCharacter, escape.loc⟩
    | some (c, next) =>
      match escapeCode? c with
      | some code => pure (code, next)
      | none => throw ⟨.unknownEscape c, next.loc⟩
  | some (c, next) => pure (c.toNat, next)

/-- The character literal whose opening quote is read. -/
def scanCharacter (cur : Cursor) : Except LexError (Lexeme × Cursor) := do
  let (code, closing) ← scanCharacterCode cur
  match closing.next? with
  | some ('\x27', next) => pure (.integer code, next)
  | some (_, next) => throw ⟨.unclosedCharacter, next.loc⟩
  | none => throw ⟨.unclosedCharacter, closing.loc⟩

/-! ## Tokens -/

/-- The lexeme that begins with the character `c` at a cursor. -/
def scanLexeme (c : Char) (cur : Cursor) : Except LexError (Lexeme × Cursor) :=
  if c = '\x27' then scanCharacter (cur.skip 1)
  else if c.isDigit then scanNumber cur
  else if isWordStart c then pure (scanWord cur)
  else match Punct.longest? cur.rest with
    | some sign => pure (.punct sign, cur.skip sign.chars.length)
    | none => throw ⟨.unexpectedCharacter c, cur.loc⟩

/-- The tokens from a cursor on. The bound is on the characters left: each token takes at least
one. -/
def tokensFrom : Nat → Cursor → Except LexError TokenStream
  | 0, cur => pure ⟨[], cur.loc⟩
  | bound + 1, cur => do
    let first ← skipGap .blank cur.rest cur.loc
    match first.rest with
    | [] => pure ⟨[], first.loc⟩
    | c :: _ =>
      let (lexeme, next) ← scanLexeme c first
      let following ← tokensFrom bound next
      pure ⟨⟨lexeme, first.loc⟩ :: following.tokens, following.endLoc⟩

/-- The tokens of a source text. -/
def tokenize (source : String) : Except LexError TokenStream :=
  let cur := Cursor.ofString source
  tokensFrom cur.rest.length cur

end MiniC
