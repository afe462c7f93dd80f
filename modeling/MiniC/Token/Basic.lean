import MiniC.Source.Location

/-!
# Tokens

A token is a lexeme with the place of its first character. A lexeme is an integer literal, an
identifier, a keyword or a punctuator; keywords and punctuators know their own spelling
(`Keyword.spelling`, `Punct.spelling`), from which the lexer recognises them and error messages
describe them.
-/

set_option autoImplicit false

namespace MiniC

/-! ## Keywords -/

/-- The reserved words. -/
inductive Keyword where
  | intKw | charKw | voidKw | externKw | ifKw | elseKw | whileKw | forKw | returnKw | sizeofKw
  deriving DecidableEq

namespace Keyword

/-- Every keyword, each once. -/
def all : List Keyword :=
  [.intKw, .charKw, .voidKw, .externKw, .ifKw, .elseKw, .whileKw, .forKw, .returnKw, .sizeofKw]

theorem mem_all (word : Keyword) : word ∈ all := by
  cases word <;> decide

/-- The text of a keyword. -/
def spelling : Keyword → String
  | .intKw => "int"
  | .charKw => "char"
  | .voidKw => "void"
  | .externKw => "extern"
  | .ifKw => "if"
  | .elseKw => "else"
  | .whileKw => "while"
  | .forKw => "for"
  | .returnKw => "return"
  | .sizeofKw => "sizeof"

/-- The keyword that a word spells, if it is reserved. -/
def ofSpelling? (word : String) : Option Keyword :=
  all.find? fun k => k.spelling = word

end Keyword

/-! ## Punctuators -/

/-- The operator signs, brackets and separators. -/
inductive Punct where
  | plusPlus | plusAssign | minusMinus | minusAssign | starAssign | slashAssign | percentAssign
  | eqEq | notEq | le | shiftLeft | ge | shiftRight | andAnd | orOr
  | plus | minus | star | slash | percent | assign | bang | lt | gt | amp | pipe | caret | tilde
  | leftParen | rightParen | leftBrace | rightBrace | leftBracket | rightBracket
  | semicolon | comma
  deriving DecidableEq

namespace Punct

/-- Every punctuator, each once, those of two characters before those of one. -/
def all : List Punct :=
  [.plusPlus, .plusAssign, .minusMinus, .minusAssign, .starAssign, .slashAssign, .percentAssign,
    .eqEq, .notEq, .le, .shiftLeft, .ge, .shiftRight, .andAnd, .orOr,
    .plus, .minus, .star, .slash, .percent, .assign, .bang, .lt, .gt, .amp, .pipe, .caret, .tilde,
    .leftParen, .rightParen, .leftBrace, .rightBrace, .leftBracket, .rightBracket,
    .semicolon, .comma]

theorem mem_all (sign : Punct) : sign ∈ all := by
  cases sign <;> decide

/-- The characters of a punctuator. -/
def chars : Punct → List Char
  | .plusPlus => ['+', '+']
  | .plusAssign => ['+', '=']
  | .minusMinus => ['-', '-']
  | .minusAssign => ['-', '=']
  | .starAssign => ['*', '=']
  | .slashAssign => ['/', '=']
  | .percentAssign => ['%', '=']
  | .eqEq => ['=', '=']
  | .notEq => ['!', '=']
  | .le => ['<', '=']
  | .shiftLeft => ['<', '<']
  | .ge => ['>', '=']
  | .shiftRight => ['>', '>']
  | .andAnd => ['&', '&']
  | .orOr => ['|', '|']
  | .plus => ['+']
  | .minus => ['-']
  | .star => ['*']
  | .slash => ['/']
  | .percent => ['%']
  | .assign => ['=']
  | .bang => ['!']
  | .lt => ['<']
  | .gt => ['>']
  | .amp => ['&']
  | .pipe => ['|']
  | .caret => ['^']
  | .tilde => ['~']
  | .leftParen => ['(']
  | .rightParen => [')']
  | .leftBrace => ['{']
  | .rightBrace => ['}']
  | .leftBracket => ['[']
  | .rightBracket => [']']
  | .semicolon => [';']
  | .comma => [',']

/-- The text of a punctuator. -/
def spelling (p : Punct) : String := String.ofList p.chars

/-- The longest punctuator with which a text begins. -/
def longest? (text : List Char) : Option Punct :=
  all.find? fun p => p.chars.isPrefixOf text

end Punct

/-! ## Lexemes and tokens -/

/-- What a token says, apart from its place. The value of an integer literal is below `2 ^ 31`. -/
inductive Lexeme where
  | integer (value : Nat)
  | identifier (name : String)
  | keyword (word : Keyword)
  | punct (sign : Punct)
  deriving DecidableEq

namespace Lexeme

instance : Coe Keyword Lexeme := ⟨keyword⟩

instance : Coe Punct Lexeme := ⟨punct⟩

/-- A lexeme as error messages name it. -/
def describe : Lexeme → String
  | integer value => s!"int literal {value}"
  | identifier name => s!"identifier '{name}'"
  | keyword word => s!"'{word.spelling}'"
  | punct sign => s!"'{sign.spelling}'"

/-- What stands at a reading position, where nothing is left at the end of the file. -/
def describe? : Option Lexeme → String
  | some lexeme => lexeme.describe
  | none => "end of file"

end Lexeme

/-- A lexeme and the place of its first character. -/
structure Token where
  lexeme : Lexeme
  loc : Location
  deriving DecidableEq

/-- The tokens of a source text in order, and the place where the text ends. -/
structure TokenStream where
  tokens : List Token
  endLoc : Location

end MiniC
