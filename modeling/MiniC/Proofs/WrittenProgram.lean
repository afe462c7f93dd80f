import MiniC.Grammar.TranslationUnit

/-!
# Programs as they are written

A written program is the tree that the grammar sees in a sequence of lexemes: without places, with
names that are not resolved, and with every pair of parentheses as a node of its own. `lexemes`
spells a tree out again. Not every tree can be read back from its lexemes: an operand must bind
tightly enough (`Written.Expr.WellFormed`, after `Written.Expr.level`), and the first branch of an
`if` with an `else` must not end in an `if` without one (`Written.Stmt.endsOpen`).
-/

set_option autoImplicit false

namespace MiniC

/-! ## Operators and their signs -/

/-- The sign of a binary operator. -/
def BinaryOp.sign : BinaryOp → Punct
  | .logical .or => .orOr
  | .logical .and => .andAnd
  | .bitwise .or => .pipe
  | .bitwise .xor => .caret
  | .bitwise .and => .amp
  | .bitwise .shiftLeft => .shiftLeft
  | .bitwise .shiftRight => .shiftRight
  | .comparison .eq => .eqEq
  | .comparison .ne => .notEq
  | .comparison .lt => .lt
  | .comparison .le => .le
  | .comparison .gt => .gt
  | .comparison .ge => .ge
  | .arith (.additive .add) => .plus
  | .arith (.additive .sub) => .minus
  | .arith (.multiplicative .mul) => .star
  | .arith (.multiplicative .div) => .slash
  | .arith (.multiplicative .mod) => .percent
  | .assign => .assign
  | .compoundAssign (.additive .add) => .plusAssign
  | .compoundAssign (.additive .sub) => .minusAssign
  | .compoundAssign (.multiplicative .mul) => .starAssign
  | .compoundAssign (.multiplicative .div) => .slashAssign
  | .compoundAssign (.multiplicative .mod) => .percentAssign

/-- How tightly a binary operator binds: zero for assignments, and one more than its position among
the left-associative levels otherwise. -/
def BinaryOp.level : BinaryOp → Nat
  | .assign | .compoundAssign _ => 0
  | .logical .or => 1
  | .logical .and => 2
  | .bitwise .or => 3
  | .bitwise .xor => 4
  | .bitwise .and => 5
  | .comparison .eq | .comparison .ne => 6
  | .comparison _ => 7
  | .bitwise _ => 8
  | .arith (.additive _) => 9
  | .arith (.multiplicative _) => 10

/-- The sign of a unary operator. -/
def UnaryOp.sign : UnaryOp → Punct
  | .neg => .minus
  | .plus => .plus
  | .not => .bang
  | .bitNot => .tilde
  | .preInc | .postInc => .plusPlus
  | .preDec | .postDec => .minusMinus
  | .deref => .star
  | .addressOf => .amp

/-- Whether a unary operator comes after its operand. -/
def UnaryOp.trails : UnaryOp → Bool
  | .postInc | .postDec => true
  | _ => false

/-- The word for a base type. -/
def BaseType.word : BaseType → Keyword
  | .int => .intKw
  | .char => .charKw
  | .void => .voidKw

/-- Every binary operator, each once. -/
def BinaryOp.all : List BinaryOp :=
  [.logical .or, .logical .and, .bitwise .or, .bitwise .xor, .bitwise .and, .bitwise .shiftLeft,
    .bitwise .shiftRight, .comparison .eq, .comparison .ne, .comparison .lt, .comparison .le,
    .comparison .gt, .comparison .ge, .arith (.additive .add), .arith (.additive .sub),
    .arith (.multiplicative .mul), .arith (.multiplicative .div), .arith (.multiplicative .mod),
    .assign, .compoundAssign (.additive .add), .compoundAssign (.additive .sub),
    .compoundAssign (.multiplicative .mul), .compoundAssign (.multiplicative .div),
    .compoundAssign (.multiplicative .mod)]

theorem BinaryOp.mem_all (op : BinaryOp) : op ∈ all := by
  rcases op with
    ((_ | _) | (_ | _ | _)) | (_ | _ | _ | _ | _ | _) | (_ | _) | (_ | _ | _ | _ | _) | _ |
    (_ | _) | (_ | _ | _) <;> decide

/-- Assignments are the operators that bind least tightly. -/
theorem BinaryOp.level_eq_zero_iff {op : BinaryOp} : op.level = 0 ↔ op.isAssignment = true := by
  have h : ∀ op ∈ all, op.level = 0 ↔ op.isAssignment = true := by decide
  exact h op op.mem_all

/-- There are ten levels besides that of the assignments. -/
theorem BinaryOp.level_le (op : BinaryOp) : op.level ≤ 10 := by
  have h : ∀ op ∈ all, op.level ≤ 10 := by decide
  exact h op op.mem_all

/-- Whether an operator is an assignment is seen from its sign. -/
theorem BinaryOp.assignment?_sign (op : BinaryOp) :
    op.sign.assignment? = if op.isAssignment then some op else none := by
  have h : ∀ op ∈ all, op.sign.assignment? = if op.isAssignment then some op else none := by decide
  exact h op op.mem_all

/-- The sign of an operator is one of its own level and of no other. -/
theorem BinaryOp.operator?_sign (op : BinaryOp) {k : Nat} (hk : k < binaryLevels.length) :
    binaryLevels[k].operator? op.sign = if op.level = k + 1 then some op else none := by
  have h : ∀ op ∈ all, ∀ k : Fin binaryLevels.length,
      (binaryLevels.get k).operator? op.sign = if op.level = k.val + 1 then some op else none := by
        decide
  exact h op op.mem_all ⟨k, hk⟩

/-- Different operators have different signs. -/
theorem BinaryOp.sign_injective {op op' : BinaryOp} (h : op.sign = op'.sign) : op = op' := by
  have hall : ∀ op ∈ all, ∀ op' ∈ all, op.sign = op'.sign → op = op' := by decide
  exact hall op op.mem_all op' op'.mem_all h

/-- What a sign is read as is written with it. -/
theorem Punct.sign_of_assignment? {sign : Punct} {op : BinaryOp} (h : sign.assignment? = some op) :
    op.sign = sign ∧ op.isAssignment = true := by
  have hall : ∀ sign ∈ all, ∀ op ∈ sign.assignment?, op.sign = sign ∧ op.isAssignment = true := by
    decide
  exact hall sign sign.mem_all op h

theorem Punct.sign_of_unary? {sign : Punct} {op : UnaryOp} (h : sign.unary? = some op) :
    op.sign = sign ∧ op.trails = false := by
  have hall : ∀ sign ∈ all, ∀ op ∈ sign.unary?, op.sign = sign ∧ op.trails = false := by decide
  exact hall sign sign.mem_all op h

/-- An operator of a level is read from its own sign. -/
theorem BinaryLevel.sign_of_operator? {k : Nat} (hk : k < binaryLevels.length)
    {x : Lexeme} {op : BinaryOp}
    (h : binaryLevels[k].operator? x = some op) : x = op.sign ∧ op.level = k + 1 := by
  have hall : ∀ sign ∈ Punct.all, ∀ k : Fin binaryLevels.length,
      ∀ op ∈ (binaryLevels.get k).operator? sign, op.sign = sign ∧ op.level = k.val + 1 := by decide
  cases x with
  | punct sign =>
    obtain ⟨rfl, hlevel⟩ := hall sign sign.mem_all ⟨k, hk⟩ op h
    exact ⟨rfl, hlevel⟩
  | integer _ | identifier _ | keyword _ => cases h

/-- An operator that comes before its operand is read from its sign. -/
theorem UnaryOp.unary?_sign {op : UnaryOp} (h : op.trails = false) : op.sign.unary? = some op := by
  cases op <;> first | rfl | cases h

namespace Written

/-! ## Types -/

/-- A base type with stars after it. -/
structure TypeName where
  base : BaseType
  stars : Nat

/-- The lexemes of a written type. -/
def TypeName.lexemes (t : TypeName) : List Lexeme :=
  .keyword t.base.word :: List.replicate t.stars (.punct .star)

/-- The type that is written. -/
def TypeName.type (t : TypeName) : CType := (CType.ofBase t.base).withPointers t.stars

/-! ## Expressions -/

/-- Expressions. The operand of `sizeof` is a type in parentheses or an expression. -/
inductive Expr where
  | literal (value : Nat)
  | name (x : String)
  | call (f : String) (args : List Expr)
  | paren (inner : Expr)
  | subscript (base index : Expr)
  | unary (op : UnaryOp) (operand : Expr)
  | binary (op : BinaryOp) (lhs rhs : Expr)
  | cast (type : TypeName) (operand : Expr)
  | sizeOfType (type : TypeName)
  | sizeOf (operand : Expr)

/-- Sequences of lexemes with commas between them. -/
def inCommas : List (List Lexeme) → List Lexeme
  | [] => []
  | first :: others => first ++ others.flatMap (.punct .comma :: ·)

namespace Expr

/-- Induction over an expression and the arguments of the calls in it. -/
@[elab_as_elim, induction_eliminator]
theorem induction {motive : Expr → Prop} (literal : ∀ value, motive (.literal value))
    (name : ∀ x, motive (.name x))
    (call : ∀ f args, (∀ arg ∈ args, motive arg) → motive (.call f args))
    (paren : ∀ inner, motive inner → motive (.paren inner))
    (subscript : ∀ base index, motive base → motive index → motive (.subscript base index))
    (unary : ∀ op operand, motive operand → motive (.unary op operand))
    (binary : ∀ op lhs rhs, motive lhs → motive rhs → motive (.binary op lhs rhs))
    (cast : ∀ type operand, motive operand → motive (.cast type operand))
    (sizeOfType : ∀ type, motive (.sizeOfType type))
    (sizeOf : ∀ operand, motive operand → motive (.sizeOf operand)) (e : Expr) : motive e :=
  @rec motive (fun args => ∀ arg ∈ args,
    motive arg) literal name call paren subscript unary binary cast
    sizeOfType sizeOf (by simp) (fun _ _ h hs => List.forall_mem_cons.2 ⟨h, hs⟩) e

/-- How tightly the outermost operator of an expression binds its operands. -/
def level : Expr → Nat
  | .binary op _ _ => op.level
  | .cast .. => 11
  | .unary op _ => if op.trails then 13 else 12
  | .sizeOfType _ | .sizeOf _ => 12
  | .subscript .. => 13
  | .literal _ | .name _ | .call .. | .paren _ => 14

mutual

/-- Operands bind at least as tightly as the grammar demands; the right operand of a
left-associative operator binds more tightly than the operator itself. -/
def WellFormed : Expr → Prop
  | .literal _ | .name _ | .sizeOfType _ => True
  | .call _ args => EachWellFormed args
  | .paren inner => inner.WellFormed
  | .subscript base index => base.WellFormed ∧ 13 ≤ base.level ∧ index.WellFormed
  | .unary op operand => operand.WellFormed ∧ (if op.trails then 13 else 11) ≤ operand.level
  | .binary op lhs rhs =>
    lhs.WellFormed ∧ rhs.WellFormed ∧
      if op.isAssignment then 1 ≤ lhs.level else op.level ≤ lhs.level ∧ op.level < rhs.level
  | .cast _ operand => operand.WellFormed ∧ 11 ≤ operand.level
  | .sizeOf operand => operand.WellFormed ∧ 12 ≤ operand.level

/-- The same of every argument of a call. -/
def EachWellFormed : List Expr → Prop
  | [] => True
  | arg :: args => arg.WellFormed ∧ EachWellFormed args

end

mutual

/-- The lexemes of an expression. -/
def lexemes : Expr → List Lexeme
  | .literal value => [.integer value]
  | .name x => [.identifier x]
  | .call f args =>
    .identifier f :: .punct .leftParen :: (inCommas (lexemesOfEach args) ++ [.punct .rightParen])
  | .paren inner => .punct .leftParen :: (inner.lexemes ++ [.punct .rightParen])
  | .subscript base index =>
    base.lexemes ++ .punct .leftBracket :: (index.lexemes ++ [.punct .rightBracket])
  | .unary op operand =>
    if op.trails then operand.lexemes ++ [.punct op.sign] else .punct op.sign :: operand.lexemes
  | .binary op lhs rhs => lhs.lexemes ++ .punct op.sign :: rhs.lexemes
  | .cast type operand =>
    .punct .leftParen :: (type.lexemes ++ .punct .rightParen :: operand.lexemes)
  | .sizeOfType type =>
    .keyword .sizeofKw :: .punct .leftParen :: (type.lexemes ++ [.punct .rightParen])
  | .sizeOf operand => .keyword .sizeofKw :: operand.lexemes

/-- The lexemes of every argument of a call. -/
def lexemesOfEach : List Expr → List (List Lexeme)
  | [] => []
  | arg :: args => arg.lexemes :: lexemesOfEach args

end

theorem eachWellFormed_iff {args : List Expr} :
    EachWellFormed args ↔ ∀ arg ∈ args, arg.WellFormed := by
  induction args with
  | nil => simp [EachWellFormed]
  | cons arg args ih => simp [EachWellFormed, ih]

theorem lexemesOfEach_eq_map (args : List Expr) : lexemesOfEach args = args.map lexemes := by
  induction args with
  | nil => rfl
  | cons arg args ih => rw [lexemesOfEach, ih, List.map_cons]

end Expr

/-- The lexemes of an expression that may be missing. -/
def optionalLexemes : Option Expr → List Lexeme
  | none => []
  | some e => e.lexemes

/-! ## Variables -/

/-- A declarator over a base type. -/
structure Declarator where
  stars : Nat
  name : String
  length : Option Nat
  init : Option Expr

namespace Declarator

/-- The array length of a declarator, in brackets. -/
def lengthLexemes (d : Declarator) : List Lexeme :=
  match d.length with
  | none => []
  | some n => [.punct .leftBracket, .integer n, .punct .rightBracket]

/-- The initialiser of a declarator, with its sign. -/
def initLexemes (d : Declarator) : List Lexeme :=
  match d.init with
  | none => []
  | some e => .punct .assign :: e.lexemes

/-- The lexemes of a declarator. -/
def lexemes (d : Declarator) : List Lexeme :=
  List.replicate d.stars (.punct .star) ++ .identifier d.name :: (d.lengthLexemes ++ d.initLexemes)

/-- The type that a declarator gives its variable. -/
def type (base : BaseType) (d : Declarator) : CType :=
  match d.length with
  | none => (CType.ofBase base).withPointers d.stars
  | some n => ((CType.ofBase base).withPointers d.stars).withLength n

/-- No variable has type `void`, lengths are positive, and arrays have no initialisers. -/
structure WellFormed (base : BaseType) (d : Declarator) : Prop where
  notVoid : (d.type base).isVoid = false
  length : d.length ≠ some 0
  array : d.length.isSome = true → d.init = none
  init : ∀ e ∈ d.init, e.WellFormed

end Declarator

/-- A declaration of one or more variables. -/
structure Declaration where
  base : BaseType
  first : Declarator
  others : List Declarator

namespace Declaration

/-- The declarators of a declaration. -/
def declarators (d : Declaration) : List Declarator := d.first :: d.others

/-- The lexemes of a declaration. -/
def lexemes (d : Declaration) : List Lexeme :=
  .keyword d.base.word :: (inCommas (d.declarators.map Declarator.lexemes) ++ [.punct .semicolon])

/-- All declarators are well formed. -/
def WellFormed (d : Declaration) : Prop := ∀ v ∈ d.declarators, v.WellFormed d.base

end Declaration

/-! ## Statements -/

/-- The first clause of a `for` statement. -/
inductive ForInit where
  | none
  | declare (d : Declaration)
  | expr (e : Expr)

namespace ForInit

/-- The lexemes of a first clause, with its semicolon. -/
def lexemes : ForInit → List Lexeme
  | .none => [.punct .semicolon]
  | .declare d => d.lexemes
  | .expr e => e.lexemes ++ [.punct .semicolon]

/-- The declaration or the expression is well formed. -/
def WellFormed : ForInit → Prop
  | .none => True
  | .declare d => d.WellFormed
  | .expr e => e.WellFormed

end ForInit

/-- Statements. -/
inductive Stmt where
  | block (body : List Stmt)
  | declare (d : Declaration)
  | expr (e : Expr)
  | ifThen (condition : Expr) (thenBranch : Stmt)
  | ifElse (condition : Expr) (thenBranch elseBranch : Stmt)
  | whileLoop (condition : Expr) (body : Stmt)
  | forLoop (init : ForInit) (condition increment : Option Expr) (body : Stmt)
  | ret (value : Option Expr)
  | empty

namespace Stmt

/-- Induction over a statement and the statements of the blocks in it. -/
@[elab_as_elim, induction_eliminator]
theorem induction {motive : Stmt → Prop}
    (block : ∀ body, (∀ stmt ∈ body, motive stmt) → motive (.block body))
    (declare : ∀ d, motive (.declare d)) (expr : ∀ e, motive (.expr e))
    (ifThen : ∀ condition thenBranch, motive thenBranch → motive (.ifThen condition thenBranch))
    (ifElse : ∀ condition thenBranch elseBranch, motive thenBranch → motive elseBranch →
      motive (.ifElse condition thenBranch elseBranch))
    (whileLoop : ∀ condition body, motive body → motive (.whileLoop condition body))
    (forLoop : ∀ init condition increment body, motive body →
      motive (.forLoop init condition increment body))
    (ret : ∀ value, motive (.ret value)) (empty : motive .empty) (stmt : Stmt) : motive stmt :=
  @rec motive (fun body => ∀ stmt ∈ body,
    motive stmt) block declare expr ifThen ifElse whileLoop forLoop ret
    empty (by simp) (fun _ _ h hs => List.forall_mem_cons.2 ⟨h, hs⟩) stmt

/-- Whether a statement ends in an `if` without `else`, so that a following `else` would belong to
it. -/
def endsOpen : Stmt → Bool
  | .ifThen .. => true
  | .ifElse _ _ branch | .whileLoop _ branch | .forLoop _ _ _ branch => branch.endsOpen
  | .block _ | .declare _ | .expr _ | .ret _ | .empty => false

mutual

/-- All parts are well formed, and every `else` belongs to the `if` that it is written for. -/
def WellFormed : Stmt → Prop
  | .block body => AllWellFormed body
  | .declare d => d.WellFormed
  | .expr e => e.WellFormed
  | .ifThen condition thenBranch => condition.WellFormed ∧ thenBranch.WellFormed
  | .ifElse condition thenBranch elseBranch =>
    condition.WellFormed ∧ thenBranch.WellFormed ∧ thenBranch.endsOpen = false ∧
      elseBranch.WellFormed
  | .whileLoop condition body => condition.WellFormed ∧ body.WellFormed
  | .forLoop init condition increment body =>
    init.WellFormed ∧ (∀ e ∈ condition, e.WellFormed) ∧
      (∀ e ∈ increment, e.WellFormed) ∧ body.WellFormed
  | .ret value => ∀ e ∈ value, e.WellFormed
  | .empty => True

/-- The same of all statements of a block. -/
def AllWellFormed : List Stmt → Prop
  | [] => True
  | stmt :: stmts => stmt.WellFormed ∧ AllWellFormed stmts

end

mutual

/-- The lexemes of a statement. -/
def lexemes : Stmt → List Lexeme
  | .block body => .punct .leftBrace :: (lexemesOfAll body ++ [.punct .rightBrace])
  | .declare d => d.lexemes
  | .expr e => e.lexemes ++ [.punct .semicolon]
  | .ifThen condition thenBranch =>
    .keyword .ifKw :: .punct .leftParen ::
      (condition.lexemes ++ .punct .rightParen :: thenBranch.lexemes)
  | .ifElse condition thenBranch elseBranch =>
    .keyword .ifKw :: .punct .leftParen ::
      (condition.lexemes ++ .punct .rightParen ::
        (thenBranch.lexemes ++ .keyword .elseKw :: elseBranch.lexemes))
  | .whileLoop condition body =>
    .keyword .whileKw :: .punct .leftParen ::
      (condition.lexemes ++ .punct .rightParen :: body.lexemes)
  | .forLoop init condition increment body =>
    .keyword .forKw :: .punct .leftParen ::
      (init.lexemes ++ (optionalLexemes condition ++ .punct .semicolon ::
        (optionalLexemes increment ++ .punct .rightParen :: body.lexemes)))
  | .ret value => .keyword .returnKw :: (optionalLexemes value ++ [.punct .semicolon])
  | .empty => [.punct .semicolon]

/-- The lexemes of the statements of a block. -/
def lexemesOfAll : List Stmt → List Lexeme
  | [] => []
  | stmt :: stmts => stmt.lexemes ++ lexemesOfAll stmts

end

theorem allWellFormed_iff {stmts : List Stmt} :
    AllWellFormed stmts ↔ ∀ stmt ∈ stmts, stmt.WellFormed := by
  induction stmts with
  | nil => simp [AllWellFormed]
  | cons stmt stmts ih => simp [AllWellFormed, ih]

end Stmt

/-! ## Functions -/

/-- A parameter. Its name may be missing, and so may the array length between its brackets. -/
structure Param where
  typeName : TypeName
  name : Option String
  length : Option (Option Nat)

namespace Param

/-- The brackets of an array parameter. -/
def lengthLexemes (p : Param) : List Lexeme :=
  match p.length with
  | none => []
  | some none => [.punct .leftBracket, .punct .rightBracket]
  | some (some n) => [.punct .leftBracket, .integer n, .punct .rightBracket]

/-- The lexemes of a parameter. -/
def lexemes (p : Param) : List Lexeme :=
  p.typeName.lexemes ++ (p.name.toList.map .identifier ++ p.lengthLexemes)

/-- The type of a parameter; a missing length is zero. -/
def type (p : Param) : CType :=
  match p.length with
  | none => p.typeName.type
  | some length => p.typeName.type.withLength (length.getD 0)

/-- No parameter has type `void`. -/
def WellFormed (p : Param) : Prop := p.type.isVoid = false

end Param

/-- The parameters of a function: the word `void`, or a list. -/
inductive Params where
  | void
  | list (params : List Param)

namespace Params

/-- The lexemes between the parentheses. -/
def lexemes : Params → List Lexeme
  | .void => [.keyword .voidKw]
  | .list params => inCommas (params.map Param.lexemes)

/-- All parameters are well formed. -/
def WellFormed : Params → Prop
  | .void => True
  | .list params => ∀ p ∈ params, p.WellFormed

end Params

/-- A declaration of a function, which may have a body. -/
structure Function where
  returnType : TypeName
  name : String
  params : Params
  body : Option (List Stmt)

namespace Function

/-- The body of a function, or the semicolon of a declaration without one. -/
def bodyLexemes (f : Function) : List Lexeme :=
  match f.body with
  | none => [.punct .semicolon]
  | some body => .punct .leftBrace :: (Stmt.lexemesOfAll body ++ [.punct .rightBrace])

/-- The lexemes of a function. -/
def lexemes (f : Function) : List Lexeme :=
  f.returnType.lexemes ++ .identifier f.name :: .punct .leftParen ::
    (f.params.lexemes ++ .punct .rightParen :: f.bodyLexemes)

/-- Parameters and statements are well formed. -/
structure WellFormed (f : Function) : Prop where
  params : f.params.WellFormed
  body : ∀ body ∈ f.body, ∀ stmt ∈ body, stmt.WellFormed

end Function

/-! ## Files -/

/-- What a declaration of the file declares. -/
inductive Item where
  | declaration (d : Declaration)
  | function (f : Function)

namespace Item

/-- The lexemes of what is declared. -/
def lexemes : Item → List Lexeme
  | .declaration d => d.lexemes
  | .function f => f.lexemes

/-- What is declared is well formed. -/
def WellFormed : Item → Prop
  | .declaration d => d.WellFormed
  | .function f => f.WellFormed

end Item

/-- A declaration of the file, which may begin with the word `extern`. -/
structure TopLevel where
  isExtern : Bool
  item : Item

/-- The lexemes of a declaration of the file. -/
def TopLevel.lexemes (d : TopLevel) : List Lexeme :=
  (if d.isExtern then [.keyword .externKw] else []) ++ d.item.lexemes

/-- The declarations of a file. -/
structure File where
  declarations : List TopLevel

namespace File

/-- The lexemes of a file. -/
def lexemes (file : File) : List Lexeme := file.declarations.flatMap TopLevel.lexemes

/-- All declarations are well formed. -/
def WellFormed (file : File) : Prop := ∀ d ∈ file.declarations, d.item.WellFormed

end File

/-- The tokens are those of the file, which can be read back from them. -/
structure Writes (stream : TokenStream) (file : File) : Prop where
  wellFormed : file.WellFormed
  lexemes : stream.tokens.map Token.lexeme = file.lexemes

end Written

end MiniC
