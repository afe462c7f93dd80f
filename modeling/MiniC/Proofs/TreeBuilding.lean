import MiniC.Proofs.WrittenProgram

/-!
# Building a program from a tree

`build` does what reading the lexemes of a tree does: it takes a token for every lexeme, adds the
same nodes and keeps the same scopes, and fails for the same undeclared or redeclared names. It
never looks at a lexeme, since the tree says what comes next.
-/

set_option autoImplicit false

namespace MiniC.Written

open MiniC.Parser

/-- Takes a number of tokens. -/
def skip : Nat → Parser Unit
  | 0 => return ()
  | n + 1 => do
    advance
    skip n

/-- Takes the tokens of a type. -/
def TypeName.build (t : TypeName) : Parser CType := do
  advance
  skip t.stars
  return t.type

/-- Parsers one after the other, with a comma before each. -/
def buildAfterCommas {α : Type} : List (Parser α) → Parser (List α)
  | [] => return []
  | x :: xs => do
    advance
    let a ← x
    let as ← buildAfterCommas xs
    return a :: as

/-- Parsers one after the other, with commas between them. -/
def buildInCommas {α : Type} : List (Parser α) → Parser (List α)
  | [] => return []
  | x :: xs => do
    let a ← x
    let as ← buildAfterCommas xs
    return a :: as

/-! ## Expressions -/

namespace Expr

mutual

/-- Builds an expression. -/
def build : Expr → Parser ExprId
  | .literal value => do
    let loc ← here
    advance
    addExpr (.intLiteral (.ofNat value)) .int loc
  | .name x => do
    let loc ← here
    advance
    let d ← resolve x loc
    addExpr (.declRef d) (← declOf d).type loc
  | .call f args => do
    let loc ← here
    advance
    let d ← resolve f loc
    unless (← declOf d).isFunction do fail (.notAFunction f) loc
    advance
    let args ← buildInCommas (buildEach args)
    advance
    addExpr (.call d args) (← declOf d).type.result loc
  | .paren inner => do
    let loc ← here
    advance
    let e ← inner.build
    advance
    addExpr (.paren e) (← typeOf e) loc
  | .subscript base index => do
    let e ← base.build
    let loc ← here
    advance
    let i ← index.build
    advance
    addExpr (.subscript e i) (← typeOf e).element loc
  | .unary op operand =>
    if op.trails then do
      let e ← operand.build
      let loc ← here
      advance
      addUnary op e loc
    else do
      let loc ← here
      advance
      let e ← operand.build
      addUnary op e loc
  | .binary op lhs rhs => do
    let l ← lhs.build
    let loc ← here
    advance
    let r ← rhs.build
    addBinary op l r loc
  | .cast type operand => do
    let loc ← here
    advance
    let type ← type.build
    advance
    let e ← operand.build
    addExpr (.cast e) type loc
  | .sizeOfType type => do
    let loc ← here
    advance
    advance
    let type ← type.build
    advance
    addExpr (.sizeOf type) .int loc
  | .sizeOf operand => do
    let loc ← here
    advance
    let e ← operand.build
    let type ← typeOf e
    addExpr (.sizeOf type) .int loc

/-- Builds every argument of a call. -/
def buildEach : List Expr → List (Parser ExprId)
  | [] => []
  | arg :: args => arg.build :: buildEach args

end

theorem buildEach_eq_map (args : List Expr) : buildEach args = args.map build := by
  induction args with
  | nil => rfl
  | cons arg args ih => rw [buildEach, ih, List.map_cons]

end Expr

/-- Builds an expression that may be missing. -/
def buildOptional : Option Expr → Parser (Option ExprId)
  | none => return none
  | some e => some <$> e.build

/-! ## Variables -/

/-- Builds what follows the name of a variable. -/
def Declarator.buildRest (base : BaseType) (d : Declarator) (loc : Location) (storage : Storage) :
    Parser DeclId := do
  skip d.lengthLexemes.length
  let v ← addDecl d.name (.variable (d.type base) none storage) loc
  declare d.name v loc
  if let some init := d.init then
    advance
    let e ← init.build
    modifyDecl v (Decl.withInit e)
  return v

/-- Builds a variable. -/
def Declarator.build (base : BaseType) (storage : Storage) (d : Declarator) : Parser DeclId := do
  skip d.stars
  let loc ← here
  advance
  d.buildRest base loc storage

/-- Builds the variables of a declaration. -/
def Declaration.build (storage : Storage) (d : Declaration) : Parser (List DeclId) := do
  advance
  let ds ← buildInCommas (d.declarators.map (Declarator.build d.base storage))
  advance
  return ds

/-! ## Statements -/

/-- Builds the first clause of a `for` statement. -/
def ForInit.build : ForInit → Parser (Option StmtId)
  | .none => do
    advance
    return Option.none
  | .declare d => do
    let loc ← here
    let ds ← d.build .local
    some <$> addStmt (.declare ds) loc
  | .expr e => do
    let loc ← here
    let e ← e.build
    advance
    some <$> addStmt (.expr e) loc

namespace Stmt

mutual

/-- Builds a statement. -/
def build : Stmt → Parser StmtId
  | .block body => do
    let loc ← here
    advance
    let ids ← inScope (buildAll body)
    advance
    addStmt (.block ids) loc
  | .declare d => do
    let loc ← here
    let ds ← d.build .local
    addStmt (.declare ds) loc
  | .expr e => do
    let loc ← here
    let e ← e.build
    advance
    addStmt (.expr e) loc
  | .ifThen condition thenBranch => do
    let loc ← here
    advance
    advance
    let c ← condition.build
    advance
    let t ← thenBranch.build
    addStmt (.ifElse c t none) loc
  | .ifElse condition thenBranch elseBranch => do
    let loc ← here
    advance
    advance
    let c ← condition.build
    advance
    let t ← thenBranch.build
    advance
    let e ← elseBranch.build
    addStmt (.ifElse c t (some e)) loc
  | .whileLoop condition body => do
    let loc ← here
    advance
    advance
    let c ← condition.build
    advance
    let b ← body.build
    addStmt (.whileLoop c b) loc
  | .forLoop init condition increment body => do
    let loc ← here
    advance
    inScope do
      advance
      let init ← init.build
      let c ← buildOptional condition
      advance
      let i ← buildOptional increment
      advance
      let b ← body.build
      addStmt (.forLoop init c i b) loc
  | .ret value => do
    let loc ← here
    advance
    let v ← buildOptional value
    advance
    addStmt (.ret v) loc
  | .empty => do
    let loc ← here
    advance
    addStmt .empty loc

/-- Builds the statements of a block. -/
def buildAll : List Stmt → Parser (List StmtId)
  | [] => return []
  | stmt :: stmts => do
    let id ← stmt.build
    let ids ← buildAll stmts
    return id :: ids

end

end Stmt

/-! ## Files -/

/-- Builds a parameter. -/
def Param.build (p : Param) : Parser DeclId := do
  let _ ← p.typeName.build
  let loc ← here
  skip p.name.toList.length
  skip p.lengthLexemes.length
  let d ← addDecl (p.name.getD "") (.variable p.type none .param) loc
  unless (p.name.getD "").isEmpty do declare (p.name.getD "") d loc
  return d

/-- Builds the parameters of a function. -/
def Params.build : Params → Parser (List DeclId)
  | .void => do
    advance
    return []
  | .list params => buildInCommas (params.map Param.build)

/-- Builds the body of a function whose opening brace was at `opening`. -/
def buildBody (d : DeclId) (name : String) (loc opening : Location) (params : List DeclId)
    (body : List Stmt) : Parser Unit := do
  if (← declOf d).hasBody then fail (.functionRedefinition name) loc
  modifyDecl d (Decl.withParams params loc)
  let ids ← Stmt.buildAll body
  advance
  let block ← addStmt (.block ids) opening
  modifyDecl d (Decl.withBody block)

/-- Builds what follows the opening parenthesis of a function. -/
def Function.buildRest (f : Function) (loc : Location) : Parser Unit := inScope do
  let params ← f.params.build
  advance
  let d ← functionDecl f.returnType.type f.name loc params
  let opening ← here
  advance
  if let some body := f.body then buildBody d f.name loc opening params body

/-- Builds a function. -/
def Function.build (f : Function) : Parser Unit := do
  let _ ← f.returnType.build
  let loc ← here
  advance
  advance
  f.buildRest loc

/-- Builds a declaration of the file. -/
def Item.build : Item → Parser Unit
  | .declaration d => do
    let ds ← d.build .global
    ds.forM fun d => addItem (.variable d)
  | .function f => f.build

/-- Builds a declaration of the file, which may begin with the word `extern`. -/
def TopLevel.build (d : TopLevel) : Parser Unit := do
  if d.isExtern then advance
  d.item.build

/-- Builds the declarations of a file. -/
def File.build (file : File) : Parser Unit := file.declarations.forM TopLevel.build

end MiniC.Written
