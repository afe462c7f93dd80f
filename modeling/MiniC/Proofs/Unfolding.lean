import MiniC.Proofs.AlikePrograms
import MiniC.Proofs.FileReading

/-!
# Unfolding programs

A program refers to its nodes by ids. `Program.unfold` follows the ids from the items of a program
and puts the names back, so that the program is written again as a list of declarations;
`Written.File.condensed` says which list that should be. A program that says something which cannot
be written is not unfolded: a list of variables of different base types, a literal that is
negative, a function whose body is no block. So every variable of a program that is unfolded has
the type that its declarator says (`Program.types_of_declaration`).

What an id unfolds to does not change while the program goes on (`Program.Stays`): nodes are only
added, and only functions are changed.
-/

set_option autoImplicit false

namespace MiniC

/-! ## From a program to what is written -/

/-- The type that is written in front of a name. -/
def CType.typeName : CType → Written.TypeName
  | .value base pointers _ => ⟨base, pointers⟩
  | .function result => result.typeName

/-- The name of a type is what is written for that type. -/
theorem Written.TypeName.typeName_type (t : TypeName) : t.type.typeName = t := by
  rw [TypeName.type, withPointers_ofBase, CType.typeName]

/-- The first clause of a `for` statement, which a program keeps as a statement. -/
def Written.ForInit.ofStmt? : Written.Stmt → Option ForInit
  | .declare d => some (.declare d)
  | .expr e => some (.expr e)
  | _ => none

/-- Whether a node can be written: a literal is not negative, and a type that is named in a
conversion or for its size is that of a type name. -/
def Expr.isWritable (node : Expr) : Bool :=
  match node.kind with
  | .intLiteral value => 0 ≤ value
  | .cast _ => node.type.typeName.type = node.type
  | .sizeOf type => type.typeName.type = type
  | _ => true

namespace Program

/-! ### Expressions -/

/-- What a node is written as, by what its operands are written as. -/
def nodeForm (p : Program) (form : ExprId → Written.Expr) (node : Expr) : Written.Expr :=
  match node.kind with
  | .intLiteral value => .literal value.toInt.toNat
  | .declRef d => .name (p.decl d).name
  | .unary op operand => .unary op (form operand)
  | .binary op lhs rhs => .binary op (form lhs) (form rhs)
  | .call callee args => .call (p.decl callee).name (args.map form)
  | .subscript base index => .subscript (form base) (form index)
  | .cast operand => .cast node.type.typeName (form operand)
  | .paren inner => .paren (form inner)
  | .sizeOf type => .sizeOfType type.typeName

/-- What an expression is written as, as far as a bound on the depth goes. -/
def exprFormWithin (p : Program) : Nat → ExprId → Written.Expr
  | 0, _ => .literal 0
  | bound + 1, e => p.nodeForm (p.exprFormWithin bound) (p.expr e)

/-- What an expression is written as. Operands come before the expression, so no expression is
deeper than the table is long. -/
def exprForm (p : Program) (e : ExprId) : Written.Expr := p.exprFormWithin p.exprs.size e

/-- Whether all nodes of an expression can be written, as far as a bound on the depth goes. -/
def isWritableWithin (p : Program) : Nat → ExprId → Bool
  | 0, _ => false
  | bound + 1, e => (p.expr e).isWritable && (p.operands e).all (p.isWritableWithin bound)

/-- What an expression is written as, if all of its nodes can be written. -/
def exprForm? (p : Program) (e : ExprId) : Option Written.Expr :=
  if p.isWritableWithin p.exprs.size e then some (p.exprForm e) else none

/-! ### Variables -/

/-- The declarator of a variable after a base type. It says the type of the variable and its
initialiser. -/
def declarator (p : Program) (base : BaseType) (d : DeclId) : Option Written.Declarator :=
  match (p.decl d).kind with
  | .variable type init _ => do
    let init ← init.mapM p.exprForm?
    let v : Written.Declarator := ⟨type.typeName.stars, (p.decl d).name, type.length?, init⟩
    if v.type base = type then return v else none
  | .function .. => none

/-- The declaration of variables that have the same base type. -/
def declaration (p : Program) : List DeclId → Option Written.Declaration
  | [] => none
  | first :: others => do
    let base := (p.decl first).type.typeName.base
    return ⟨base, ← p.declarator base first, ← others.mapM (p.declarator base)⟩

/-! ### Statements -/

/-- The first clause of a `for` statement, by what the statements inside it are written as. -/
def initForm (form : StmtId → Option Written.Stmt) : Option StmtId → Option Written.ForInit
  | none => some .none
  | some init => do Written.ForInit.ofStmt? (← form init)

/-- What a statement is written as, by what the statements inside it are written as. -/
def kindForm (p : Program) (form : StmtId → Option Written.Stmt) : StmtKind → Option Written.Stmt
  | .block body => return .block (← body.mapM form)
  | .declare ds => return .declare (← p.declaration ds)
  | .expr e => return .expr (← p.exprForm? e)
  | .ifElse condition thenBranch none =>
    return .ifThen (← p.exprForm? condition) (← form thenBranch)
  | .ifElse condition thenBranch (some elseBranch) =>
    return .ifElse (← p.exprForm? condition) (← form thenBranch) (← form elseBranch)
  | .whileLoop condition body => return .whileLoop (← p.exprForm? condition) (← form body)
  | .forLoop init condition increment body =>
    return .forLoop (← initForm form init) (← condition.mapM p.exprForm?)
      (← increment.mapM p.exprForm?) (← form body)
  | .ret value => return .ret (← value.mapM p.exprForm?)
  | .empty => some .empty

/-- What a statement is written as, as far as a bound on the depth goes. -/
def stmtFormWithin (p : Program) : Nat → StmtId → Option Written.Stmt
  | 0, _ => none
  | bound + 1, id => p.kindForm (p.stmtFormWithin bound) (p.stmt id).kind

/-- What a statement is written as. -/
def stmtForm (p : Program) (id : StmtId) : Option Written.Stmt := p.stmtFormWithin p.stmts.size id

/-! ### Functions and items -/

/-- A parameter, which has no initialiser. It has no name if its name is empty; an array of length
zero is written without a length. -/
def param (p : Program) (d : DeclId) : Option Written.Param :=
  match (p.decl d).kind with
  | .variable type none _ =>
    let v : Written.Param :=
      { typeName := type.typeName
        name := if (p.decl d).name = "" then none else some (p.decl d).name
        length := type.length?.map fun n => if n = 0 then none else some n }
    if v.type = type then some v else none
  | _ => none

/-- The statements of a block. -/
def bodyForm (p : Program) (body : StmtId) : Option (List Written.Stmt) :=
  match p.stmtForm body with
  | some (.block stmts) => some stmts
  | _ => none

/-- A function, with the parameters and the body of its definition if it has one. -/
def function (p : Program) (d : DeclId) : Option Written.Function :=
  match (p.decl d).kind with
  | .function returnType params body => do
    let params ← params.mapM p.param
    let body ← body.mapM p.bodyForm
    if returnType.typeName.type = returnType then
      return ⟨returnType.typeName, (p.decl d).name, .list params, body⟩
    else none
  | .variable .. => none

/-- What an item is written as. -/
def itemForm (p : Program) : Item → Option Written.Item
  | .variable d => return .declaration (← p.declaration [d])
  | .function d => return .function (← p.function d)

/-- The items of a program, written out in their order. -/
def unfold (p : Program) : Option (List Written.Item) := p.items.toList.mapM p.itemForm

/-! ### What was unfolded -/

/-- If all members of a list have forms, the results are these forms. -/
theorem forall₂_of_mapM_eq_some {α β : Type} {f : α → Option β} {as : List α} {bs : List β}
    (h : as.mapM f = some bs) : List.Forall₂ (fun a b => f a = some b) as bs := by
  induction as generalizing bs with
  | nil =>
    rw [List.mapM_nil] at h
    cases h
    exact .nil
  | cons a as ih =>
    rw [List.mapM_cons] at h
    obtain ⟨b, hb, h⟩ := Option.bind_eq_some_iff.1 h
    obtain ⟨rest, hrest, h⟩ := Option.bind_eq_some_iff.1 h
    cases h
    exact .cons hb (ih hrest)

/-- A declarator has the name of the variable, and says its type. -/
theorem type_of_declarator {p : Program} {base : BaseType} {d : DeclId} {v : Written.Declarator}
    (h : p.declarator base d = some v) :
    v.name = (p.decl d).name ∧ v.type base = (p.decl d).type := by
  unfold declarator at h
  split at h
  · next type init storage hkind =>
    obtain ⟨init, -, h⟩ := Option.bind_eq_some_iff.1 h
    dsimp only at h
    split at h
    · next htype =>
      cases h
      exact ⟨rfl, by rw [htype, Decl.type, hkind]⟩
    · cases h
  · cases h

/-- A declaration that variables unfold to says the name and the type of each of them. -/
theorem types_of_declaration {p : Program} {ds : List DeclId} {v : Written.Declaration}
    (h : p.declaration ds = some v) :
    List.Forall₂ (fun d w => w.name = (p.decl d).name ∧ w.type v.base = (p.decl d).type) ds
      v.declarators := by
  cases ds with
  | nil => cases h
  | cons first others =>
    obtain ⟨w, hfirst, h⟩ := Option.bind_eq_some_iff.1 h
    obtain ⟨ws, hothers, h⟩ := Option.bind_eq_some_iff.1 h
    cases h
    have hrest := forall₂_of_mapM_eq_some hothers
    exact .cons (type_of_declarator hfirst) (hrest.imp fun _ _ hd => type_of_declarator hd)

/-- A list cannot declare a `char` and a pointer to `int`. -/
example :
    let p : Program := { Program.empty with
      decls := #[⟨"a", .variable (.ofBase .char) none .local, .nowhere⟩,
        ⟨"b", .variable (CType.ofBase .int).withPointer none .local, .nowhere⟩] }
    (p.declaration [⟨0⟩]).isSome ∧ (p.declaration [⟨1⟩]).isSome ∧
      (p.declaration [⟨0⟩, ⟨1⟩]).isNone := by
  decide

end Program

/-! ## The declarations of a file, each once -/

namespace Written

/-- The parameters of a function, of which the word `void` is none. -/
def Params.toList : Params → List Param
  | .void => []
  | .list params => params

/-- What a declaration of a function says without its body. -/
def Function.prototype (f : Function) : Function :=
  ⟨f.returnType, f.name, .list f.params.toList, none⟩

/-- Whether a function of the given name is declared. -/
def Item.declaresFunction (x : String) : Item → Bool
  | .declaration _ => false
  | .function f => f.name = x

/-- A function gets the parameters and the body of its definition. -/
def Item.define (f : Function) (body : List Stmt) : Item → Item
  | .declaration d => .declaration d
  | .function g =>
    .function (if g.name = f.name then ⟨g.returnType, g.name, .list f.params.toList, some body⟩
      else g)

/-- Adds a function to the declarations before it, unless it is among them. -/
def Function.declareIn (f : Function) (items : List Item) : List Item :=
  if items.any (Item.declaresFunction f.name) then items else items ++ [.function f.prototype]

/-- Adds a declaration to those before it. -/
def Item.addTo (items : List Item) : Item → List Item
  | .declaration d => items ++ d.declarators.map fun v => .declaration ⟨d.base, v, []⟩
  | .function f =>
    match f.body with
    | none => f.declareIn items
    | some body => (f.declareIn items).map (Item.define f body)

/-- The declarations of a file with one item for each variable and each function, in the order in
which they are first declared. The definition of a function supplies its parameters and its body. -/
def File.condensed (file : File) : List Item :=
  file.declarations.foldl (fun items d => d.item.addTo items) []

/-- The name of a function that is declared. -/
def Item.functionName? : Item → Option String
  | .declaration _ => none
  | .function f => some f.name

/-- A declaration with one item for each variable; the parameters of a function are listed. -/
def Item.parts : Item → List Item
  | .declaration d => d.declarators.map fun v => .declaration ⟨d.base, v, []⟩
  | .function f => [.function ⟨f.returnType, f.name, .list f.params.toList, f.body⟩]

/-- A definition changes only the function of its name. -/
theorem Function.map_define_of_absent {f : Function} {body : List Stmt} {items : List Item}
    (h : items.any (Item.declaresFunction f.name) = false) :
    items.map (Item.define f body) = items := by
  rw [List.any_eq_false] at h
  conv_rhs => rw [← List.map_id items]
  refine List.map_congr_left fun item hitem => ?_
  cases item with
  | declaration d => rfl
  | function g =>
    have hne : g.name ≠ f.name := fun hname => h _ hitem (decide_eq_true hname)
    rw [Item.define, if_neg hne]
    rfl

/-- What is no function that was declared before is added with all its parts. -/
theorem Item.addTo_of_absent {item : Item} {items : List Item}
    (h : ∀ x ∈ item.functionName?, items.any (declaresFunction x) = false) :
    item.addTo items = items ++ item.parts := by
  cases item with
  | declaration d => rfl
  | function f =>
    have habsent : items.any (declaresFunction f.name) = false := h f.name rfl
    have hdeclare : f.declareIn items = items ++ [.function f.prototype] := by
      rw [Function.declareIn, habsent]
      rfl
    rw [addTo, parts, hdeclare]
    cases f.body with
    | none => rfl
    | some body =>
      -- the definition fills in the function that was added for it just now
      dsimp only
      have hname : f.prototype.name = f.name := rfl
      rw [List.map_append, Function.map_define_of_absent habsent, List.map_singleton,
        define, if_pos hname]
      rfl

/-- Only the declaration of a function has a part that declares one. -/
theorem Item.functionName?_of_any_parts {item : Item} {x : String}
    (h : item.parts.any (declaresFunction x) = true) : item.functionName? = some x := by
  cases item with
  | declaration d => simp [parts, declaresFunction] at h
  | function f => simpa [parts, declaresFunction, functionName?] using h

/-- Where no function is declared twice, the declarations are those of the file. -/
theorem File.condensed_eq_flatMap {file : File}
    (h : (file.declarations.filterMap fun d => d.item.functionName?).Nodup) :
    file.condensed = file.declarations.flatMap fun d => d.item.parts := by
  -- after any items that declare none of the functions that follow
  have hall (ds : List TopLevel) (items : List Item)
    (hds : (ds.filterMap fun d => d.item.functionName?).Nodup)
      (hitems : ∀ x ∈ ds.filterMap fun d => d.item.functionName?,
        items.any (Item.declaresFunction x) = false) :
      ds.foldl (fun items d => d.item.addTo items) items = items ++ ds.flatMap fun d =>
        d.item.parts := by
    induction ds generalizing items with
    | nil => rw [List.foldl_nil, List.flatMap_nil, List.append_nil]
    | cons d ds ih =>
      have hadd : d.item.addTo items = items ++ d.item.parts := by
        refine Item.addTo_of_absent fun x hx => hitems x ?_
        exact List.mem_filterMap.2 ⟨d, List.mem_cons_self, hx⟩
      rw [List.foldl_cons, hadd, ih, List.flatMap_cons, List.append_assoc]
      · exact hds.sublist (List.Sublist.filterMap _ (List.sublist_cons_self d ds))
      · -- a name that comes later is not the one that was added
        intro x hx
        have hmem : x ∈ (d :: ds).filterMap fun d => d.item.functionName? :=
          (List.Sublist.filterMap _ (List.sublist_cons_self d ds)).subset hx
        rw [List.any_append, hitems x hmem, Bool.false_or, ← Bool.not_eq_true]
        intro hparts
        have hname : d.item.functionName? = some x := Item.functionName?_of_any_parts hparts
        have hcons : (d :: ds).filterMap (fun d => d.item.functionName?) =
            x :: ds.filterMap fun d => d.item.functionName? :=
          List.filterMap_cons_some hname
        rw [hcons, List.nodup_cons] at hds
        exact hds.1 hx
  exact hall file.declarations [] h (by simp)
end Written

/-! ## Programs that go on -/

namespace Program

variable {p q r : Program}

/-- Nodes stay as they are, except that functions may be changed. -/
structure Stays (p q : Program) : Prop extends Parenthesised.Keeps p q where
  stmts : p.stmts.size ≤ q.stmts.size
  stmt : ∀ {id : StmtId}, id.index < p.stmts.size → q.stmt id = p.stmt id
  nonFunction : ∀ {d : DeclId}, d.index < p.decls.size → (p.decl d).isFunction = false →
    q.decl d = p.decl d

/-- Nodes are added and none is changed; no item is added. -/
structure Begins (p q : Program) : Prop extends Stays p q where
  decl : ∀ {d : DeclId}, d.index < p.decls.size → q.decl d = p.decl d
  items : q.items = p.items

theorem Stays.refl (p : Program) : Stays p p :=
  { Parenthesised.Keeps.refl p with
    stmts := Nat.le_refl _
    stmt := fun _ => rfl
    nonFunction := fun _ _ => rfl }

/-- Nodes may stay as they are twice. -/
theorem Stays.trans (h : Stays p q) (h' : Stays q r) : Stays p r :=
  { h.toKeeps.trans h'.toKeeps with
    stmts := Nat.le_trans h.stmts h'.stmts
    stmt := fun hid => (h'.stmt (Nat.lt_of_lt_of_le hid h.stmts)).trans (h.stmt hid)
    nonFunction := fun {d} hd hkind => by
      have heq := h.nonFunction hd hkind
      rw [← heq] at hkind ⊢
      exact h'.nonFunction (Nat.lt_of_lt_of_le hd h.size) hkind }

theorem Begins.refl (p : Program) : Begins p p :=
  { Stays.refl p with decl := fun _ => rfl, items := rfl }

/-- Nodes may be added in two steps. -/
theorem Begins.trans (h : Begins p q) (h' : Begins q r) : Begins p r :=
  { h.toStays.trans h'.toStays with
    decl := fun hd => (h'.decl (Nat.lt_of_lt_of_le hd h.size)).trans (h.decl hd)
    items := h'.items.trans h.items }

/-- A new expression changes none of the old ones. -/
theorem begins_pushExpr (p : Program) (node : Expr) : Begins p (p.pushExpr node).1 :=
  { Parenthesised.keeps_pushExpr p node with
    stmts := Nat.le_refl _
    stmt := fun _ => rfl
    nonFunction := fun _ _ => rfl
    decl := fun _ => rfl
    items := rfl }

/-- A new statement changes none of the old ones. -/
theorem begins_pushStmt (p : Program) (node : Stmt) : Begins p (p.pushStmt node).1 :=
  { Parenthesised.keeps_pushStmt p node with
    stmts := by simp [pushStmt]
    stmt := fun hid => stmt_pushStmt_of_ne p node fun heq => Nat.lt_irrefl _ (heq ▸ hid)
    nonFunction := fun _ _ => rfl
    decl := fun _ => rfl
    items := rfl }

/-- A new declaration changes none of the old ones. -/
theorem begins_pushDecl (p : Program) (d : Decl) : Begins p (p.pushDecl d).1 := by
  have hdecl {id : DeclId} (hid : id.index < p.decls.size) : (p.pushDecl d).1.decl id = p.decl id :=
    decl_pushDecl_of_ne p d fun heq => Nat.lt_irrefl _ (heq ▸ hid)
  exact { Parenthesised.keeps_pushDecl p d with
    stmts := Nat.le_refl _
    stmt := fun _ => rfl
    nonFunction := fun hid _ => hdecl hid
    decl := hdecl
    items := rfl }

/-- An item that is added changes no node. -/
theorem stays_pushItem (p : Program) (item : Item) : Stays p (p.pushItem item) :=
  { Parenthesised.keeps_pushItem p item with
    stmts := Nat.le_refl _
    stmt := fun _ => rfl
    nonFunction := fun _ _ => rfl }

/-- A function is changed. -/
theorem stays_modifyDecl {d : DeclId} {f : Decl → Decl} (hd : (p.decl d).isFunction = true)
    (hkeeps : Parenthesised.Keeps p (p.modifyDecl d f)) : Stays p (p.modifyDecl d f) :=
  { hkeeps with
    stmts := Nat.le_refl _
    stmt := fun _ => rfl
    nonFunction := fun {id} _ hid => by
      refine decl_modifyDecl_of_ne p f fun heq => ?_
      rw [heq, hd] at hid
      cases hid }

/-- A declaration is changed that the earlier program does not have. -/
theorem Begins.modifyDecl (h : Begins p q) {d : DeclId} {f : Decl → Decl}
    (hd : p.decls.size ≤ d.index)
    (hkeeps : Parenthesised.Keeps q (q.modifyDecl d f)) : Begins p (q.modifyDecl d f) := by
  have hdecl {id : DeclId} (hid : id.index < p.decls.size) :
      (q.modifyDecl d f).decl id = p.decl id := by
    have hne : id ≠ d := fun heq => Nat.not_lt.2 hd (heq ▸ hid)
    rw [decl_modifyDecl_of_ne q f hne, h.decl hid]
  exact { h.toKeeps.trans hkeeps with
    stmts := h.stmts
    stmt := h.stmt
    nonFunction := fun hid _ => hdecl hid
    decl := hdecl
    items := h.items }

/-! ## What ids unfold to -/

/-- An expression of the program that is written as `t`, now and later on. -/
structure HasExpr (p : Program) (e : ExprId) (t : Written.Expr) : Prop where
  lt : e.index < p.exprs.size
  form : ∀ {q}, Parenthesised.Keeps p q → ∀ {bound}, e.index < bound → q.exprFormWithin bound e = t
  writable : ∀ {q}, Parenthesised.Keeps p q → ∀ {bound}, e.index < bound →
    q.isWritableWithin bound e

/-- The same of a statement. -/
structure HasStmt (p : Program) (id : StmtId) (t : Written.Stmt) : Prop where
  lt : id.index < p.stmts.size
  form : ∀ {q}, Stays p q → ∀ {bound}, id.index < bound → q.stmtFormWithin bound id = some t

/-- The same of a variable that is declared with a base type. -/
structure HasVariable (p : Program) (base : BaseType) (d : DeclId)
    (v : Written.Declarator) : Prop where
  base_eq : ∀ {q}, Stays p q → (q.decl d).type.typeName.base = base
  form : ∀ {q}, Stays p q → q.declarator base d = some v

/-- The same of a parameter. -/
structure HasParam (p : Program) (d : DeclId) (v : Written.Param) : Prop where
  form : ∀ {q}, Stays p q → q.param d = some v

/-- A node whose operands are in the program is written as `t`, now and later on. -/
structure HasNode (p : Program) (node : Expr) (t : Written.Expr) : Prop where
  form : ∀ {q}, Parenthesised.Keeps p q → ∀ {bound}, p.exprs.size ≤ bound →
    q.nodeForm (q.exprFormWithin bound) node = t
  writable : node.isWritable = true
  operands : ∀ o ∈ node.kind.operands, ∃ u, p.HasExpr o u

/-- A statement whose parts are in the program is written as `t`, now and later on. -/
def HasKind (p : Program) (kind : StmtKind) (t : Written.Stmt) : Prop :=
  ∀ {q}, Stays p q → ∀ {bound}, p.stmts.size ≤ bound →
    q.kindForm (q.stmtFormWithin bound) kind = some t

/-- Every bound from the number of expressions on is enough to write an expression. -/
theorem HasExpr.within {e : ExprId} {t : Written.Expr} (h : p.HasExpr e t)
    (hq : Parenthesised.Keeps p q) {bound : Nat} (hbound : p.exprs.size ≤ bound) :
    q.exprFormWithin bound e = t :=
  h.form hq (Nat.lt_of_lt_of_le h.lt hbound)

/-- What an expression is written as stays the same in later programs. -/
theorem HasExpr.keeps {e : ExprId} {t : Written.Expr} (h : p.HasExpr e t)
    (hq : Parenthesised.Keeps p q) : q.HasExpr e t where
  lt := Nat.lt_of_lt_of_le h.lt hq.exprs
  form hr _ hbound := h.form (hq.trans hr) hbound
  writable hr _ hbound := h.writable (hq.trans hr) hbound

theorem HasExpr.forall_mem_singleton {e : ExprId} {t : Written.Expr} (h : p.HasExpr e t) :
    ∀ o ∈ [e], ∃ u, p.HasExpr o u := List.forall_mem_singleton.2 ⟨t, h⟩

theorem HasExpr.forall_mem_pair {e e' : ExprId} {t t' : Written.Expr} (h : p.HasExpr e t)
    (h' : p.HasExpr e' t') : ∀ o ∈ [e, e'], ∃ u, p.HasExpr o u :=
  List.forall_mem_cons.2 ⟨⟨t, h⟩, h'.forall_mem_singleton⟩

/-- An expression is written as its tree. -/
theorem HasExpr.exprForm_eq {e : ExprId} {t : Written.Expr} (h : p.HasExpr e t)
    (hq : Parenthesised.Keeps p q) : q.exprForm e = t := h.within hq hq.exprs

/-- A tree that was written is one that can be. -/
theorem HasExpr.exprForm?_eq {e : ExprId} {t : Written.Expr} (h : p.HasExpr e t)
    (hq : Parenthesised.Keeps p q) : q.exprForm? e = some t := by
  rw [exprForm?, if_pos (h.writable hq (Nat.lt_of_lt_of_le h.lt hq.exprs)), h.exprForm_eq hq]

/-- Every bound from the number of statements on is enough to write a statement. -/
theorem HasStmt.within {id : StmtId} {t : Written.Stmt} (h : p.HasStmt id t) (hq : Stays p q)
    {bound : Nat} (hbound : p.stmts.size ≤ bound) : q.stmtFormWithin bound id = some t :=
  h.form hq (Nat.lt_of_lt_of_le h.lt hbound)

/-- What a statement is written as stays the same in later programs. -/
theorem HasStmt.stays {id : StmtId} {t : Written.Stmt} (h : p.HasStmt id t) (hq : Stays p q) :
    q.HasStmt id t where
  lt := Nat.lt_of_lt_of_le h.lt hq.stmts
  form hr _ hbound := h.form (hq.trans hr) hbound

/-- So does what a variable is written as. -/
theorem HasVariable.stays {base : BaseType} {d : DeclId} {v : Written.Declarator}
    (h : p.HasVariable base d v) (hq : Stays p q) : q.HasVariable base d v :=
  ⟨fun hr => h.base_eq (hq.trans hr), fun hr => h.form (hq.trans hr)⟩

/-- So does what a parameter is written as. -/
theorem HasParam.stays {d : DeclId} {v : Written.Param} (h : p.HasParam d v) (hq : Stays p q) :
    q.HasParam d v :=
  ⟨fun hr => h.form (hq.trans hr)⟩

/-- The first clause of a loop, which may be missing, is written as `init`, now and later on. -/
def HasInit (p : Program) (id : Option StmtId) (init : Written.ForInit) : Prop :=
  ∀ {q}, Stays p q → ∀ {bound}, p.stmts.size ≤ bound →
    initForm (q.stmtFormWithin bound) id = some init

/-- So does what the first clause of a loop is written as. -/
theorem HasInit.stays {id : Option StmtId} {init : Written.ForInit} (h : p.HasInit id init)
    (hq : Stays p q) : q.HasInit id init :=
  fun hr _ hbound => h (hq.trans hr) (Nat.le_trans hq.stmts hbound)

/-- A statement that is a declaration or an expression may be the first clause of a loop. -/
theorem HasStmt.hasInit {id : StmtId} {t : Written.Stmt} {init : Written.ForInit}
    (h : p.HasStmt id t)
    (ht : Written.ForInit.ofStmt? t = some init) : p.HasInit (some id) init := by
  intro q hq bound hbound
  rw [initForm, h.within hq hbound, Option.bind_eq_bind, Option.bind_some, ht]

/-- For every element of the second list there is one of the first that it is related to. -/
theorem exists_of_mem_right {α β : Type} {R : α → β → Prop} {as : List α} {bs : List β}
    (h : List.Forall₂ R as bs) : ∀ b ∈ bs, ∃ a, R a b := by
  induction h with
  | nil => exact nofun
  | cons hab _ ih => exact List.forall_mem_cons.2 ⟨⟨_, hab⟩, ih⟩

/-- Ids that unfold to the elements of a list, one by one. -/
theorem map_eq_of_forall₂ {α β : Type} {f : α → β} {as : List α} {bs : List β}
    (h : List.Forall₂ (fun a b => f a = b) as bs) : as.map f = bs := by
  rw [← List.forall₂_eq_eq_eq, List.forall₂_map_left_iff]
  exact h

/-- The same where an id may unfold to nothing. -/
theorem mapM_eq_of_forall₂ {α β : Type} {f : α → Option β} {as : List α} {bs : List β}
    (h : List.Forall₂ (fun a b => f a = some b) as bs) : as.mapM f = some bs := by
  induction h with
  | nil => rw [List.mapM_nil, Option.pure_def]
  | cons ha _ ih =>
    rw [List.mapM_cons, ha, ih]
    rfl

/-- An id that may be missing. -/
theorem mapM_eq_of_rel {α β : Type} {R : α → β → Prop} {f : α → Option β} {a : Option α}
    {b : Option β} (h : Option.Rel R a b) (hf : ∀ a b, R a b → f a = some b) :
    a.mapM f = some b := by
  cases h with
  | none => rfl
  | some h =>
    rw [Option.mapM_some, hf _ _ h]
    rfl

theorem rel_imp {α β : Type} {R S : α → β → Prop} {a : Option α} {b : Option β}
    (h : Option.Rel R a b) (hS : ∀ a b, R a b → S a b) : Option.Rel S a b := by
  cases h with
  | none => exact .none
  | some h => exact .some (hS _ _ h)

/-- Variables that are declared together. -/
theorem declaration_eq {d : Written.Declaration} {ds : List DeclId}
    (h : List.Forall₂ (p.HasVariable d.base) ds d.declarators) (hq : Stays p q) :
    q.declaration ds = some d := by
  cases h with
  | @cons first _ others _ hfirst hothers =>
    have hforms : others.mapM (q.declarator d.base) = some d.others :=
      mapM_eq_of_forall₂ (hothers.imp fun _ _ hv => hv.form hq)
    rw [declaration, hfirst.base_eq hq, hfirst.form hq, hforms]
    rfl

end Program

end MiniC
