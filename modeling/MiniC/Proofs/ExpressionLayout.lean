import Mathlib.Data.List.Forall2
import MiniC.Proofs.ExpressionPlaces

/-!
# Where the expressions of a program come from

The program of a file has just the expressions of the file, in the same order, each at the place of
the token that introduces it (`Written.Writes.nodes`). While a tree is built, the tokens of its
parts are taken and the nodes of their expressions are added (`Written.Lays`).
-/

set_option autoImplicit false

namespace MiniC.Written

open MiniC.Parser

variable {α β : Type} {stream : TokenStream}

/-! ## Nodes of expressions -/

/-- The outermost form of an expression is that of a node; what names refer to is left open. -/
def Expr.Heads : Expr → ExprKind → Prop
  | .literal value, .intLiteral value' => value' = .ofNat value
  | .name _, .declRef _ => True
  | .call _ _, .call _ _ => True
  | .paren _, .paren _ => True
  | .subscript _ _, .subscript _ _ => True
  | .unary op _, .unary op' _ => op' = op
  | .binary op _ _, .binary op' _ _ => op' = op
  | .cast _ _, .cast _ => True
  | .sizeOfType _, .sizeOf _ => True
  | .sizeOf _, .sizeOf _ => True
  | _, _ => False

/-- The node of an expression lies at the place of the token that introduces the expression. -/
structure Occurrence.Node (stream : TokenStream) (o : Occurrence) (node : MiniC.Expr) : Prop where
  heads : o.expr.Heads node.kind
  loc : node.loc = place stream o.anchor

/-! ## Parsers that add nodes -/

/-- A number of tokens are taken. -/
structure Stands (stream : TokenStream) (pos : Nat) (s : ParserState) : Prop where
  rest : s.rest = stream.tokens.drop pos
  endLoc : s.endLoc = stream.endLoc

/-- The nodes of the expressions have been added. -/
def Added (stream : TokenStream) (os : List Occurrence) (s t : ParserState) : Prop :=
  ∃ nodes, t.program.exprs.toList = s.program.exprs.toList ++ nodes ∧
    List.Forall₂ (Occurrence.Node stream) os nodes

/-- From one position to another one the parser adds the nodes of the expressions, if it
succeeds. -/
def LaysAt (stream : TokenStream) (pos pos' : Nat) (x : Parser α) (os : List Occurrence) : Prop :=
  ∀ s, Stands stream pos s → Ensures x s fun _ t => Stands stream pos' t ∧ Added stream os s t

/-- The parser takes the tokens of the parts and adds the nodes of their expressions, if it
succeeds. -/
def Lays (stream : TokenStream) (x : Parser α) (ps : List Piece) : Prop :=
  ∀ pos, LaysAt stream pos (pos + (lexemesOf ps).length) x (occurrencesIn pos ps)

/-- Where tokens are left, the place of the next one is the current place; else it is the end. -/
theorem Stands.here {pos : Nat} {s : ParserState} (h : Stands stream pos s) :
    (s.rest.head?.map Token.loc).getD s.endLoc = place stream pos := by
  rw [h.rest, h.endLoc, List.head?_drop]
  rfl

/-- When a token is taken, one more is. -/
theorem Stands.token {pos : Nat} {s : ParserState} (h : Stands stream pos s) :
    Stands stream (pos + 1) { s with rest := s.rest.tail } :=
  ⟨by rw [h.rest, List.tail_drop], h.endLoc⟩

/-- A parser that neither takes tokens nor adds nodes. -/
def Keeps (x : Parser α) : Prop :=
  ∀ s, Ensures x s fun _ t => t.rest = s.rest ∧ t.endLoc = s.endLoc ∧
    t.program.exprs = s.program.exprs

namespace LaysAt

variable {pos mid pos' pos'' : Nat} {x : Parser α} {f : α → Parser β} {os os' : List Occurrence}

theorem of_keeps (hx : Keeps x) : LaysAt stream pos pos x [] := by
  intro s hs
  refine (hx s).mono fun _ t ⟨hrest, hend, hexprs⟩ =>
    ⟨⟨hrest.trans hs.rest, hend.trans hs.endLoc⟩, [], ?_, .nil⟩
  rw [hexprs, List.append_nil]

/-- The nodes of the first part come before those of the second. -/
theorem bind (hx : LaysAt stream pos mid x os) (hf : ∀ a, LaysAt stream mid pos' (f a) os') :
    LaysAt stream pos pos' (x >>= f) (os ++ os') := by
  intro s hs
  rw [ensures_bind]
  refine (hx s hs).mono fun a t ⟨ht, nodes, hnodes, hos⟩ => ?_
  refine (hf a t ht).mono fun b u ⟨hu, nodes', hnodes', hos'⟩ =>
    ⟨hu, nodes ++ nodes', ?_, List.rel_append hos hos'⟩
  rw [hnodes', hnodes, List.append_assoc]

/-- Taking tokens without adding a node comes first. -/
theorem skip (hx : LaysAt stream pos mid x []) (hf : ∀ a, LaysAt stream mid pos' (f a) os) :
    LaysAt stream pos pos' (x >>= f) os := hx.bind hf

/-- What keeps tokens and nodes may be done before. -/
theorem after_keeps (hx : Keeps x) (hf : ∀ a, LaysAt stream pos pos' (f a) os) :
    LaysAt stream pos pos' (x >>= f) os :=
  (of_keeps hx).skip hf

theorem then_keeps (hx : LaysAt stream pos pos' x os) (hf : ∀ a, Keeps (f a)) :
    LaysAt stream pos pos' (x >>= f) os := by
  have hboth : LaysAt stream pos pos' (x >>= f) (os ++ []) := hx.bind fun a => of_keeps (hf a)
  rwa [List.append_nil] at hboth

/-- The place that is asked for is that of the position. -/
theorem here {f : Location → Parser β} (hf : LaysAt stream pos pos' (f (place stream pos)) os) :
    LaysAt stream pos pos' (Parser.here >>= f) os := by
  intro s hs
  have hsame : Ensures (Parser.here >>= f) s =
    Ensures (f ((s.rest.head?.map Token.loc).getD s.endLoc)) s := rfl
  rw [hsame, hs.here]
  exact hf s hs

theorem token {f : Unit → Parser β} (hf : LaysAt stream (pos + 1) pos' (f ()) os) :
    LaysAt stream pos pos' (advance >>= f) os := fun _ hs => hf _ hs.token

theorem of_eq (h : LaysAt stream pos pos' x os) (hpos : pos' = pos'') :
    LaysAt stream pos pos'' x os := hpos ▸ h

/-- The node that is added is that of an expression whose parts are there. -/
theorem addExpr {o : Occurrence} {kind : ExprKind} {type : CType} {loc : Location}
    (hkind : o.expr.Heads kind) (hloc : loc = place stream o.anchor) (hpos : pos = pos') :
    LaysAt stream pos pos' (addExpr kind type loc) [o] := by
  subst hpos
  exact fun _ hs =>
    ⟨⟨hs.rest, hs.endLoc⟩, [⟨kind, type, loc⟩], Array.toList_push, .cons ⟨hkind, hloc⟩ .nil⟩

end LaysAt

namespace Keeps

variable {x : Parser α} {f : α → Parser β}

theorem pure (a : α) : Keeps (pure a) := fun _ => ⟨rfl, rfl, rfl⟩

/-- Parsers that take and add nothing may be carried out one after the other. -/
theorem bind (hx : Keeps x) (hf : ∀ a, Keeps (f a)) : Keeps (x >>= f) := by
  intro s
  rw [ensures_bind]
  refine (hx s).mono fun a t ⟨hrest, hend, hexprs⟩ =>
    (hf a t).mono fun _ u ⟨hrest', hend', hexprs'⟩ => ?_
  exact ⟨hrest'.trans hrest, hend'.trans hend, hexprs'.trans hexprs⟩

theorem fail (fault : ParseFault) (loc : Location) : Keeps (fail fault loc : Parser α) :=
  fun _ => trivial

theorem here : Keeps here := fun _ => ⟨rfl, rfl, rfl⟩

theorem declOf (d : DeclId) : Keeps (declOf d) := fun _ => ⟨rfl, rfl, rfl⟩

theorem typeOf (e : ExprId) : Keeps (typeOf e) := fun _ => ⟨rfl, rfl, rfl⟩

theorem addStmt (kind : StmtKind) (loc : Location) : Keeps (addStmt kind loc) :=
  fun _ => ⟨rfl, rfl, rfl⟩

theorem addDecl (x : String) (kind : DeclKind) (loc : Location) : Keeps (addDecl x kind loc) :=
  fun _ => ⟨rfl, rfl, rfl⟩

theorem addItem (item : MiniC.Item) : Keeps (addItem item) := fun _ => ⟨rfl, rfl, rfl⟩

theorem modifyDecl (d : DeclId) (f : Decl → Decl) : Keeps (modifyDecl d f) :=
  fun _ => ⟨rfl, rfl, rfl⟩

theorem declareInFile (x : String) (d : DeclId) : Keeps (declareInFile x d) :=
  fun _ => ⟨rfl, rfl, rfl⟩

theorem resolveInFile? (x : String) : Keeps (resolveInFile? x) := fun _ => ⟨rfl, rfl, rfl⟩

theorem ite {p : Prop} [Decidable p] {y : Parser α} (hx : Keeps x) (hy : Keeps y) :
    Keeps (if p then x else y) := by
  split
  · exact hx
  · exact hy

/-- Declaring a name takes no token and adds no node. -/
theorem declare (x : String) (d : DeclId) (loc : Location) : Keeps (declare x d loc) :=
  .bind (fun _ => ⟨rfl, rfl, rfl⟩) fun _ => .ite (.fail _ _) fun _ => ⟨rfl, rfl, rfl⟩

theorem resolve (x : String) (loc : Location) : Keeps (resolve x loc) := by
  refine .bind (fun _ => ⟨rfl, rfl, rfl⟩) fun s => ?_
  split
  · exact .pure _
  · exact .fail _ _

/-- Looking a function up or declaring it takes no token and adds no node. -/
theorem functionDecl (type : CType) (x : String) (loc : Location) (params : List DeclId) :
    Keeps (functionDecl type x loc params) := by
  refine (resolveInFile? x).bind fun found => ?_
  split
  · -- what is declared already has to be a function
    refine (declOf _).bind fun d => ?_
    dsimp only
    split
    · exact .pure _
    · exact .bind (.fail _ _) fun _ => .pure _
  · exact (addDecl _ _ _).bind fun d => (declareInFile _ _).bind fun _ =>
      (addItem _).bind fun _ => .pure _

end Keeps

theorem laysAt_skip (n pos : Nat) : LaysAt stream pos (pos + n) (skip n) [] := by
  induction n generalizing pos with
  | zero => exact .of_keeps (.pure _)
  | succ n ih => exact .token ((ih (pos + 1)).of_eq (by omega))

/-- The name of a type has no expressions. -/
theorem TypeName.laysAt_build (t : TypeName) (pos : Nat) :
    LaysAt stream pos (pos + t.lexemes.length) t.build [] := by
  refine .token (.then_keeps ((laysAt_skip t.stars (pos + 1)).of_eq ?_) fun _ => .pure _)
  rw [lexemes, List.length_cons, List.length_replicate]
  omega

/-! ## Parts -/

namespace Lays

variable {x : Parser α} {f : α → Parser β} {ps qs : List Piece}

theorem bind (hx : Lays stream x ps) (hf : ∀ a, Lays stream (f a) qs) :
    Lays stream (x >>= f) (ps ++ qs) := by
  intro pos
  rw [occurrencesIn_append, lexemesOf_append, List.length_append]
  exact (hx pos).bind fun a => (hf a _).of_eq (Nat.add_assoc _ _ _)

theorem of_keeps (hx : Keeps x) : Lays stream x [] := fun _ => .of_keeps hx

theorem pure (a : α) : Lays stream (pure a) [] := .of_keeps (.pure a)

theorem after_keeps (hx : Keeps x) (hf : ∀ a, Lays stream (f a) ps) : Lays stream (x >>= f) ps :=
  (of_keeps hx).bind hf

theorem then_keeps (hx : Lays stream x ps) (hf : ∀ a, Keeps (f a)) : Lays stream (x >>= f) ps :=
  fun pos => (hx pos).then_keeps hf

theorem map {g : α → β} (hx : Lays stream x ps) : Lays stream (g <$> x) ps := by
  rw [map_eq_pure_bind]
  exact hx.then_keeps fun _ => .pure _

/-- A token outside all expressions is taken. -/
theorem token {f : Unit → Parser β} (y : Lexeme) (hf : Lays stream (f ()) ps) :
    Lays stream (advance >>= f) (.token y :: ps) := by
  intro pos
  rw [lexemesOf_token, List.length_cons]
  exact .token ((hf (pos + 1)).of_eq (by omega))

theorem tokens {ls : List Lexeme} (hx : ∀ pos, LaysAt stream pos (pos + ls.length) x []) :
    Lays stream x (tokens ls) := by
  have hnone : ∀ (ls : List Lexeme) (pos : Nat), occurrencesIn pos (Written.tokens ls) = [] := by
    intro ls
    induction ls with
    | nil => exact fun _ => rfl
    | cons y ls ih => exact fun pos => ih (pos + 1)
  intro pos
  rw [lexemesOf_tokens, hnone]
  exact hx pos

/-- An expression adds its own nodes. -/
theorem of_laysAt {e : Expr}
    (hx : ∀ pos, LaysAt stream pos (pos + e.lexemes.length) x (e.occurrences pos)) :
    Lays stream x [.expr e] := by
  intro pos
  rw [lexemesOf_expr, lexemesOf_nil, List.append_nil, occurrencesIn, occurrencesIn, List.append_nil]
  exact hx pos

end Lays

/-- The parts of a list in commas are laid one after the other. -/
theorem lays_inCommas {ι : Type} {build : ι → Parser α} {pieces : ι → List Piece} {ts : List ι}
    (h : ∀ t ∈ ts, Lays stream (build t) (pieces t)) :
    Lays stream (buildInCommas (ts.map build)) (piecesInCommas (ts.map pieces)) := by
  have hafter : ∀ ts : List ι, (∀ t ∈ ts, Lays stream (build t) (pieces t)) →
      Lays stream (buildAfterCommas (ts.map build))
        ((ts.map pieces).flatMap (.token (.punct .comma) :: ·)) := by
    intro ts h
    induction ts with
    | nil => exact .pure _
    | cons t ts ih =>
      rw [List.forall_mem_cons] at h
      exact .token _ (h.1.bind fun _ => (ih h.2).then_keeps fun _ => .pure _)
  cases ts with
  | nil => exact .pure _
  | cons t ts =>
    rw [List.forall_mem_cons] at h
    exact h.1.bind fun _ => (hafter ts h.2).then_keeps fun _ => .pure _

/-! ## Expressions -/

theorem laysAt_addUnary {op : UnaryOp} {operand : Expr} {start pos : Nat} (e : ExprId)
    (hpos : pos = (Occurrence.mk start (.unary op operand)).anchor) {mid mid' : Nat}
    (hmid : mid = mid') :
    LaysAt stream mid mid' (addUnary op e (place stream pos)) [⟨start, .unary op operand⟩] :=
  .after_keeps (.typeOf e) fun _ => .addExpr rfl (hpos ▸ rfl) hmid

namespace Expr

/-- Building an expression adds its nodes, each at the place of the token that introduces it. -/
theorem laysAt_build (e : Expr) (pos : Nat) :
    LaysAt stream pos (pos + e.lexemes.length) e.build (e.occurrences pos) := by
  induction e generalizing pos with
  | literal value => exact .here (.token (.addExpr rfl rfl rfl))
  | name x =>
    refine .here (.token (.after_keeps (.resolve _ _) fun d =>
      .after_keeps (.declOf _) fun _ => ?_))
    exact .addExpr trivial rfl rfl
  | call f args ih =>
    rw [build, occurrences, lexemes, buildEach_eq_map, lexemesOfEach_eq_map]
    refine .here (.token (.after_keeps (.resolve _ _) fun d =>
      .after_keeps (.declOf _) fun decl => ?_))
    have hparts : Lays stream (buildInCommas (args.map build)) (argumentPieces args) :=
      lays_inCommas fun arg harg => .of_laysAt (ih arg harg)
    have hlays := hparts (pos + 2)
    rw [lexemesOf_argumentPieces, ← occurrencesOfEach_eq] at hlays
    have hargs : LaysAt stream (pos + 1) (pos + (inCommas (args.map lexemes)).length + 3) (do
          advance
          let args ← buildInCommas (args.map build)
          advance
          addExpr (.call d args) (← Parser.declOf d).type.result (place stream pos))
        (occurrencesOfEach (pos + 2) args ++ [⟨pos, .call f args⟩]) := by
      refine .token (hlays.bind fun ids => .token (.after_keeps (.declOf _) fun _ => ?_))
      exact .addExpr trivial rfl (by omega)
    have hlength : pos + (inCommas (args.map lexemes)).length + 3 = pos + (Lexeme.identifier f ::
        .punct .leftParen :: (inCommas (args.map lexemes) ++ [.punct .rightParen])).length := by
      simp only [List.length_cons, List.length_append, List.length_nil]
      omega
    rw [← hlength]
    dsimp only
    split
    · exact hargs
    · -- what is called is no function, so the parser fails
      exact .after_keeps (.fail _ _) fun _ => hargs
  | paren inner ih =>
    rw [build, occurrences, lexemes, List.length_cons, List.length_append]
    refine .here (.token ((ih (pos + 1)).bind fun e =>
      .token (.after_keeps (.typeOf e) fun _ => ?_)))
    exact .addExpr trivial rfl (by rw [List.length_singleton]; omega)
  | subscript base index ihb ihi =>
    rw [build, occurrences, lexemes, List.length_append, List.length_cons, List.length_append]
    refine (ihb pos).bind fun e =>
      .here (.token ((ihi (pos + base.lexemes.length + 1)).bind fun i => .token ?_))
    refine .after_keeps (.typeOf e) fun _ => ?_
    exact .addExpr trivial rfl (by rw [List.length_singleton]; omega)
  | unary op operand ih =>
    rw [build, occurrences, lexemes]
    -- the sign is taken after the operand or before it, and the node lies at the sign
    split
    · next htrails =>
      refine (ih pos).bind fun e => .here (.token ?_)
      rw [List.length_append, ← Nat.add_assoc]
      refine laysAt_addUnary e ?_ rfl
      rw [Occurrence.anchor, offset, if_pos htrails]
    · next htrails =>
      refine .here (.token ((ih (pos + 1)).bind fun e => ?_))
      refine laysAt_addUnary e ?_ (by rw [List.length_cons]; omega)
      rw [Occurrence.anchor, offset, if_neg htrails, Nat.add_zero]
  | binary op lhs rhs ihl ihr =>
    rw [build, occurrences, lexemes, List.length_append, List.length_cons]
    refine (ihl pos).bind fun l =>
      .here (.token ((ihr (pos + lhs.lexemes.length + 1)).bind fun r => ?_))
    refine .after_keeps (.typeOf l) fun _ => .after_keeps (.typeOf r) fun _ => ?_
    exact .addExpr rfl rfl (by omega)
  | cast type operand ih =>
    rw [build, occurrences, lexemes, List.length_cons, List.length_append, List.length_cons]
    refine .here (.token ((type.laysAt_build (pos + 1)).skip fun _ =>
      .token ((ih _).bind fun e => ?_)))
    exact .addExpr trivial rfl (by omega)
  | sizeOfType type =>
    rw [build, occurrences, lexemes, List.length_cons, List.length_cons, List.length_append]
    refine .here (.token (.token ((type.laysAt_build (pos + 1 + 1)).skip fun _ => .token ?_)))
    exact .addExpr trivial rfl (by rw [List.length_singleton]; omega)
  | sizeOf operand ih =>
    rw [build, occurrences, lexemes, List.length_cons]
    refine .here (.token ((ih (pos + 1)).bind fun e => .after_keeps (.typeOf e) fun _ => ?_))
    exact .addExpr trivial rfl (by omega)

end Expr

/-! ## Parts of files -/

namespace Lays

variable {x : Parser α} {ps : List Piece}

theorem expr (e : Expr) : Lays stream e.build [.expr e] := .of_laysAt e.laysAt_build

theorem inScope (hx : Lays stream x ps) : Lays stream (inScope x) ps :=
  .after_keeps (fun _ => ⟨rfl, rfl, rfl⟩) fun _ => hx.then_keeps fun _ =>
    .bind (fun _ => ⟨rfl, rfl, rfl⟩) fun _ => .pure _

theorem optional (e : Option Expr) : Lays stream (buildOptional e) (optionalPieces e) := by
  cases e with
  | none => exact pure _
  | some e => exact (expr e).map

end Lays

theorem lays_skip (ls : List Lexeme) : Lays stream (skip ls.length) (tokens ls) :=
  .tokens fun pos => laysAt_skip ls.length pos

theorem TypeName.lays_build (t : TypeName) : Lays stream t.build (tokens t.lexemes) :=
  .tokens fun pos => t.laysAt_build pos

/-- A declarator has the expressions of its initialiser. -/
theorem Declarator.lays_build (base : BaseType) (storage : Storage) (d : Declarator) :
    Lays stream (d.build base storage) d.pieces := by
  have hstars : Lays stream (skip d.stars) (tokens (List.replicate d.stars (.punct .star))) := by
    have hskip : Lays stream _ _ := lays_skip (List.replicate d.stars (.punct .star))
    rwa [List.length_replicate] at hskip
  refine hstars.bind fun _ => .after_keeps .here fun loc =>
    .token _ ((lays_skip _).bind fun _ => ?_)
  refine .after_keeps (.addDecl _ _ _) fun v => .after_keeps (.declare _ _ _) fun _ => ?_
  rw [initPieces]
  cases d.init with
  | none => exact .pure _
  | some e =>
    exact .token _ ((Lays.expr e).then_keeps fun _ => .bind (.modifyDecl _ _) fun _ => .pure _)

/-- A list of declarators has the expressions of its initialisers, in order. -/
theorem Declaration.lays_build (storage : Storage) (d : Declaration) :
    Lays stream (d.build storage) d.pieces := by
  refine .token _ ((lays_inCommas fun v _ => v.lays_build d.base storage).bind fun _ => ?_)
  exact .token _ (.pure _)

theorem ForInit.lays_build (init : ForInit) : Lays stream init.build init.pieces := by
  cases init with
  | none => exact .token _ (.pure _)
  | declare d =>
    exact .after_keeps .here fun _ => (d.lays_build .local).then_keeps fun _ => by
      rw [map_eq_pure_bind]
      exact .bind (.addStmt _ _) fun _ => .pure _
  | expr e =>
    refine .after_keeps .here fun _ => (Lays.expr e).bind fun _ => .token _ ?_
    exact Lays.map (.of_keeps (.addStmt _ _))

namespace Stmt

/-- The statements of a body are laid one after the other. -/
theorem lays_buildAll {body : List Stmt} (h : ∀ stmt ∈ body, Lays stream stmt.build stmt.pieces) :
    Lays stream (buildAll body) (piecesOfAll body) := by
  induction body with
  | nil => exact .pure _
  | cons stmt body ih =>
    rw [List.forall_mem_cons] at h
    exact h.1.bind fun _ => (ih h.2).then_keeps fun _ => .pure _

/-- A statement adds the nodes of its expressions, in the order in which they are written. -/
theorem lays_build (stmt : Stmt) : Lays stream stmt.build stmt.pieces := by
  induction stmt with
  | block body ih =>
    refine .after_keeps .here fun _ =>
      .token _ ((lays_buildAll ih).inScope.bind fun _ => .token _ ?_)
    exact .of_keeps (.addStmt _ _)
  | declare d =>
    exact .after_keeps .here fun _ => (d.lays_build .local).then_keeps fun _ => .addStmt _ _
  | expr e =>
    exact .after_keeps .here fun _ => (Lays.expr e).bind fun _ =>
      .token _ (.of_keeps (.addStmt _ _))
  | ifThen condition thenBranch ih =>
    refine .after_keeps .here fun _ =>
      .token _ (.token _ ((Lays.expr condition).bind fun _ => .token _ ?_))
    exact ih.then_keeps fun _ => .addStmt _ _
  | ifElse condition thenBranch elseBranch iht ihe =>
    refine .after_keeps .here fun _ =>
      .token _ (.token _ ((Lays.expr condition).bind fun _ => .token _ ?_))
    exact iht.bind fun _ => .token _ (ihe.then_keeps fun _ => .addStmt _ _)
  | whileLoop condition body ih =>
    refine .after_keeps .here fun _ =>
      .token _ (.token _ ((Lays.expr condition).bind fun _ => .token _ ?_))
    exact ih.then_keeps fun _ => .addStmt _ _
  | forLoop init condition increment body ih =>
    refine .after_keeps .here fun _ =>
      .token _ (Lays.inScope (.token _ (init.lays_build.bind fun _ => ?_)))
    refine (Lays.optional condition).bind fun _ =>
      .token _ ((Lays.optional increment).bind fun _ => .token _ ?_)
    exact ih.then_keeps fun _ => .addStmt _ _
  | ret value =>
    refine .after_keeps .here fun _ => .token _ ((Lays.optional value).bind fun _ => .token _ ?_)
    exact .of_keeps (.addStmt _ _)
  | empty => exact .after_keeps .here fun _ => .token _ (.of_keeps (.addStmt _ _))

end Stmt

/-- A parameter has no expressions. -/
theorem Param.lays_build (p : Param) : Lays stream p.build (tokens p.lexemes) := by
  have hname :
      Lays stream (skip p.name.toList.length) (tokens (p.name.toList.map .identifier)) := by
    have hskip : Lays stream _ _ := lays_skip (p.name.toList.map Lexeme.identifier)
    rwa [List.length_map] at hskip
  have hpieces : tokens p.lexemes = tokens p.typeName.lexemes ++
      (tokens (p.name.toList.map .identifier) ++ (tokens p.lengthLexemes ++ [])) := by
    rw [lexemes, tokens, List.map_append, List.map_append, List.append_nil]
    rfl
  rw [hpieces]
  refine p.typeName.lays_build.bind fun _ => .after_keeps .here fun loc => hname.bind fun _ => ?_
  refine (lays_skip p.lengthLexemes).bind fun _ =>
    .of_keeps ((Keeps.addDecl _ _ _).bind fun d => ?_)
  dsimp only
  split
  · exact .pure _
  · exact (Keeps.declare _ _ _).bind fun _ => .pure _

theorem tokens_inCommas (lss : List (List Lexeme)) :
    tokens (inCommas lss) = piecesInCommas (lss.map tokens) := by
  cases lss with
  | nil => rfl
  | cons ls lss =>
    rw [inCommas, List.map_cons, piecesInCommas, tokens, List.map_append,
      List.map_flatMap, List.flatMap_map]
    rfl

theorem Params.lays_build (params : Params) : Lays stream params.build (tokens params.lexemes) := by
  cases params with
  | void => exact .token _ (.pure _)
  | list params =>
    rw [lexemes, tokens_inCommas, List.map_map]
    exact lays_inCommas fun p _ => p.lays_build

/-- A body has the expressions of its statements. -/
theorem lays_buildBody (d : DeclId) (x : String) (loc opening : Location) (params : List DeclId)
    (body : List Stmt) :
    Lays stream (buildBody d x loc opening params body)
      (Stmt.piecesOfAll body ++ [.token (.punct .rightBrace)]) := by
  have hbody : Lays stream (do
      modifyDecl d (Decl.withParams params loc)
      let ids ← Stmt.buildAll body
      advance
      let block ← addStmt (.block ids) opening
      modifyDecl d (Decl.withBody block))
        (Stmt.piecesOfAll body ++ [.token (.punct .rightBrace)]) := by
    refine .after_keeps (.modifyDecl _ _) fun _ =>
      (Stmt.lays_buildAll fun stmt _ => stmt.lays_build).bind fun _ => ?_
    exact .token _ (.of_keeps ((Keeps.addStmt _ _).bind fun _ => .modifyDecl _ _))
  refine .after_keeps (.declOf d) fun decl => ?_
  dsimp only
  split
  · -- the function has a body already
    exact .after_keeps (.fail _ _) fun _ => hbody
  · exact hbody

/-- A function has the expressions of its body. -/
theorem Function.lays_build (f : Function) : Lays stream f.build f.pieces := by
  refine f.returnType.lays_build.bind fun _ => .after_keeps .here fun loc => .token _ (.token _ ?_)
  refine Lays.inScope (f.params.lays_build.bind fun params => .token _ ?_)
  refine .after_keeps (.functionDecl _ _ _ _) fun d => .after_keeps .here fun opening => ?_
  rw [bodyPieces]
  cases f.body with
  | none => exact .token _ (.pure _)
  | some body => exact .token _ (lays_buildBody _ _ _ _ _ _)

theorem lays_addItems (ds : List DeclId) : Keeps (ds.forM fun d => addItem (.variable d)) := by
  induction ds with
  | nil => exact .pure _
  | cons d ds ih => exact .bind (.addItem _) fun _ => ih

theorem TopLevel.lays_build (d : TopLevel) : Lays stream d.build d.pieces := by
  have hitem : Lays stream d.item.build d.item.pieces := by
    cases d.item with
    | declaration v => exact (v.lays_build .global).then_keeps fun ds => lays_addItems ds
    | function f => exact f.lays_build
  rw [build, pieces]
  split
  · exact .token _ hitem
  · exact hitem

/-- A file adds the nodes of its expressions, in the order in which they are written. -/
theorem File.lays_build (file : File) : Lays stream file.build file.pieces := by
  rw [File.build, File.pieces]
  induction file.declarations with
  | nil => exact .pure _
  | cons d ds ih => exact d.lays_build.bind fun _ => ih

/-! ## Programs -/

/-- The program of a file has the expressions of the file, in order, at the places of the tokens
that introduce them. -/
theorem Writes.nodes {file : File} (h : Writes stream file) {p : Program}
    (hp : Program.ofTokens stream = .ok p) :
    List.Forall₂ (Occurrence.Node stream) file.occurrences p.exprs.toList := by
  rw [ofTokens_eq_build h.wellFormed h.lexemes] at hp
  cases ht : file.build (.start stream) with
  | error e =>
    rw [ht] at hp
    cases hp
  | ok out =>
    rw [ht] at hp
    cases hp
    -- the program is empty at the start, so its expressions are the ones that were added
    obtain ⟨-, nodes, hnodes, hos⟩ := (file.lays_build 0 (.start stream) ⟨rfl, rfl⟩).of_ok ht
    rw [hnodes]
    exact hos

end MiniC.Written
