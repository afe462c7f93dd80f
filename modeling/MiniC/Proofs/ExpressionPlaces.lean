import Mathlib.Data.List.Perm.Subperm
import MiniC.Proofs.NameResolution

/-!
# Where expressions lie in a text

`Written.File.occurrences` lists the expressions of a file with their positions, each after its
operands. Every expression has a token that introduces it (`Written.Expr.introducer`), and no two
expressions have the same one (`Written.File.spread_anchors`).
-/

set_option autoImplicit false

namespace MiniC.Written

/-! ## Expressions inside expressions -/

/-- An expression in a text, and the number of tokens before it. -/
structure Occurrence where
  pos : Nat
  expr : Expr

namespace Expr

mutual

/-- The expressions inside an expression that begins at a position, each after its operands. -/
def occurrences (pos : Nat) : Expr → List Occurrence
  | .literal value => [⟨pos, .literal value⟩]
  | .name x => [⟨pos, .name x⟩]
  | .call f args => occurrencesOfEach (pos + 2) args ++ [⟨pos, .call f args⟩]
  | .paren inner => inner.occurrences (pos + 1) ++ [⟨pos, .paren inner⟩]
  | .subscript base index =>
    base.occurrences pos ++ (index.occurrences (pos + base.lexemes.length + 1) ++
      [⟨pos, .subscript base index⟩])
  | .unary op operand =>
    operand.occurrences (if op.trails then pos else pos + 1) ++ [⟨pos, .unary op operand⟩]
  | .binary op lhs rhs =>
    lhs.occurrences pos ++ (rhs.occurrences (pos + lhs.lexemes.length + 1) ++
      [⟨pos, .binary op lhs rhs⟩])
  | .cast type operand =>
    operand.occurrences (pos + 1 + type.lexemes.length + 1) ++ [⟨pos, .cast type operand⟩]
  | .sizeOfType type => [⟨pos, .sizeOfType type⟩]
  | .sizeOf operand => operand.occurrences (pos + 1) ++ [⟨pos, .sizeOf operand⟩]

/-- The same for the arguments of a call, of which the first begins at the position. -/
def occurrencesOfEach (pos : Nat) : List Expr → List Occurrence
  | [] => []
  | arg :: args => arg.occurrences pos ++ occurrencesOfEach (pos + arg.lexemes.length + 1) args

end

/-- How many tokens of an expression come before the one that introduces it. -/
def offset : Expr → Nat
  | .subscript base _ => base.lexemes.length
  | .binary _ lhs _ => lhs.lexemes.length
  | .unary op operand => if op.trails then operand.lexemes.length else 0
  | .literal _ | .name _ | .call .. | .paren _ | .cast .. | .sizeOfType _ | .sizeOf _ => 0

/-- The lexeme that introduces an expression: a literal, the name of a reference or a call, the
opening parenthesis of a parenthesised expression or a cast, the sign of an operator, the opening
bracket of a subscript, or the word that asks for a size. -/
def introducer : Expr → Lexeme
  | .literal value => .integer value
  | .name x => .identifier x
  | .call f _ => .identifier f
  | .paren _ | .cast .. => .punct .leftParen
  | .subscript .. => .punct .leftBracket
  | .unary op _ => .punct op.sign
  | .binary op .. => .punct op.sign
  | .sizeOfType _ | .sizeOf _ => .keyword .sizeofKw

/-- The token that introduces an expression is where its offset says. -/
theorem getElem?_offset (e : Expr) : e.lexemes[e.offset]? = some e.introducer := by
  cases e with
  | unary op operand =>
    rw [lexemes, offset, introducer]
    split
    · simp
    · rfl
  | literal | name | call | paren | cast | sizeOfType | sizeOf => simp [lexemes, offset, introducer]
  | subscript | binary => simp [lexemes, offset, introducer]

end Expr

namespace Occurrence

/-- The position of the token that introduces the expression. -/
def anchor (o : Occurrence) : Nat := o.pos + o.expr.offset

/-- The expression is spelled by the lexemes from its position on. -/
def SpelledIn (ls : List Lexeme) (o : Occurrence) : Prop := o.expr.lexemes <+: ls.drop o.pos

/-- In a text that spells the expression it is at the anchor. -/
theorem SpelledIn.getElem?_anchor {ls : List Lexeme} {o : Occurrence} (h : o.SpelledIn ls) :
    ls[o.anchor]? = some o.expr.introducer := by
  obtain ⟨rest, hrest⟩ := h
  have hget := o.expr.getElem?_offset
  have hlt := (List.getElem?_eq_some_iff.1 hget).1
  have happend : (o.expr.lexemes ++ rest)[o.expr.offset]? = some o.expr.introducer :=
    (List.getElem?_append_left hlt).trans hget
  rw [hrest, List.getElem?_drop] at happend
  exact happend

end Occurrence

/-! ## Parts of a text -/

/-- A part of a text: a token outside all expressions, or an expression that is part of no other
one. -/
inductive Piece where
  | token (x : Lexeme)
  | expr (e : Expr)

/-- The lexemes of a part. -/
def Piece.lexemes : Piece → List Lexeme
  | .token x => [x]
  | .expr e => e.lexemes

/-- The lexemes of parts. -/
def lexemesOf (ps : List Piece) : List Lexeme := ps.flatMap Piece.lexemes

/-- The expressions inside parts of which the first begins at a position. -/
def occurrencesIn (pos : Nat) : List Piece → List Occurrence
  | [] => []
  | .token _ :: ps => occurrencesIn (pos + 1) ps
  | .expr e :: ps => e.occurrences pos ++ occurrencesIn (pos + e.lexemes.length) ps

/-- Tokens outside all expressions. -/
def tokens (ls : List Lexeme) : List Piece := ls.map .token

/-- Parts with commas between them. -/
def piecesInCommas : List (List Piece) → List Piece
  | [] => []
  | first :: others => first ++ others.flatMap (.token (.punct .comma) :: ·)

/-- The arguments of a call, with commas between them. -/
def argumentPieces (args : List Expr) : List Piece :=
  piecesInCommas (args.map fun arg => [.expr arg])

@[simp] theorem lexemesOf_nil : lexemesOf [] = [] := rfl

@[simp] theorem lexemesOf_token (x : Lexeme) (ps : List Piece) :
    lexemesOf (.token x :: ps) = x :: lexemesOf ps := rfl

@[simp] theorem lexemesOf_expr (e : Expr) (ps : List Piece) :
    lexemesOf (.expr e :: ps) = e.lexemes ++ lexemesOf ps := rfl

@[simp] theorem lexemesOf_append (ps qs : List Piece) :
    lexemesOf (ps ++ qs) = lexemesOf ps ++ lexemesOf qs :=
  List.flatMap_append

@[simp] theorem lexemesOf_tokens (ls : List Lexeme) : lexemesOf (tokens ls) = ls := by
  induction ls with
  | nil => rfl
  | cons x ls ih => rw [tokens, List.map_cons, lexemesOf_token, ← tokens, ih]

/-- The commas of a list are among the lexemes of its parts. -/
theorem lexemesOf_piecesInCommas {ι : Type} {pieces : ι → List Piece}
    {lexemes : ι → List Lexeme} {ts : List ι} (h : ∀ t ∈ ts, lexemesOf (pieces t) = lexemes t) :
    lexemesOf (piecesInCommas (ts.map pieces)) = inCommas (ts.map lexemes) := by
  have hafter : ∀ ts : List ι, (∀ t ∈ ts, lexemesOf (pieces t) = lexemes t) →
      lexemesOf ((ts.map pieces).flatMap (.token (.punct .comma) :: ·)) =
        (ts.map lexemes).flatMap (.punct .comma :: ·) := by
    intro ts h
    induction ts with
    | nil => rfl
    | cons t ts ih =>
      rw [List.forall_mem_cons] at h
      simp [h.1, ih h.2]
  cases ts with
  | nil => rfl
  | cons t ts =>
    rw [List.forall_mem_cons] at h
    simp [piecesInCommas, inCommas, h.1, hafter ts h.2]

/-- Expressions in later parts come after the lexemes of the earlier ones. -/
theorem occurrencesIn_append (pos : Nat) (ps qs : List Piece) :
    occurrencesIn pos (ps ++ qs) = occurrencesIn pos ps ++
      occurrencesIn (pos + (lexemesOf ps).length) qs := by
  induction ps generalizing pos with
  | nil => rfl
  | cons p ps ih =>
    cases p with
    | token x =>
      rw [List.cons_append, occurrencesIn, occurrencesIn, ih, lexemesOf_token, List.length_cons]
      congr 2
      omega
    | expr e =>
      rw [List.cons_append, occurrencesIn, occurrencesIn, ih, lexemesOf_expr, List.length_append,
        List.append_assoc]
      congr 3
      omega

/-- The expressions inside a part are among those of all parts. -/
theorem exists_pos_of_mem {ps : List Piece} {e : Expr} (he : .expr e ∈ ps) (pos : Nat) :
    ∃ pos', e.occurrences pos' ⊆ occurrencesIn pos ps := by
  induction ps generalizing pos with
  | nil => cases he
  | cons p ps ih =>
    rcases List.mem_cons.1 he with rfl | hmem
    · exact ⟨pos, List.subset_append_left _ _⟩
    · cases p with
      | token x => exact ih hmem (pos + 1)
      | expr e' =>
        obtain ⟨pos', hsubset⟩ := ih hmem (pos + e'.lexemes.length)
        exact ⟨pos', List.subset_append_of_subset_right _ hsubset⟩

@[simp] theorem expr_mem_argumentPieces {e : Expr} {args : List Expr} :
    .expr e ∈ argumentPieces args ↔ e ∈ args := by
  cases args with
  | nil => simp [argumentPieces, piecesInCommas]
  | cons arg args => simp [argumentPieces, piecesInCommas]

/-- Arguments are spelled with commas between them. -/
theorem lexemesOf_argumentPieces (args : List Expr) :
    lexemesOf (argumentPieces args) = inCommas (args.map Expr.lexemes) :=
  lexemesOf_piecesInCommas fun arg _ => List.append_nil arg.lexemes

/-- The expressions inside the arguments of a call are those inside its parts. -/
theorem occurrencesOfEach_eq (pos : Nat) (args : List Expr) :
    Expr.occurrencesOfEach pos args = occurrencesIn pos (argumentPieces args) := by
  -- the arguments after the first one, each of which follows a comma
  have hothers (args : List Expr) (pos : Nat) : Expr.occurrencesOfEach (pos + 1) args =
      occurrencesIn pos ((args.map fun arg =>
        [Piece.expr arg]).flatMap (.token (.punct .comma) :: ·)) := by
    induction args generalizing pos with
    | nil => rfl
    | cons arg args ih =>
      rw [Expr.occurrencesOfEach, ih]
      rfl
  cases args with
  | nil => rfl
  | cons arg args =>
    rw [Expr.occurrencesOfEach, hothers]
    rfl

/-! ## Parts are spelled where they are -/

/-- What two parts spell is spelled by the first, and after it by the second. -/
theorem append_prefix_drop {ls a b : List Lexeme} {pos : Nat} (h : a ++ b <+: ls.drop pos) :
    a <+: ls.drop pos ∧ b <+: ls.drop (pos + a.length) := by
  obtain ⟨rest, hrest⟩ := h
  rw [List.append_assoc] at hrest
  refine ⟨⟨_, hrest⟩, rest, ?_⟩
  rw [← List.drop_drop, ← hrest, List.drop_left]

theorem cons_prefix_drop {ls b : List Lexeme} {x : Lexeme} {pos : Nat}
    (h : x :: b <+: ls.drop pos) :
    b <+: ls.drop (pos + 1) := (append_prefix_drop (a := [x]) h).2

/-- All expressions in some parts are spelled by the text that spells the parts. -/
theorem spelledIn_of_mem_occurrencesIn {ls : List Lexeme} {ps : List Piece} {pos : Nat}
    (h : lexemesOf ps <+: ls.drop pos)
    (he : ∀ e, .expr e ∈ ps → ∀ pos, e.lexemes <+: ls.drop pos →
      ∀ o ∈ e.occurrences pos, o.SpelledIn ls) :
    ∀ o ∈ occurrencesIn pos ps, o.SpelledIn ls := by
  induction ps generalizing pos with
  | nil => exact nofun
  | cons p ps ih =>
    have hrest := fun e hmem => he e (List.mem_cons_of_mem p hmem)
    cases p with
    | token x => exact ih (cons_prefix_drop h) hrest
    | expr e =>
      obtain ⟨hexpr, hps⟩ := append_prefix_drop h
      rw [occurrencesIn, List.forall_mem_append]
      exact ⟨he e List.mem_cons_self pos hexpr, ih hps hrest⟩

namespace Expr

/-- Where an expression is spelled, so are the ones inside it. -/
theorem spelledIn_of_mem_occurrences {ls : List Lexeme} (e : Expr) {pos : Nat}
    (h : e.lexemes <+: ls.drop pos) :
    ∀ o ∈ e.occurrences pos, o.SpelledIn ls := by
  induction e generalizing pos with
  | literal | name | sizeOfType => exact List.forall_mem_singleton.2 h
  | call f args ih =>
    rw [occurrences, List.forall_mem_append, List.forall_mem_singleton]
    refine ⟨?_, h⟩
    rw [lexemes, lexemesOfEach_eq_map, ← lexemesOf_argumentPieces] at h
    have hargs := (append_prefix_drop (cons_prefix_drop (cons_prefix_drop h))).1
    rw [occurrencesOfEach_eq]
    exact spelledIn_of_mem_occurrencesIn hargs fun arg harg _ =>
      ih arg (expr_mem_argumentPieces.1 harg)
  | paren inner ih =>
    rw [occurrences, List.forall_mem_append, List.forall_mem_singleton]
    refine ⟨ih ?_, h⟩
    rw [lexemes] at h
    exact (append_prefix_drop (cons_prefix_drop h)).1
  | subscript base index ihb ihi =>
    rw [occurrences, List.forall_mem_append, List.forall_mem_append, List.forall_mem_singleton]
    have hparts := h
    rw [lexemes] at hparts
    obtain ⟨hbase, hrest⟩ := append_prefix_drop hparts
    exact ⟨ihb hbase, ihi (append_prefix_drop (cons_prefix_drop hrest)).1, h⟩
  | unary op operand ih =>
    rw [occurrences, List.forall_mem_append, List.forall_mem_singleton]
    refine ⟨ih ?_, h⟩
    rw [lexemes] at h
    split
    · next htrails =>
      rw [if_pos htrails] at h
      exact (append_prefix_drop h).1
    · next htrails =>
      rw [if_neg htrails] at h
      exact cons_prefix_drop h
  | binary op lhs rhs ihl ihr =>
    rw [occurrences, List.forall_mem_append, List.forall_mem_append, List.forall_mem_singleton]
    have hparts := h
    rw [lexemes] at hparts
    obtain ⟨hlhs, hrest⟩ := append_prefix_drop hparts
    exact ⟨ihl hlhs, ihr (cons_prefix_drop hrest), h⟩
  | cast type operand ih =>
    rw [occurrences, List.forall_mem_append, List.forall_mem_singleton]
    refine ⟨ih ?_, h⟩
    rw [lexemes] at h
    exact cons_prefix_drop (append_prefix_drop (cons_prefix_drop h)).2
  | sizeOf operand ih =>
    rw [occurrences, List.forall_mem_append, List.forall_mem_singleton]
    refine ⟨ih ?_, h⟩
    rw [lexemes] at h
    exact cons_prefix_drop h

end Expr

/-! ## Anchors are distinct -/

/-- Different numbers between two bounds. -/
structure Spread (lo hi : Nat) (l : List Nat) : Prop where
  nodup : l.Nodup
  bounds : ∀ a ∈ l, lo ≤ a ∧ a < hi

namespace Spread

variable {lo mid hi lo' hi' a : Nat} {l l' : List Nat}

theorem nil : Spread lo hi [] := ⟨.nil, nofun⟩

theorem singleton (hlo : lo ≤ a) (hhi : a < hi) : Spread lo hi [a] :=
  ⟨List.pairwise_singleton _ a, List.forall_mem_singleton.2 ⟨hlo, hhi⟩⟩

/-- Numbers between two bounds are between wider ones. -/
theorem mono (h : Spread lo hi l) (hlo : lo' ≤ lo) (hhi : hi ≤ hi') : Spread lo' hi' l where
  nodup := h.nodup
  bounds a ha := ⟨Nat.le_trans hlo (h.bounds a ha).1, Nat.lt_of_lt_of_le (h.bounds a ha).2 hhi⟩

/-- Numbers below and above a bound are different. -/
theorem append (h : Spread lo mid l) (h' : Spread mid hi l') (hlo : lo ≤ mid) (hhi : mid ≤ hi) :
    Spread lo hi (l ++ l') where
  nodup := by
    refine List.nodup_append.2 ⟨h.nodup, h'.nodup, fun a ha b hb => ?_⟩
    exact Nat.ne_of_lt (Nat.lt_of_lt_of_le (h.bounds a ha).2 (h'.bounds b hb).1)
  bounds := List.forall_mem_append.2
    ⟨(h.mono (Nat.le_refl _) hhi).bounds, (h'.mono hlo (Nat.le_refl _)).bounds⟩

/-- A number between those of two parts may come last. -/
theorem between (h : Spread lo a l) (h' : Spread (a + 1) hi l') (hlo : lo ≤ a) (hhi : a < hi) :
    Spread lo hi (l ++ (l' ++ [a])) where
  nodup := by
    -- in increasing order the number stands between the two parts
    have hspread : Spread lo hi (l ++ ([a] ++ l')) :=
      h.append ((singleton (Nat.le_refl a) (Nat.lt_succ_self a)).append h' (Nat.le_succ a) hhi) hlo
        (Nat.le_of_lt hhi)
    exact (List.Perm.append_left l List.perm_append_comm).nodup hspread.nodup
  bounds := by
    rw [List.forall_mem_append, List.forall_mem_append, List.forall_mem_singleton]
    exact ⟨(h.mono (Nat.le_refl _) (Nat.le_of_lt hhi)).bounds,
      (h'.mono (Nat.le_succ_of_le hlo) (Nat.le_refl _)).bounds, hlo, hhi⟩

/-- The number in front of a part may come last. -/
theorem before (h : Spread (a + 1) hi l) (hhi : a < hi) : Spread a hi (l ++ [a]) :=
  nil.between h (Nat.le_refl a) hhi

/-- There are at most as many different numbers as there is room for. -/
theorem length_le (h : Spread lo hi l) : l.length ≤ hi := by
  have hsubset : l ⊆ List.range hi := fun a ha => List.mem_range.2 (h.bounds a ha).2
  simpa using (List.subperm_of_subset h.nodup hsubset).length_le

end Spread

/-- Anchors in different parts are different, since no lexeme is in two of them. -/
theorem spread_anchorsIn (ps : List Piece) (pos : Nat)
    (h : ∀ e, .expr e ∈ ps → ∀ pos,
      Spread pos (pos + e.lexemes.length) ((e.occurrences pos).map Occurrence.anchor)) :
    Spread pos (pos + (lexemesOf ps).length) ((occurrencesIn pos ps).map Occurrence.anchor) := by
  induction ps generalizing pos with
  | nil => exact .nil
  | cons p ps ih =>
    have hrest (pos : Nat) := ih pos fun e hmem => h e (List.mem_cons_of_mem p hmem)
    cases p with
    | token x =>
      rw [occurrencesIn, lexemesOf_token, List.length_cons]
      exact (hrest (pos + 1)).mono (Nat.le_succ pos) (by omega)
    | expr e =>
      rw [occurrencesIn, List.map_append, lexemesOf_expr, List.length_append]
      have hexpr := h e List.mem_cons_self pos
      exact hexpr.append ((hrest _).mono (Nat.le_refl _) (by omega)) (by omega) (by omega)

namespace Expr

/-- The tokens that introduce the expressions inside an expression are different tokens of it. -/
theorem spread_anchors (e : Expr) (pos : Nat) :
    Spread pos (pos + e.lexemes.length) ((e.occurrences pos).map Occurrence.anchor) := by
  induction e generalizing pos with
  | literal | name => exact .singleton (Nat.le_refl _) (Nat.lt_succ_self _)
  | sizeOfType => exact .singleton (Nat.le_refl _) (Nat.lt_add_of_pos_right (Nat.succ_pos _))
  | call f args ih =>
    -- the name of the function comes before the arguments, and introduces the call
    have hargs := spread_anchorsIn (argumentPieces args) (pos + 2) fun arg harg =>
      ih arg (expr_mem_argumentPieces.1 harg)
    rw [occurrences, List.map_append, lexemes, lexemesOfEach_eq_map,
      occurrencesOfEach_eq, ← lexemesOf_argumentPieces]
    simp only [List.length_cons, List.length_append, List.length_nil]
    exact (hargs.mono (Nat.le_succ _) (by omega)).before (by omega)
  | paren inner ih =>
    rw [occurrences, List.map_append, lexemes]
    simp only [List.length_cons, List.length_append, List.length_nil]
    exact ((ih (pos + 1)).mono (Nat.le_refl _) (by omega)).before (by omega)
  | subscript base index ihb ihi =>
    -- the bracket stands between base and index
    rw [occurrences, List.map_append, List.map_append, lexemes]
    simp only [List.length_cons, List.length_append, List.length_nil]
    refine (ihb pos).between ((ihi (pos + base.lexemes.length + 1)).mono (Nat.le_refl _) ?_) ?_ ?_
      <;> omega
  | unary op operand ih =>
    rw [occurrences, List.map_append, lexemes, List.map_singleton, Occurrence.anchor, offset]
    split
    · -- the sign of a trailing operator comes after its operand
      rw [List.length_append]
      exact (ih pos).between .nil (Nat.le_add_right _ _) (Nat.lt_succ_self _)
    · rw [List.length_cons]
      exact ((ih (pos + 1)).mono (Nat.le_refl _) (by omega)).before (by omega)
  | binary op lhs rhs ihl ihr =>
    -- the sign stands between the operands
    rw [occurrences, List.map_append, List.map_append, lexemes]
    simp only [List.length_cons, List.length_append]
    refine (ihl pos).between ((ihr (pos + lhs.lexemes.length + 1)).mono (Nat.le_refl _) ?_) ?_ ?_
      <;> omega
  | cast type operand ih =>
    rw [occurrences, List.map_append, lexemes]
    simp only [List.length_cons, List.length_append]
    exact ((ih (pos + 1 + type.lexemes.length + 1)).mono (by omega) (by omega)).before (by omega)
  | sizeOf operand ih =>
    rw [occurrences, List.map_append, lexemes, List.length_cons]
    exact ((ih (pos + 1)).mono (Nat.le_refl _) (by omega)).before (by omega)

end Expr

/-! ## Expressions in files -/

/-- The parts of the initialiser of a declarator, with its sign. -/
def Declarator.initPieces (d : Declarator) : List Piece :=
  match d.init with
  | none => []
  | some e => [.token (.punct .assign), .expr e]

/-- The parts of a declarator. -/
def Declarator.pieces (d : Declarator) : List Piece :=
  tokens (List.replicate d.stars (.punct .star)) ++
    .token (.identifier d.name) :: (tokens d.lengthLexemes ++ d.initPieces)

/-- The parts of a declaration. -/
def Declaration.pieces (d : Declaration) : List Piece :=
  .token (.keyword d.base.word) ::
    (piecesInCommas (d.declarators.map Declarator.pieces) ++ [.token (.punct .semicolon)])

/-- The parts of the first clause of a `for` statement. -/
def ForInit.pieces : ForInit → List Piece
  | .none => [.token (.punct .semicolon)]
  | .declare d => d.pieces
  | .expr e => [.expr e, .token (.punct .semicolon)]

/-- An expression that may be missing. -/
def optionalPieces (e : Option Expr) : List Piece := e.toList.map .expr

namespace Stmt

mutual

/-- The parts of a statement. -/
def pieces : Stmt → List Piece
  | .block body => .token (.punct .leftBrace) :: (piecesOfAll body ++ [.token (.punct .rightBrace)])
  | .declare d => d.pieces
  | .expr e => [.expr e, .token (.punct .semicolon)]
  | .ifThen condition thenBranch =>
    .token (.keyword .ifKw) :: .token (.punct .leftParen) :: .expr condition ::
      .token (.punct .rightParen) :: thenBranch.pieces
  | .ifElse condition thenBranch elseBranch =>
    .token (.keyword .ifKw) :: .token (.punct .leftParen) :: .expr condition ::
      .token (.punct .rightParen) ::
        (thenBranch.pieces ++ .token (.keyword .elseKw) :: elseBranch.pieces)
  | .whileLoop condition body =>
    .token (.keyword .whileKw) :: .token (.punct .leftParen) :: .expr condition ::
      .token (.punct .rightParen) :: body.pieces
  | .forLoop init condition increment body =>
    .token (.keyword .forKw) :: .token (.punct .leftParen) ::
      (init.pieces ++ (optionalPieces condition ++ .token (.punct .semicolon) ::
        (optionalPieces increment ++ .token (.punct .rightParen) :: body.pieces)))
  | .ret value =>
    .token (.keyword .returnKw) :: (optionalPieces value ++ [.token (.punct .semicolon)])
  | .empty => [.token (.punct .semicolon)]

/-- The parts of the statements of a block. -/
def piecesOfAll : List Stmt → List Piece
  | [] => []
  | stmt :: stmts => stmt.pieces ++ piecesOfAll stmts

end

end Stmt

/-- The parts of the body of a function, or the semicolon of a declaration without one. -/
def Function.bodyPieces (f : Function) : List Piece :=
  match f.body with
  | none => [.token (.punct .semicolon)]
  | some body =>
    .token (.punct .leftBrace) :: (Stmt.piecesOfAll body ++ [.token (.punct .rightBrace)])

/-- The parts of a function. -/
def Function.pieces (f : Function) : List Piece :=
  tokens f.returnType.lexemes ++ .token (.identifier f.name) :: .token (.punct .leftParen) ::
    (tokens f.params.lexemes ++ .token (.punct .rightParen) :: f.bodyPieces)

/-- The parts of what is declared. -/
def Item.pieces : Item → List Piece
  | .declaration d => d.pieces
  | .function f => f.pieces

/-- The parts of a declaration of the file. -/
def TopLevel.pieces (d : TopLevel) : List Piece :=
  tokens (if d.isExtern then [.keyword .externKw] else []) ++ d.item.pieces

/-- The parts of a file. -/
def File.pieces (file : File) : List Piece := file.declarations.flatMap TopLevel.pieces

/-- The expressions of a file with their positions, each after its operands. -/
def File.occurrences (file : File) : List Occurrence := occurrencesIn 0 file.pieces

/-! ### Parts spell their trees -/

@[simp] theorem lexemesOf_optionalPieces (e : Option Expr) :
    lexemesOf (optionalPieces e) = optionalLexemes e := by
  cases e with
  | none => rfl
  | some e => exact List.append_nil _

/-- The parts of a declarator spell it. -/
@[simp] theorem Declarator.lexemesOf_pieces (d : Declarator) : lexemesOf d.pieces = d.lexemes := by
  have hinit : lexemesOf d.initPieces = d.initLexemes := by
    rw [initPieces, initLexemes]
    cases d.init <;> simp
  simp [pieces, lexemes, hinit]

/-- The parts of a declaration spell it. -/
@[simp] theorem Declaration.lexemesOf_pieces (d : Declaration) :
    lexemesOf d.pieces = d.lexemes := by
  have hds : lexemesOf (piecesInCommas (d.declarators.map Declarator.pieces)) =
      inCommas (d.declarators.map Declarator.lexemes) :=
    lexemesOf_piecesInCommas fun v _ => v.lexemesOf_pieces
  simp [pieces, lexemes, hds]

/-- The parts of the first clause of a loop spell it. -/
@[simp] theorem ForInit.lexemesOf_pieces (init : ForInit) :
    lexemesOf init.pieces = init.lexemes := by
  cases init <;> simp [pieces, lexemes]

namespace Stmt

theorem lexemesOf_piecesOfAll {body : List Stmt}
    (h : ∀ stmt ∈ body, lexemesOf stmt.pieces = stmt.lexemes) :
    lexemesOf (piecesOfAll body) = lexemesOfAll body := by
  induction body with
  | nil => rfl
  | cons stmt body ih =>
    rw [List.forall_mem_cons] at h
    simp [piecesOfAll, lexemesOfAll, h.1, ih h.2]

/-- The parts of a statement spell it. -/
theorem lexemesOf_pieces (stmt : Stmt) : lexemesOf stmt.pieces = stmt.lexemes := by
  induction stmt with
  | block body ih => simp [pieces, lexemes, lexemesOf_piecesOfAll ih]
  | declare d => exact d.lexemesOf_pieces
  | ifThen _ _ ih | whileLoop _ _ ih | forLoop _ _ _ _ ih => simp [pieces, lexemes, ih]
  | ifElse _ _ _ iht ihe => simp [pieces, lexemes, iht, ihe]
  | expr | ret | empty => simp [pieces, lexemes]

end Stmt

/-- The parts of a function spell it. -/
theorem Function.lexemesOf_pieces (f : Function) : lexemesOf f.pieces = f.lexemes := by
  have hbody : lexemesOf f.bodyPieces = f.bodyLexemes := by
    rw [bodyPieces, bodyLexemes]
    cases f.body with
    | none => rfl
    | some body => simp [Stmt.lexemesOf_piecesOfAll fun stmt _ => stmt.lexemesOf_pieces]
  simp [pieces, lexemes, hbody]

theorem TopLevel.lexemesOf_pieces (d : TopLevel) : lexemesOf d.pieces = d.lexemes := by
  have hitem : lexemesOf d.item.pieces = d.item.lexemes := by
    cases d.item with
    | declaration v => exact v.lexemesOf_pieces
    | function f => exact f.lexemesOf_pieces
  rw [pieces, lexemes, lexemesOf_append, lexemesOf_tokens, hitem]

/-- The parts of a file spell its text. -/
theorem File.lexemesOf_pieces (file : File) : lexemesOf file.pieces = file.lexemes := by
  rw [pieces, lexemes]
  induction file.declarations with
  | nil => rfl
  | cons d ds ih =>
    rw [List.flatMap_cons, lexemesOf_append, d.lexemesOf_pieces, ih, List.flatMap_cons]

/-- The expressions of a file are spelled where they are. -/
theorem File.spelledIn_of_mem (file : File) : ∀ o ∈ file.occurrences, o.SpelledIn file.lexemes := by
  have hprefix : lexemesOf file.pieces <+: file.lexemes :=
    file.lexemesOf_pieces ▸ List.prefix_refl _
  exact spelledIn_of_mem_occurrencesIn hprefix fun e _ _ => e.spelledIn_of_mem_occurrences

/-- No token introduces two expressions of a file. -/
theorem File.spread_anchors (file : File) :
    Spread 0 file.lexemes.length (file.occurrences.map Occurrence.anchor) := by
  have hspread := spread_anchorsIn file.pieces 0 fun e _ => e.spread_anchors
  rwa [file.lexemesOf_pieces, Nat.zero_add] at hspread

end MiniC.Written
