import MiniC.Proofs.ExpressionLayout
import MiniC.Proofs.SpelledExpressions
import MiniC.Proofs.UnfoldedBuilding

/-!
# Expressions are grouped as they are written

The grammar reads an expression from any tokens and in any scopes. The nodes that it adds, spelled
out again, give back the tokens that it took, and every operand binds as tightly as its operator
demands (`Written.lexemes_exprForm_expression`). The parentheses of the text are nodes of their own,
so none is added or lost. Only a `sizeof` of an expression is no part of this, since of its operand
just the type is kept.
-/

set_option autoImplicit false

namespace MiniC.Written

open MiniC.Parser

/-! ## Expressions inside expressions -/

theorem forall_mem_occurrencesIn {P : Expr → Prop} {ps : List Piece} {pos : Nat}
    (h : ∀ e, .expr e ∈ ps → ∀ pos, ∀ o ∈ e.occurrences pos, P o.expr) :
    ∀ o ∈ occurrencesIn pos ps, P o.expr := by
  induction ps generalizing pos with
  | nil => exact nofun
  | cons p ps ih =>
    have hrest := fun e hmem => h e (List.mem_cons_of_mem p hmem)
    cases p with
    | token x => exact ih hrest
    | expr e =>
      rw [occurrencesIn, List.forall_mem_append]
      exact ⟨h e List.mem_cons_self pos, ih hrest⟩

/-- Every expression inside a well-formed one is well formed. -/
theorem Expr.WellFormed.of_mem_occurrences {e : Expr} (he : e.WellFormed) {pos : Nat} :
    ∀ o ∈ e.occurrences pos, o.expr.WellFormed := by
  induction e generalizing pos with
  | literal | name | sizeOfType => exact List.forall_mem_singleton.2 he
  | call f args ih =>
    rw [occurrences, List.forall_mem_append, List.forall_mem_singleton, occurrencesOfEach_eq]
    refine ⟨forall_mem_occurrencesIn fun arg harg pos => ?_, he⟩
    have hmem := expr_mem_argumentPieces.1 harg
    exact ih arg hmem (eachWellFormed_iff.1 he arg hmem)
  | paren inner ih =>
    rw [occurrences, List.forall_mem_append, List.forall_mem_singleton]
    exact ⟨ih he, he⟩
  | subscript base index ihb ihi =>
    rw [occurrences, List.forall_mem_append, List.forall_mem_append, List.forall_mem_singleton]
    exact ⟨ihb he.1, ihi he.2.2, he⟩
  | binary op lhs rhs ihl ihr =>
    rw [occurrences, List.forall_mem_append, List.forall_mem_append, List.forall_mem_singleton]
    exact ⟨ihl he.1, ihr he.2.1, he⟩
  | unary op operand ih | cast type operand ih | sizeOf operand ih =>
    rw [occurrences, List.forall_mem_append, List.forall_mem_singleton]
    exact ⟨ih he.1, he⟩

/-! ## Sizes of types -/

/-- Every word that asks for a size is followed by a type in parentheses. -/
def SizesTypes (ls : List Lexeme) : Prop :=
  ∀ after, .keyword .sizeofKw :: after <:+ ls → beginCast after = true

/-- Where only sizes of types are asked for and literals are in range, nothing about an expression
is lost. -/
theorem Expr.WellFormed.plain {e : Expr} (he : e.WellFormed)
    (hliterals : ∀ value, .integer value ∈ e.lexemes → value < 2 ^ 31)
    (hsizes : SizesTypes e.lexemes) :
    ∀ o ∈ e.occurrences 0, o.expr.Plain := by
  intro o ho
  have hspelled : o.SpelledIn e.lexemes := e.spelledIn_of_mem_occurrences (List.prefix_refl _) o ho
  have hwf := he.of_mem_occurrences o ho
  obtain ⟨pos, inner⟩ := o
  cases inner with
  | literal value => exact hliterals value (List.mem_of_getElem? hspelled.getElem?_anchor)
  | sizeOf operand =>
    -- what follows the word begins like the operand, and no operand begins like a cast
    obtain ⟨after, hafter⟩ := hspelled
    have hsuffix : .keyword .sizeofKw :: (operand.lexemes ++ after) <:+ e.lexemes := by
      have heq : .keyword .sizeofKw :: (operand.lexemes ++ after) = e.lexemes.drop pos := hafter
      rw [heq]
      exact List.drop_suffix _ _
    have hcast := hsizes _ hsuffix
    rw [operand.beginCast_eq_false hwf.1 hwf.2] at hcast
    cases hcast
  | name | call | paren | subscript | unary | binary | cast | sizeOfType => trivial

/-! ## Reading and spelling out again -/

theorem Expr.ReadFrom.rest_eq {e : Expr} {k : Nat} {s t : ParserState} {id : ExprId}
    (h : e.ReadFrom k s id t) :
    s.rest = s.rest.take e.lexemes.length ++ t.rest := by
  have hlays : LaysAt ⟨s.rest, s.endLoc⟩ 0 (0 + e.lexemes.length) e.build (e.occurrences 0) :=
    e.laysAt_build 0
  obtain ⟨hstands, -⟩ := (hlays s ⟨rfl, rfl⟩).of_ok h.build
  rw [hstands.rest, Nat.zero_add, List.take_append_drop]

/-- Wherever an expression is read, its nodes spell out the tokens that were taken, and they are
grouped by precedence: the left operand of a left-associative operator binds at least as tightly as
the operator and the right operand more tightly, an assignment has a left side of the level of `||`
or a tighter one, operands of prefix operators and casts are of the level of casts or a tighter one,
and what a suffix follows is a primary expression or has a suffix itself. -/
theorem lexemes_exprForm_expression {s t : ParserState} {id : ExprId} (hs : Labelled s.built)
    (hliterals : ∀ value, .integer value ∈ s.lexemes → value < 2 ^ 31)
    (h : expression s = .ok (id, t)) :
    ∃ taken : List Token, s.rest = taken ++ t.rest ∧
      (SizesTypes (taken.map Token.lexeme) →
        (t.program.exprForm id).lexemes = taken.map Token.lexeme ∧
          (t.program.exprForm id).WellFormed) := by
  obtain ⟨e, he⟩ := (readsTree_expression s).of_ok h
  have htaken : (s.rest.take e.lexemes.length).map Token.lexeme = e.lexemes := by
    have hlexemes : s.rest.map Token.lexeme = e.lexemes ++ t.lexemes := he.lexemes
    rw [List.map_take, hlexemes, List.take_left]
  refine ⟨s.rest.take e.lexemes.length, he.rest_eq, fun hsizes => ?_⟩
  rw [htaken] at hsizes ⊢
  have hplain : ∀ o ∈ e.occurrences 0, o.expr.Plain := by
    refine he.wellFormed.plain (fun value hvalue => hliterals value ?_) hsizes
    rw [he.lexemes]
    exact List.mem_append_left _ hvalue
  obtain ⟨-, hexpr⟩ := (e.builds_build hplain hs).of_ok he.build
  have hform : t.program.exprForm id = e := hexpr.exprForm_eq (.refl _)
  rw [hform]
  exact ⟨rfl, he.wellFormed⟩

/-- `x = - y * 2 - (int) sizeof(int *) + y-- ;`, where `x` and `y` are variables of the file. -/
def groupedState : ParserState where
  rest := [Lexeme.identifier "x", .punct .assign, .punct .minus, .identifier "y",
    .punct .star, .integer 2, .punct .minus, .punct .leftParen, .keyword .intKw, .punct .rightParen,
    .keyword .sizeofKw, .punct .leftParen,
    .keyword .intKw, .punct .star, .punct .rightParen, .punct .plus, .identifier "y",
      .punct .minusMinus,
    .punct .semicolon].map fun x => ⟨x, ⟨1, 1⟩⟩
  endLoc := ⟨1, 1⟩
  program :=
    { Program.empty with
      decls :=
        #[⟨"x", .variable .int none .global, ⟨1, 1⟩⟩, ⟨"y", .variable .int none .global, ⟨1, 1⟩⟩] }
  scopes := ⟨[], [("y", ⟨1⟩), ("x", ⟨0⟩)]⟩

/-- The sum is grouped to the left, the product and the casts bind more tightly, and the assignment
takes all of it. -/
theorem lexemes_exprForm_groupedState :
    ∃ id t, expression groupedState = .ok (id, t) ∧ t.lexemes = [.punct .semicolon] ∧
      (t.program.exprForm id).lexemes ++ t.lexemes = groupedState.lexemes ∧
        (t.program.exprForm id).WellFormed := by
  have hlabelled : Labelled groupedState.built := by
    unfold Labelled
    decide
  have hliterals : ∀ value, .integer value ∈ groupedState.lexemes → value < 2 ^ 31 := by
    simp [groupedState, ParserState.lexemes]
  cases h : expression groupedState with
  | error e =>
    have hok : (expression groupedState).toOption.isSome = true := by decide +kernel
    rw [h] at hok
    cases hok
  | ok r =>
    obtain ⟨id, t⟩ := r
    have hrest : (expression groupedState).toOption.map (fun r => r.2.lexemes) = some
        [.punct .semicolon] := by
      decide +kernel
    rw [h] at hrest
    have ht : t.lexemes = [.punct .semicolon] := Option.some.inj hrest
    obtain ⟨taken, htaken, hform⟩ := lexemes_exprForm_expression hlabelled hliterals h
    have hlexemes : groupedState.lexemes = taken.map Token.lexeme ++ t.lexemes := by
      rw [ParserState.lexemes, htaken, List.map_append]
      rfl
    have hsizes : SizesTypes (taken.map Token.lexeme) := by
      have hdropped : taken.map Token.lexeme = groupedState.lexemes.dropLast := by
        rw [hlexemes, ht, List.dropLast_concat]
      rw [hdropped]
      intro after hafter
      simp [groupedState, ParserState.lexemes, List.suffix_cons_iff] at hafter
      rw [hafter]
      rfl
    obtain ⟨hspelled, hwf⟩ := hform hsizes
    exact ⟨id, t, rfl, ht, by rw [hspelled, hlexemes], hwf⟩

end MiniC.Written
