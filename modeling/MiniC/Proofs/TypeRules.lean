import MiniC.Proofs.Occurrence
import MiniC.Proofs.ParserOutcome

/-!
# Rules for static types

Every form of expression has a rule that gives its static type from the types of its operands and of
the declarations that it names (`Program.typeRule?`). The exception is a cast, whose type is written
in the text (`WrittenAt`). An operand of `sizeof` is a type in parentheses or an expression, which
the text tells apart as well (`SizesExpression`).
-/

set_option autoImplicit false

namespace MiniC

/-! ## Types of operations -/

/-- The type of an operation on operands of two types: an assignment has the type of its target; a
sum or difference has the type of a pointer if exactly one of its operands is one; everything else
is a number. -/
def BinaryOp.typeRule : BinaryOp → CType → CType → CType
  | .assign, lhs, _ | .compoundAssign _, lhs, _ => lhs
  | .arith (.additive _), lhs, rhs =>
    if lhs.isPointer ∧ ¬ rhs.isPointer then lhs
    else if rhs.isPointer ∧ ¬ lhs.isPointer then rhs
    else .int
  | .arith (.multiplicative _), _, _ | .comparison _, _, _ | .logical _, _, _ | .bitwise _, _, _ =>
    .int

/-- The parser gives an operation the type that the rule says. -/
theorem BinaryOp.resultType_eq_typeRule (op : BinaryOp) (lhs rhs : CType) :
    op.resultType lhs rhs = op.typeRule lhs rhs := by
  cases op with
  | arith op =>
    cases op with
    | additive op =>
      cases hl : lhs.isPointer <;> cases hr : rhs.isPointer <;>
        simp [resultType, typeRule, isAssignment, isAdditive, hl, hr]
    | multiplicative op => rfl
  | comparison op => rfl
  | logical op => rfl
  | bitwise op => rfl
  | assign => rfl
  | compoundAssign op => rfl

/-- The type of an operation on an operand of some type: what it points to or holds, a pointer to
it, its own type for increments and decrements, and a number otherwise. The type of a function has
no pointer levels and stands for its address as well. -/
def UnaryOp.typeRule : UnaryOp → CType → CType
  | .deref, operand => operand.element
  | .addressOf, .value base pointers length => .value base (pointers + 1) length
  | .addressOf, .function result => .function result
  | .preInc, operand | .preDec, operand | .postInc, operand | .postDec, operand => operand
  | .neg, _ | .plus, _ | .not, _ | .bitNot, _ => .int

/-- It does so for operators with one operand as well. -/
theorem UnaryOp.resultType_eq_typeRule (op : UnaryOp) (operand : CType) :
    op.resultType operand = op.typeRule operand := by
  cases op with
  | addressOf => cases operand <;> rfl
  | _ => rfl

/-! ## Types of expressions -/

/-- What a function returns. -/
def Decl.returnType? (d : Decl) : Option CType :=
  match d.kind with
  | .function returnType _ _ => some returnType
  | .variable .. => none

theorem Decl.returnType?_eq_some {d : Decl} (h : d.isFunction = true) :
    d.returnType? = some d.type.result := by
  rcases d with ⟨_, _ | _, _⟩
  · cases h
  · rfl

/-- The type that an expression has by its form, the types of its operands and those of the
declarations that it names; there is none for a cast, whose type is written. -/
def Program.typeRule? (p : Program) : ExprKind → Option CType
  | .intLiteral _ | .sizeOf _ => some .int
  | .declRef d => some (p.decl d).type
  | .call callee _ => (p.decl callee).returnType?
  | .paren inner => some (p.expr inner).type
  | .subscript base _ => some (p.expr base).type.element
  | .unary op operand => some (op.typeRule (p.expr operand).type)
  | .binary op lhs rhs => some (op.typeRule (p.expr lhs).type (p.expr rhs).type)
  | .cast _ => none

/-! ## Types in the text -/

/-- Whether tokens begin with an opening parenthesis and the word of a base type. -/
def beginsWithParenthesisedType : List Token → Bool
  | opening :: word :: _ => opening.lexeme = Punct.leftParen && word.lexeme.baseType?.isSome
  | _ => false

theorem head_of_beginsWithParenthesisedType {tokens : List Token}
    (h : beginsWithParenthesisedType tokens = true) :
    ∃ opening, tokens = opening :: tokens.tail ∧ opening.lexeme = Punct.leftParen := by
  rcases tokens with _ | ⟨opening, _ | ⟨word, after⟩⟩
  · cases h
  · cases h
  · rw [beginsWithParenthesisedType, Bool.and_eq_true, decide_eq_true_eq] at h
    exact ⟨opening, rfl, h.1⟩

/-- The tokens write a type: the word of a base type and a star for every pointer level. -/
def WritesType (written : List Token) (type : CType) : Prop :=
  ∃ (word : Token) (stars : List Token) (base : BaseType),
    written = word :: stars ∧ word.lexeme.baseType? = some base ∧
    (∀ star ∈ stars, star.lexeme = Punct.star) ∧
      type = (CType.ofBase base).withPointers stars.length

/-- In the text, an opening parenthesis stands at the given place, followed by tokens that write the
type and a closing parenthesis. -/
def WrittenAt (tokens : List Token) (loc : Location) (type : CType) : Prop :=
  ∃ (opening closing : Token) (written after : List Token),
    opening :: (written ++ closing :: after) <:+ tokens ∧ opening.loc = loc ∧
      opening.lexeme = Punct.leftParen ∧ WritesType written type ∧ closing.lexeme = Punct.rightParen

/-- In the text, the word that asks for a size stands at the given place, followed by an
expression. -/
def SizesExpression (tokens : List Token) (loc : Location) : Prop :=
  ∃ (word : Token) (after : List Token), word :: after <:+ tokens ∧ word.loc = loc ∧
    word.lexeme = Keyword.sizeofKw ∧ beginsWithParenthesisedType after = false

/-- The type that an expression of the program has is the one that its form gives it, or the one
that is written at its place if it is a cast. -/
def Program.Gives (p : Program) (tokens : List Token) (node : Expr) : Prop :=
  p.typeRule? node.kind = some node.type ∨
    (∃ operand, node.kind = .cast operand) ∧ WrittenAt tokens node.loc node.type

/-- Written types are those of numbers and of pointers, and `void`. -/
theorem WritesType.eq_value {written : List Token} {type : CType} (h : WritesType written type) :
    ∃ base pointers, type = .value base pointers none := by
  obtain ⟨word, stars, base, -, -, -, rfl⟩ := h
  refine ⟨base, stars.length, ?_⟩
  induction stars.length with
  | zero => rfl
  | succ n ih => rw [CType.withPointers, ih, CType.withPointer]

/-- No type that is written in parentheses is one of arrays. -/
theorem WrittenAt.isArray_eq_false {tokens : List Token} {loc : Location} {type : CType}
    (h : WrittenAt tokens loc type) : type.isArray = false := by
  obtain ⟨_, _, _, _, _, _, _, hwrites, _⟩ := h
  obtain ⟨base, pointers, rfl⟩ := hwrites.eq_value
  rfl

/-- Nor is it one of functions. -/
theorem WrittenAt.isFunction_eq_false {tokens : List Token} {loc : Location} {type : CType}
    (h : WrittenAt tokens loc type) : type.isFunction = false := by
  obtain ⟨_, _, _, _, _, _, _, hwrites, _⟩ := h
  obtain ⟨base, pointers, rfl⟩ := hwrites.eq_value
  rfl

/-! ## Positions in the text -/

/-- Where tokens lie at different places, the place of a token determines what follows it. -/
theorem eq_of_suffix_of_loc_eq {tokens : List Token} (hplaces : (tokens.map Token.loc).Nodup)
    {first first' : Token} {after after' : List Token} (h : first :: after <:+ tokens)
    (h' : first' :: after' <:+ tokens) (hloc : first.loc = first'.loc) : after = after' := by
  induction tokens with
  | nil => simp at h
  | cons token tokens ih =>
    rw [List.map_cons, List.nodup_cons] at hplaces
    -- a place that occurs further on is not that of the first token
    have hlater {t : Token} {ts : List Token} (ht : t :: ts <:+ tokens) : t.loc ≠ token.loc := by
      intro heq
      exact hplaces.1 (heq ▸ List.mem_map_of_mem (ht.subset List.mem_cons_self))
    rcases List.suffix_cons_iff.1 h with heq | hin
    · rcases List.suffix_cons_iff.1 h' with heq' | hin'
      · exact (List.cons.inj (heq.trans heq'.symm)).2
      · obtain ⟨rfl, -⟩ := List.cons.inj heq
        exact absurd hloc.symm (hlater hin')
    · rcases List.suffix_cons_iff.1 h' with heq' | hin'
      · obtain ⟨rfl, -⟩ := List.cons.inj heq'
        exact absurd hloc (hlater hin)
      · exact ih hplaces.2 hin hin'

/-- A place where the size of a type is asked for is none where that of an expression is. -/
theorem not_sizesExpression {tokens : List Token} (hplaces : (tokens.map Token.loc).Nodup)
    {word : Token} {after : List Token} (h : word :: after <:+ tokens)
    (hafter : beginsWithParenthesisedType after = true) : ¬ SizesExpression tokens word.loc := by
  rintro ⟨word', after', h', hloc, -, hafter'⟩
  rw [eq_of_suffix_of_loc_eq hplaces h h' hloc.symm, hafter'] at hafter
  cases hafter

/-! ## Reading types -/

namespace Parser

variable {s : ParserState}

@[simp] theorem ensures_peek {Q : Option Lexeme → ParserState → Prop} :
    Ensures peek s Q ↔ Q (s.rest.head?.map Token.lexeme) s := Iff.rfl

@[simp] theorem ensures_here {Q : Location → ParserState → Prop} :
    Ensures here s Q ↔ Q ((s.rest.head?.map Token.loc).getD s.endLoc) s := Iff.rfl

@[simp] theorem ensures_advance {Q : Unit → ParserState → Prop} :
    Ensures advance s Q ↔ Q () { s with rest := s.rest.tail } := Iff.rfl

/-- Whether a type in parentheses comes next is seen from the tokens. -/
theorem ensures_startsParenthesisedType {Q : Bool → ParserState → Prop} :
    Ensures startsParenthesisedType s Q ↔ Q (beginsWithParenthesisedType s.rest) s := by
  unfold startsParenthesisedType
  rw [ensures_bind, ensures_get]
  rcases s with ⟨_ | ⟨opening, _ | ⟨word, after⟩⟩, endLoc, program, scopes⟩ <;> rfl

theorem ensures_check {lexeme : Lexeme} {Q : Bool → ParserState → Prop} :
    Ensures (check lexeme) s Q ↔ Q (decide (s.rest.head?.map Token.lexeme = some lexeme)) s :=
      Iff.rfl

/-- A token was taken that says what it should. -/
def Took (s : ParserState) (lexeme : Lexeme) (t : ParserState) : Prop :=
  ∃ token, s.rest = token :: t.rest ∧ token.lexeme = lexeme ∧ t = { s with rest := t.rest }

theorem took_of_head? {lexeme : Lexeme} (h : s.rest.head?.map Token.lexeme = some lexeme) :
    Took s lexeme { s with rest := s.rest.tail } := by
  obtain ⟨token, htoken, hlexeme⟩ := Option.map_eq_some_iff.1 h
  obtain ⟨after, hrest⟩ := List.head?_eq_some_iff.1 htoken
  refine ⟨token, ?_, hlexeme, rfl⟩
  rw [hrest, List.tail_cons]

/-- A token is taken if it says what it should. -/
theorem ensures_accept (lexeme : Lexeme) :
    Ensures (accept lexeme) s fun found t => if found then Took s lexeme t else t = s := by
  unfold accept
  rw [ensures_bind, ensures_check]
  by_cases h : s.rest.head?.map Token.lexeme = some lexeme
  · rw [decide_eq_true h]
    exact took_of_head? h
  · rw [decide_eq_false h]
    exact rfl

/-- A delimiter that is expected is taken. -/
theorem ensures_expect (delimiter : Delimiter) :
    Ensures (expect delimiter) s fun _ t => Took s delimiter.sign t := by
  unfold expect
  rw [ensures_bind, ensures_check]
  by_cases h : s.rest.head?.map Token.lexeme = some (.punct delimiter.sign)
  · rw [decide_eq_true h]
    exact took_of_head? h
  · rw [decide_eq_false h]
    trivial

/-- One star and some more are as many together. -/
theorem withPointers_withPointer (type : CType) (n : Nat) :
    type.withPointer.withPointers n = type.withPointers (n + 1) := by
  induction n with
  | zero => rfl
  | succ n ih => exact congrArg CType.withPointer ih

/-- Stars are taken, each of which puts a pointer level on the type. -/
theorem ensures_starsWithin (bound : Nat) (type : CType) :
    Ensures (starsWithin bound type) s fun type' t => ∃ stars, s.rest = stars ++ t.rest ∧
      (∀ star ∈ stars, star.lexeme = Punct.star) ∧ type' = type.withPointers stars.length ∧
        t = { s with rest := t.rest } := by
  induction bound generalizing s type with
  | zero => exact ⟨[], rfl, by simp, rfl, rfl⟩
  | succ bound ih =>
    unfold starsWithin
    rw [ensures_bind]
    apply (ensures_accept _).mono
    intro found t ht
    cases found with
    | false =>
      cases ht
      exact ⟨[], rfl, by simp, rfl, rfl⟩
    | true =>
      obtain ⟨star, hstar, hlexeme, ht⟩ := ht
      apply (ih type.withPointer).mono
      rintro type' u ⟨stars, hstars, hall, rfl, hu⟩
      refine ⟨star :: stars, ?_, ?_, ?_, ?_⟩
      · rw [hstar, hstars, List.cons_append]
      · exact List.forall_mem_cons.2 ⟨hlexeme, hall⟩
      · rw [withPointers_withPointer, List.length_cons]
      · rw [hu, ht]

/-- Stars change the elements of an array, not whether a type is one. -/
theorem isArray_withPointers (type : CType) (n : Nat) :
    (type.withPointers n).isArray = type.isArray := by
  induction n with
  | zero => rfl
  | succ n ih =>
    rw [← ih, CType.withPointers]
    rcases type.withPointers n with ⟨_, _, _ | _⟩ | _ <;> rfl

/-- A base type is no array. -/
theorem ensures_baseType : Ensures baseType s fun type _ => type.isArray = false := by
  unfold baseType
  rw [ensures_bind, ensures_peek]
  split
  · rw [ensures_bind, ensures_advance]
    rfl
  · exact ensures_bind.2 (ensures_here.2 trivial)

/-- Stars do not make an array. -/
theorem ensures_stars {type : CType} (h : type.isArray = false) :
    Ensures (stars type) s fun type' _ => type'.isArray = false := by
  refine (ensures_starsWithin _ type).mono fun type' t ht => ?_
  obtain ⟨stars, -, -, rfl, -⟩ := ht
  rw [isArray_withPointers, h]

/-- The tokens of a type are taken. -/
theorem ensures_typeName :
    Ensures typeName s fun type t =>
      ∃ written, s.rest = written ++ t.rest ∧ WritesType written type ∧
        t = { s with rest := t.rest } := by
  unfold typeName baseType
  rw [ensures_bind, ensures_bind, ensures_peek]
  split
  · next base hbase =>
    obtain ⟨lexeme, hhead, hbase⟩ := Option.bind_eq_some_iff.1 hbase
    obtain ⟨word, hword, hlexeme, -⟩ := took_of_head? hhead
    rw [ensures_bind, ensures_advance, ensures_pure, stars, ensures_bind]
    apply (ensures_starsWithin _ _).mono
    rintro type t ⟨stars, hstars, hall, rfl, ht⟩
    refine ⟨word :: stars, ?_, ⟨word, stars, base, rfl, hlexeme ▸ hbase, hall, rfl⟩, ht⟩
    rw [hword, List.cons_append]
    exact congrArg _ hstars
  · exact ensures_bind.2 (ensures_here.2 trivial)

end Parser

end MiniC
