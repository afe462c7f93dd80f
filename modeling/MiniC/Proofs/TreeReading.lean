import MiniC.Proofs.TreeBuilding
import MiniC.Proofs.TypeRules

/-!
# Reading a well-formed tree

On the lexemes of a well-formed tree the grammar does what building the tree does. `Parser.Matches x
y l after` says so of two parsers: where `l` and then `after` are left, they agree, and `y` takes
just `l`. What follows an expression must not go on with it (`Written.Stops`).
-/

set_option autoImplicit false

namespace MiniC

/-- The lexemes that are left. -/
def ParserState.lexemes (s : ParserState) : List Lexeme := s.rest.map Token.lexeme

namespace Parser

variable {α β : Type}

/-! ## Parsers that agree -/

/-- Where the lexemes `l` and then `after` are left, `x` does what `y` does, which takes just
`l`. -/
def Matches (x y : Parser α) (l after : List Lexeme) : Prop :=
  ∀ s : ParserState, s.lexemes = l ++ after → x s = y s ∧ Ensures y s fun _ t => t.lexemes = after

/-- The parser takes no token. -/
def KeepsTokens (x : Parser α) : Prop := ∀ s, Ensures x s fun _ t => t.lexemes = s.lexemes

variable {x y : Parser α} {f g : α → Parser β} {l l' after : List Lexeme} {s : ParserState}

/-- The next token has the first of the lexemes that are left. -/
theorem head?_of_lexemes {ls : List Lexeme} (h : s.lexemes = ls) :
    s.rest.head?.map Token.lexeme = ls.head? := by
  rw [← h, ParserState.lexemes, List.head?_map]

namespace Matches

theorem pure (a : α) : Matches (pure a) (pure a) [] after := fun _ h => ⟨rfl, h⟩

/-- Parsers that match may be carried out one after the other. -/
theorem bind (hx : Matches x y l (l' ++ after)) (hf : ∀ a, Matches (f a) (g a) l' after) :
    Matches (x >>= f) (y >>= g) (l ++ l') after := by
  intro s hs
  obtain ⟨hxy, hy⟩ := hx s (by rw [hs, List.append_assoc])
  constructor
  · change Except.bind (x s) (fun r => f r.1 r.2) = Except.bind (y s) fun r => g r.1 r.2
    rw [hxy]
    unfold Ensures at hy
    cases hr : y s with
    | error e => rfl
    | ok r =>
      rw [hr] at hy
      exact (hf r.1 r.2 hy).1
  · exact hy.bind fun a t ht => (hf a t ht).2

theorem of_append_nil (h : Matches x y (l ++ []) after) : Matches x y l after := by
  rwa [List.append_nil] at h

/-- A change of both parsers that keeps what is left. -/
theorem same {z : Parser β} {f g : β → Parser α} (hz : KeepsTokens z)
    (h : ∀ b, Matches (f b) (g b) l after) : Matches (z >>= f) (z >>= g) l after := by
  have hz' : Matches z z [] (l ++ after) := fun s hs => ⟨rfl, (hz s).mono fun _ t ht => ht.trans hs⟩
  exact hz'.bind h

/-- A parser that takes no token matches itself. -/
theorem of_keeps (hx : KeepsTokens x) : Matches x x [] after :=
  fun s hs => ⟨rfl, (hx s).mono fun _ _ ht => ht.trans hs⟩

/-- A look at the tokens that only the first parser takes. -/
theorem look {z : Parser β} {f : β → Parser α} {b : List Lexeme → β}
    (hz : ∀ s, z s = .ok (b s.lexemes, s)) (h : Matches (f (b (l ++ after))) y l after) :
    Matches (z >>= f) y l after := by
  intro s hs
  have heq : (z >>= f) s = f (b (l ++ after)) s := by
    change Except.bind (z s) (fun r => f r.1 r.2) = _
    rw [hz, ← hs]
    rfl
  rw [heq]
  exact h s hs

theorem here {f g : Location → Parser α} (h : ∀ loc, Matches (f loc) (g loc) l after) :
    Matches (here >>= f) (here >>= g) l after :=
  same (fun _ => rfl) h

/-- The first parser remembers a place that it does not need. -/
theorem here_left {f : Location → Parser α} (h : ∀ loc, Matches (f loc) y l after) :
    Matches (Parser.here >>= f) y l after :=
  fun s hs => h _ s hs

/-- The next lexeme is known, also where it comes after the tree. -/
theorem peek {f : Option Lexeme → Parser α} (h : Matches (f (l ++ after).head?) y l after) :
    Matches (peek >>= f) y l after :=
  look (b := List.head?) (fun s => by rw [← head?_of_lexemes rfl]; rfl) h

/-- How much is left is known. -/
theorem remaining {f : Nat → Parser α} (h : Matches (f (l ++ after).length) y l after) :
    Matches (remaining >>= f) y l after :=
  look (b := List.length) (fun s => by rw [ParserState.lexemes, List.length_map]; rfl) h

/-- A check is settled by the next lexeme. -/
theorem check {lexeme : Lexeme} {f : Bool → Parser α}
    (h : Matches (f (decide ((l ++ after).head? = some lexeme))) y l after) :
    Matches (check lexeme >>= f) y l after :=
  look (b := fun ls => decide (ls.head? = some lexeme))
    (fun s => by rw [← head?_of_lexemes rfl]; rfl) h

/-- The lexeme that is expected is taken by both. -/
theorem advance {lexeme : Lexeme} {f g : Unit → Parser α} (h : Matches (f ()) (g ()) l after) :
    Matches (advance >>= f) (advance >>= g) (lexeme :: l) after := by
  intro s hs
  apply h { s with rest := s.rest.tail }
  rw [ParserState.lexemes, List.map_tail]
  exact congrArg List.tail hs

/-- A choice that both parsers make by the same condition is made once. -/
theorem ite {c : Prop} [Decidable c] {x' y' : Parser α} (ht : c → Matches x y l after)
    (hf : ¬ c → Matches x' y' l after) :
    Matches (if c then x else x') (if c then y else y') l after := by
  by_cases hc : c
  · rw [if_pos hc, if_pos hc]
    exact ht hc
  · rw [if_neg hc, if_neg hc]
    exact hf hc

/-- Where both fail alike, it does not matter what would come next. -/
theorem fail_bind {fault : ParseFault} {loc : Location} {f g : β → Parser α} :
    Matches (fail fault loc >>= f) (fail fault loc >>= g) l after :=
  fun _ _ => ⟨rfl, trivial⟩

/-- A token that comes next is taken. -/
theorem accept {lexeme : Lexeme} {f : Bool → Parser α} {g : Unit → Parser α}
    (h : Matches (f true) (g ()) l after) :
    Matches (accept lexeme >>= f) (Parser.advance >>= g) (lexeme :: l) after := by
  unfold Parser.accept
  rw [bind_assoc]
  apply check
  rw [List.cons_append, List.head?_cons, decide_eq_true rfl, if_pos rfl, bind_assoc]
  apply advance
  rwa [pure_bind]

/-- A token that does not come next is not taken. -/
theorem accept_ne {lexeme : Lexeme} {f : Bool → Parser α} (hne : (l ++ after).head? ≠ some lexeme)
    (h : Matches (f false) y l after) : Matches (Parser.accept lexeme >>= f) y l after := by
  unfold Parser.accept
  rw [bind_assoc]
  apply check
  rw [decide_eq_false hne]
  exact h

/-- A delimiter that is there is taken, with no fault. -/
theorem expect {delimiter : Delimiter} {f g : Unit → Parser α} (h : Matches (f ()) (g ()) l after) :
    Matches (expect delimiter >>= f) (Parser.advance >>= g) (.punct delimiter.sign :: l) after := by
  unfold Parser.expect
  rw [bind_assoc]
  apply check
  rw [List.cons_append, List.head?_cons, decide_eq_true rfl]
  exact advance h

/-- A name that is there is read. -/
theorem identifier {name : String} {f : String → Parser α} {g : Unit → Parser α}
    (h : Matches (f name) (g ()) l after) :
    Matches (identifier >>= f) (Parser.advance >>= g) (.identifier name :: l) after := by
  unfold Parser.identifier
  rw [bind_assoc]
  apply peek
  rw [List.cons_append, List.head?_cons]
  dsimp only
  rw [bind_assoc]
  apply advance
  rwa [pure_bind]

/-- Matching is not affected by the scope. -/
theorem inScope (h : Matches x y l after) : Matches (inScope x) (inScope y) l after := by
  rw [← List.append_nil l]
  refine same (fun _ => rfl) fun _ => bind h fun _ => ?_
  exact of_keeps fun _ => rfl

end Matches

/-! ## Steps that take no token -/

namespace KeepsTokens

theorem pure (a : α) : KeepsTokens (pure a) := fun _ => rfl

/-- A parser that fails takes no token. -/
theorem fail (fault : ParseFault) (loc : Location) : KeepsTokens (fail fault loc : Parser α) :=
  fun _ => ensures_fail

theorem bind (hx : KeepsTokens x) (hf : ∀ a, KeepsTokens (f a)) : KeepsTokens (x >>= f) :=
  fun s => (hx s).bind fun a t ht => (hf a t).mono fun _ _ hu => hu.trans ht

theorem here : KeepsTokens here := fun _ => rfl

/-- Adding a node takes no token. -/
theorem addExpr (kind : ExprKind) (type : CType) (loc : Location) :
    KeepsTokens (addExpr kind type loc) :=
  fun _ => rfl

theorem addStmt (kind : StmtKind) (loc : Location) : KeepsTokens (addStmt kind loc) := fun _ => rfl

theorem addDecl (name : String) (kind : DeclKind) (loc : Location) :
    KeepsTokens (addDecl name kind loc) :=
  fun _ => rfl

theorem addItem (item : Item) : KeepsTokens (addItem item) := fun _ => rfl

theorem modifyDecl (d : DeclId) (f : Decl → Decl) : KeepsTokens (modifyDecl d f) := fun _ => rfl

theorem map {f : α → β} (hx : KeepsTokens x) : KeepsTokens (f <$> x) :=
  fun s => ensures_map.2 (hx s)

/-- Looking a declaration up takes no token. -/
theorem declOf (d : DeclId) : KeepsTokens (declOf d) := fun _ => rfl

theorem typeOf (e : ExprId) : KeepsTokens (typeOf e) := fun _ => rfl

theorem addUnary (op : UnaryOp) (e : ExprId) (loc : Location) : KeepsTokens (addUnary op e loc) :=
  bind (typeOf e) fun _ => addExpr _ _ loc

theorem addBinary (op : BinaryOp) (l r : ExprId) (loc : Location) :
    KeepsTokens (addBinary op l r loc) :=
  bind (typeOf l) fun _ => bind (typeOf r) fun _ => addExpr _ _ loc

/-- Resolving a name takes no token. -/
theorem resolve (name : String) (loc : Location) : KeepsTokens (resolve name loc) := by
  refine bind (x := get) (fun _ => rfl) fun s => ?_
  split
  · exact pure _
  · exact fail _ loc

theorem declare (name : String) (d : DeclId) (loc : Location) :
    KeepsTokens (declare name d loc) := by
  refine bind (x := get) (fun _ => rfl) fun s => ?_
  split
  · exact fail _ loc
  · exact fun _ => rfl

end KeepsTokens

/-! ## Sequences -/

section Commas

open Written

variable {ι : Type} {item : Parser α} {build : ι → Parser α}
    {lexemes : ι → List Lexeme} {ts : List ι}

/-- Items after commas are read one by one, where each is followed by a comma or by what ends the
list. -/
theorem Matches.afterCommas
    (hcomma : ∀ t ∈ ts, ∀ rest, Matches item (build t) (lexemes t) (.punct .comma :: rest))
    (hlast : ∀ t ∈ ts, Matches item (build t) (lexemes t) after)
    (hafter : after.head? ≠ some (.punct .comma))
    {bound : Nat} (hbound : ((ts.map lexemes).flatMap (.punct .comma :: ·)).length ≤ bound) :
    Matches (afterCommas item bound) (buildAfterCommas (ts.map build))
      ((ts.map lexemes).flatMap (.punct .comma :: ·)) after := by
  induction ts generalizing bound with
  | nil =>
    cases bound with
    | zero => exact .pure []
    | succ bound => exact .accept_ne hafter (.pure [])
  | cons t ts ih =>
    cases bound with
    | zero => simp at hbound
    | succ bound =>
      rw [List.forall_mem_cons] at hcomma hlast
      have hrest := @ih hcomma.2 hlast.2 bound (by
        rw [List.map_cons, List.flatMap_cons, List.length_append, List.length_cons] at hbound
        omega)
      -- what comes after an item is a comma, or what ends the list
      have hfirst : Matches item (build t) (lexemes t)
          ((ts.map lexemes).flatMap (.punct .comma :: ·) ++ after) := by
        cases ts with
        | nil => exact hlast.1
        | cons _ _ => exact hcomma.1 _
      apply Matches.accept
      apply hfirst.bind
      intro a
      rw [← List.append_nil ((ts.map lexemes).flatMap _)]
      exact hrest.bind fun as => .pure _

/-- A list in commas is read item by item. -/
theorem Matches.commaSeparated {t : ι}
    (hcomma : ∀ t' ∈ t :: ts, ∀ rest, Matches item (build t') (lexemes t') (.punct .comma :: rest))
    (hlast : ∀ t' ∈ t :: ts, Matches item (build t') (lexemes t') after)
    (hafter : after.head? ≠ some (.punct .comma)) :
    Matches (commaSeparated item) (buildInCommas ((t :: ts).map build))
      (inCommas ((t :: ts).map lexemes)) after := by
  have hfirst : Matches item (build t) (lexemes t)
      ((ts.map lexemes).flatMap (.punct .comma :: ·) ++ after) := by
    cases ts with
    | nil => exact hlast t (by simp)
    | cons _ _ => exact hcomma t (by simp) _
  rw [List.forall_mem_cons] at hcomma hlast
  apply hfirst.bind
  intro a
  apply Matches.remaining
  rw [← List.append_nil ((ts.map lexemes).flatMap _)]
  refine .bind (.afterCommas hcomma.2 hlast.2 hafter ?_) fun as => .pure _
  simp only [List.append_nil, List.length_append, Nat.le_add_right]

end Commas

/-! ## Types -/

open Written

/-- The word of a base type is read as that type. -/
theorem baseType?_word (base : BaseType) : (Lexeme.keyword base.word).baseType? = some base := by
  cases base <;> rfl

namespace Matches

/-- As many stars are taken as are there. -/
theorem starsWithin {k bound : Nat} (hbound : k ≤ bound) (type : CType) {f : CType → Parser α}
    {g : Unit → Parser α} (hne : (l ++ after).head? ≠ some (.punct .star))
    (h : Matches (f (type.withPointers k)) (g ()) l after) :
    Matches (starsWithin bound type >>= f) (skip k >>= g)
      (List.replicate k (.punct .star) ++ l) after := by
  induction k generalizing bound type with
  | zero =>
    cases bound with
    | zero => exact h
    | succ bound =>
      rw [Parser.starsWithin, bind_assoc]
      exact accept_ne hne h
  | succ k ih =>
    cases bound with
    | zero => exact absurd hbound (Nat.not_succ_le_zero k)
    | succ bound =>
      rw [Parser.starsWithin, bind_assoc, skip, bind_assoc]
      apply accept
      apply ih (Nat.le_of_succ_le_succ hbound)
      rwa [withPointers_withPointer]

theorem stars {k : Nat} {type : CType} {f : CType → Parser α} {g : Unit → Parser α}
    (hne : (l ++ after).head? ≠ some (.punct .star))
    (h : Matches (f (type.withPointers k)) (g ()) l after) :
    Matches (stars type >>= f) (skip k >>= g) (List.replicate k (.punct .star) ++ l) after := by
  unfold Parser.stars
  rw [bind_assoc]
  apply remaining
  apply starsWithin _ _ hne h
  simp only [List.length_append, List.length_replicate]
  omega

theorem baseType {base : BaseType} {f : CType → Parser α} {g : Unit → Parser α}
    (h : Matches (f (.ofBase base)) (g ()) l after) :
    Matches (baseType >>= f) (Parser.advance >>= g) (.keyword base.word :: l) after := by
  unfold Parser.baseType
  rw [bind_assoc]
  apply peek
  rw [List.cons_append, List.head?_cons, Option.bind_some, baseType?_word]
  dsimp only
  rw [bind_assoc]
  apply advance
  rwa [pure_bind]

/-- The name of a type is read as that type, unless another star follows. -/
theorem typeName {t : TypeName} {f g : CType → Parser α}
    (hne : (l ++ after).head? ≠ some (.punct .star)) (h : Matches (f t.type) (g t.type) l after) :
    Matches (typeName >>= f) (t.build >>= g) (t.lexemes ++ l) after := by
  unfold Parser.typeName TypeName.build
  rw [bind_assoc, bind_assoc]
  apply baseType
  rw [bind_assoc]
  apply stars hne
  rwa [pure_bind]

end Matches

end Parser

namespace Written

open MiniC.Parser

/-! ## What follows an expression -/

/-- The lexeme, if it follows an expression that binds at least as tightly as the level says, goes
on with it. -/
def Continues (level : Nat) (x : Lexeme) : Prop :=
  x ∈ [Lexeme.punct .leftParen, .punct .leftBracket, .punct .plusPlus, .punct .minusMinus] ∨
    ∃ op : BinaryOp, level ≤ op.level ∧ x = .punct op.sign

/-- What follows does not go on with an expression that binds at least as tightly as the level
says. -/
def Stops (level : Nat) (after : List Lexeme) : Prop := ∀ x ∈ after.head?, ¬ Continues level x

theorem stops_cons {level : Nat} {x : Lexeme} {after : List Lexeme} :
    Stops level (x :: after) ↔ ¬ Continues level x := by
  simp [Stops]

/-- What ends an expression also ends one that binds more tightly. -/
theorem Stops.mono {level level' : Nat} {after : List Lexeme} (h : Stops level after)
    (hle : level ≤ level') : Stops level' after := by
  intro x hx hc
  refine h x hx (hc.imp_right ?_)
  rintro ⟨op, hop, rfl⟩
  exact ⟨op, Nat.le_trans hle hop, rfl⟩

/-- No binary operator binds as tightly as a cast. -/
theorem Stops.tight {level level' : Nat} {after : List Lexeme} (h : Stops level after)
    (hle : 11 ≤ level') :
    Stops level' after := by
  intro x hx hc
  refine h x hx (.inl (hc.resolve_right ?_))
  rintro ⟨op, hop, -⟩
  have := op.level_le
  omega

/-- Closing brackets, semicolons and commas go on with no expression. -/
theorem stops_of_mem {sign : Punct}
    (h : sign ∈ [Punct.rightParen, .rightBracket, .semicolon, .comma])
    (level : Nat) (after : List Lexeme) : Stops level (.punct sign :: after) := by
  have hall : ∀ sign ∈ [Punct.rightParen, .rightBracket, .semicolon, .comma],
      sign ∉ [Punct.leftParen, .leftBracket, .plusPlus, .minusMinus] ∧
        ∀ op ∈ BinaryOp.all, sign ≠ op.sign := by decide
  obtain ⟨hbracket, hsign⟩ := hall sign h
  rw [stops_cons]
  rintro (hmem | ⟨op, -, hop⟩)
  · exact hbracket (by simpa using hmem)
  · exact hsign op op.mem_all (Lexeme.punct.inj hop)

/-- An operator does not go on with an operand that binds more tightly. -/
theorem stops_sign (op : BinaryOp) (after : List Lexeme) :
    Stops (op.level + 1) (.punct op.sign :: after) := by
  have hall : ∀ op ∈ BinaryOp.all,
      op.sign ∉ [Punct.leftParen, .leftBracket, .plusPlus, .minusMinus] := by decide
  rw [stops_cons]
  rintro (hmem | ⟨op', hlevel, hop⟩)
  · exact hall op op.mem_all (by simpa using hmem)
  · cases BinaryOp.sign_injective (Lexeme.punct.inj hop)
    exact Nat.not_succ_le_self _ hlevel

theorem Stops.head_ne {level : Nat} {after : List Lexeme} (h : Stops level after) {sign : Punct}
    (hsign : sign ∈ [Punct.leftParen, .leftBracket, .plusPlus, .minusMinus]) :
    after.head? ≠ some (.punct sign) := by
  intro hhead
  refine h _ hhead (.inl ?_)
  simpa using hsign

/-- After an operand of a level no operator of that level follows. -/
theorem Stops.operator?_eq_none {level : Nat} {after : List Lexeme}
    (h : Stops level after) {k : Nat} (hk : k < binaryLevels.length) (hle : level ≤ k + 1) :
    after.head?.bind binaryLevels[k].operator? = none := by
  rw [Option.bind_eq_none_iff]
  intro x hx
  rw [Option.eq_none_iff_forall_not_mem]
  intro op hop
  obtain ⟨rfl, hlevel⟩ := BinaryLevel.sign_of_operator? hk hop
  exact h _ hx (.inr ⟨op, hlevel ▸ hle, rfl⟩)

/-- What ends an assignment is no assignment operator. -/
theorem Stops.assignment?_eq_none {after : List Lexeme} (h : Stops 0 after) {sign : Punct}
    (hsign : after.head? = some (.punct sign)) : sign.assignment? = none := by
  rw [Option.eq_none_iff_forall_not_mem]
  intro op hop
  obtain ⟨rfl, -⟩ := Punct.sign_of_assignment? hop
  exact h _ hsign (.inr ⟨op, Nat.zero_le _, rfl⟩)

/-! ## How expressions begin -/

/-- The lexemes that expressions begin with. -/
def beginsExpression : Lexeme → Bool
  | .integer _ | .identifier _ | .keyword .sizeofKw => true
  | .punct sign => sign = .leftParen || sign.unary?.isSome
  | .keyword _ => false

/-- Every expression begins with a lexeme that expressions begin with. -/
theorem Expr.head (e : Expr) : ∃ x ls, e.lexemes = x :: ls ∧ beginsExpression x = true := by
  induction e with
  | literal value => exact ⟨_, _, rfl, rfl⟩
  | name x => exact ⟨_, _, rfl, rfl⟩
  | call f args _ => exact ⟨_, _, rfl, rfl⟩
  | paren inner _ => exact ⟨_, _, rfl, rfl⟩
  | subscript base index ihb _ =>
    obtain ⟨x, ls, hls, hx⟩ := ihb
    exact ⟨x, _, by rw [lexemes, hls, List.cons_append], hx⟩
  | unary op operand ih =>
    rw [lexemes]
    split
    · obtain ⟨x, ls, hls, hx⟩ := ih
      exact ⟨x, _, by rw [hls, List.cons_append], hx⟩
    · next htrails =>
      refine ⟨_, _, rfl, ?_⟩
      rw [beginsExpression, UnaryOp.unary?_sign (by simpa using htrails)]
      simp
  | binary op lhs rhs ihl _ =>
    obtain ⟨x, ls, hls, hx⟩ := ihl
    exact ⟨x, _, by rw [lexemes, hls, List.cons_append], hx⟩
  | cast type operand _ => exact ⟨_, _, rfl, rfl⟩
  | sizeOfType type => exact ⟨_, _, rfl, rfl⟩
  | sizeOf operand _ => exact ⟨_, _, rfl, rfl⟩

/-- The lexemes that primary expressions begin with. -/
def beginsPrimary : Lexeme → Bool
  | .integer _ | .identifier _ => true
  | .punct sign => sign = .leftParen
  | .keyword _ => false

/-- Expressions without casts and operators in front. -/
theorem Expr.head_of_level {e : Expr} (he : e.WellFormed) (hlevel : 13 ≤ e.level) :
    ∃ x ls, e.lexemes = x :: ls ∧ beginsPrimary x = true := by
  induction e with
  | literal value => exact ⟨_, _, rfl, rfl⟩
  | name x => exact ⟨_, _, rfl, rfl⟩
  | call f args _ => exact ⟨_, _, rfl, rfl⟩
  | paren inner _ => exact ⟨_, _, rfl, rfl⟩
  | subscript base index ihb _ =>
    obtain ⟨x, ls, hls, hx⟩ := ihb he.1 he.2.1
    exact ⟨x, _, by rw [lexemes, hls, List.cons_append], hx⟩
  | unary op operand ih =>
    rw [level] at hlevel
    split at hlevel
    · next htrails =>
      rw [WellFormed, if_pos htrails] at he
      obtain ⟨x, ls, hls, hx⟩ := ih he.1 he.2
      exact ⟨x, _, by rw [lexemes, if_pos htrails, hls, List.cons_append], hx⟩
    · omega
  | binary op lhs rhs _ _ => exact absurd (Nat.le_trans hlevel op.level_le) (by decide)
  | cast | sizeOfType | sizeOf => simp [level] at hlevel

/-- No expression begins with the word of a type. -/
theorem baseType?_of_beginsExpression {x : Lexeme} (h : beginsExpression x = true) :
    x.baseType? = none := by
  cases x with
  | keyword word => cases word <;> first | rfl | cases h
  | integer _ | identifier _ | punct _ => rfl

/-- Whether lexemes begin with an opening parenthesis and the word of a base type. -/
def beginCast : List Lexeme → Bool
  | x :: y :: _ => x = .punct .leftParen && y.baseType?.isSome
  | _ => false

/-- Whether a cast begins here is seen from the next two lexemes, and none is taken. -/
theorem startsParenthesisedType_apply (s : ParserState) :
    startsParenthesisedType s = .ok (beginCast s.lexemes, s) := by
  rcases s with ⟨_ | ⟨x, _ | ⟨y, rest⟩⟩, endLoc, program, scopes⟩ <;> rfl

/-- No expression that binds more tightly than a cast begins like one. -/
theorem Expr.beginCast_eq_false {e : Expr} (he : e.WellFormed) (hlevel : 12 ≤ e.level)
    (after : List Lexeme) : beginCast (e.lexemes ++ after) = false := by
  induction e generalizing after with
  | literal value => cases after <;> rfl
  | name x => cases after <;> rfl
  | call f args _ => rfl
  | paren inner _ =>
    obtain ⟨x, ls, hls, hx⟩ := inner.head
    rw [lexemes, hls, List.cons_append, List.cons_append, List.cons_append, beginCast,
      baseType?_of_beginsExpression hx, Option.isSome_none, Bool.and_false]
  | subscript base index ihb _ =>
    rw [lexemes, List.append_assoc]
    exact ihb he.1 (Nat.le_of_succ_le he.2.1) _
  | unary op operand ih =>
    rw [lexemes]
    split
    · next htrails =>
      rw [WellFormed, if_pos htrails] at he
      rw [List.append_assoc]
      exact ih he.1 (Nat.le_of_succ_le he.2) _
    · obtain ⟨x, ls, hls, hx⟩ := operand.head
      rw [hls]
      cases op <;> rfl
  | binary op lhs rhs _ _ => exact absurd (Nat.le_trans hlevel op.level_le) (by decide)
  | cast type operand _ => exact absurd hlevel (by rw [level]; decide)
  | sizeOfType type => rfl
  | sizeOf operand _ =>
    obtain ⟨x, ls, hls, hx⟩ := operand.head
    rw [lexemes, hls]
    rfl

end Written

end MiniC
