import MiniC.Proofs.Construction
import MiniC.Proofs.ExpressionTree

/-!
# Reading an expression makes steps of the construction

Between any two actions of a parser the program is a draft that can be reached (`Parser.Drafting`).
A parser for expressions adds one loose part to it, the last expression of the program
(`Parser.DraftsExpr`), and keeps everything else, whatever was loose before. The levels of
precedence have one lemma each.
-/

set_option autoImplicit false

namespace MiniC

namespace Parser

variable {α β : Type}

/-- A parser is at work on a text with the given tokens: those that are left are the last ones, the
names in scope are declared, the program satisfies `F`, and it is a draft with the given loose
parts. -/
structure Drafting (tokens : List Token) (F : Program → Prop) (P : Multiset Part)
    (s : ParserState) : Prop where
  rest : s.rest <:+ tokens
  names : ∀ {d}, s.scopes.Has d → d.index < s.program.decls.size
  holds : F s.program
  reached : Draft.Reachable tokens ⟨s.program, P⟩

variable {tokens : List Token} {F G : Program → Prop} {P P' : Multiset Part} {s t : ParserState}

namespace Drafting

/-- Tokens may be taken at any time. -/
theorem take {rest : List Token} (h : Drafting tokens F P s) (hrest : rest <:+ s.rest) :
    Drafting tokens F P { s with rest } :=
  ⟨hrest.trans h.rest, h.names, h.holds, h.reached⟩

/-- A property of the program may be weakened. -/
theorem mono (h : Drafting tokens F P s) (hFG : ∀ p, F p → G p) : Drafting tokens G P s :=
  ⟨h.rest, h.names, hFG _ h.holds, h.reached⟩

/-- A property that holds may be added to the others. -/
theorem strengthen (h : Drafting tokens F P s) (hG : G s.program) :
    Drafting tokens (fun p => F p ∧ G p) P s :=
  ⟨h.rest, h.names, ⟨h.holds, hG⟩, h.reached⟩

/-- Only how often a part is loose matters. -/
theorem of_count_eq (h : Drafting tokens F P s) (hcount : ∀ x, P'.count x = P.count x) :
    Drafting tokens F P' s := by
  rw [Multiset.ext.2 hcount]
  exact h

/-- What comes after a parser that only takes tokens works on the same draft. -/
theorem bind_tokensOnly {x : Parser α} {f : α → Parser β} {Q : β → ParserState → Prop}
    (h : Drafting tokens F P s) (hx : TokensOnly x)
    (hf : ∀ a t, Drafting tokens F P t → Ensures (f a) t Q) : Ensures (x >>= f) s Q :=
  hx.ensures_bind_suffix fun a _ hrest => hf a _ (h.take hrest)

/-- What comes after it knows the result as well. -/
theorem bind_tokensOnly_and {x : Parser α} {f : α → Parser β}
    {Q : β → ParserState → Prop} {R : α → Prop}
    (h : Drafting tokens F P s) (hx : TokensOnly x) (hR : Ensures x s fun a _ => R a)
    (hf : ∀ a t, R a → Drafting tokens F P t → Ensures (f a) t Q) : Ensures (x >>= f) s Q := by
  refine ((hx s).and hR).bind fun a t ht => ?_
  obtain ⟨⟨rest, hrest, rfl⟩, ha⟩ := ht
  exact hf a _ ha (h.take hrest)

/-- A parser that only takes tokens does nothing to the draft. -/
theorem ensures_tokensOnly {x : Parser α} (h : Drafting tokens F P s) (hx : TokensOnly x) :
    Ensures x s fun _ t => Drafting tokens F P t := by
  apply (hx s).mono
  intro _ t ht
  obtain ⟨rest, hrest, rfl⟩ := ht
  exact h.take hrest

/-- A step of the construction. -/
theorem step {p : Program} (h : Drafting tokens F P s)
    (hstep : Draft.Step tokens ⟨s.program, P⟩ ⟨p, P'⟩)
    (hdecls : s.program.decls.size ≤ p.decls.size) (hG : G p) :
    Drafting tokens G P' { s with program := p } :=
  ⟨h.rest, fun hd => Nat.lt_of_lt_of_le (h.names hd) hdecls, hG, h.reached.tail hstep⟩

end Drafting

/-! ## Lists -/

section Lists

variable {F : List α → Program → Prop} {P : List α → Multiset Part} {item : Parser α}
  (hitem : ∀ {as s}, Drafting tokens (F as) (P as) s →
    Ensures item s fun a t => Drafting tokens (F (as ++ [a])) (P (as ++ [a])) t)
include hitem

/-- Where an item takes the items before it into account, so does a list of items. -/
theorem ensures_afterCommas (bound : Nat) {as : List α} {s : ParserState}
    (h : Drafting tokens (F as) (P as) s) :
    Ensures (afterCommas item bound) s fun bs t =>
      Drafting tokens (F (as ++ bs)) (P (as ++ bs)) t := by
  -- the items before the list grow by one with every round, so the induction is for all of them
  induction bound generalizing as s with
  | zero =>
    apply ensures_pure.2
    rw [List.append_nil]
    exact h
  | succ bound ih =>
    apply h.bind_tokensOnly (tokensOnly_accept _)
    intro found t ht
    split
    · apply (hitem ht).bind
      intro a u hu
      apply (ih hu).bind
      intro bs v hv
      rw [List.append_assoc] at hv
      exact hv
    · apply ensures_pure.2
      rw [List.append_nil]
      exact ht

/-- Loose parts may be added item by item in a list in commas. -/
theorem ensures_commaSeparated {s : ParserState} (h : Drafting tokens (F []) (P []) s) :
    Ensures (commaSeparated item) s fun as t => Drafting tokens (F as) (P as) t := by
  apply (hitem h).bind
  intro a t ht
  apply ht.bind_tokensOnly tokensOnly_remaining
  intro bound u hu
  exact ensures_bind.2 (ensures_afterCommas hitem bound hu)

/-- Loose parts may be added item by item in a loop. -/
theorem ensures_repeatUntil {stop : Parser Bool} (hstop : TokensOnly stop)
    (bound : Nat) (as : List α) {s : ParserState} (h : Drafting tokens (F as) (P as) s) :
    Ensures (repeatUntil stop item bound) s fun bs t =>
      Drafting tokens (F (as ++ bs)) (P (as ++ bs)) t := by
  induction bound generalizing as s with
  | zero =>
    apply ensures_pure.2
    rw [List.append_nil]
    exact h
  | succ bound ih =>
    apply h.bind_tokensOnly hstop
    intro found t ht
    split
    · apply ensures_pure.2
      rw [List.append_nil]
      exact ht
    · apply (hitem ht).bind
      intro a u hu
      apply (ih _ hu).bind
      intro bs v hv
      rw [List.append_assoc] at hv
      exact hv

end Lists

/-- The parts that a list of ids stands for, with one more at the end. -/
theorem parts_concat (part : α → Part) (as : List α) (a : α) (P : Multiset Part) :
    ↑((as ++ [a]).map part) + P = part a ::ₘ (↑(as.map part) + P) := by
  rw [List.map_append, ← Multiset.coe_add, List.map_singleton, Multiset.coe_singleton,
    Multiset.add_comm, ← Multiset.add_assoc, Multiset.add_comm P, Multiset.add_comm _ {part a},
    Multiset.singleton_add]

/-! ## Nodes -/

/-- Adding expressions does not affect a property of programs. -/
def KeptByExprs (F : Program → Prop) : Prop :=
  ∀ {p : Program} (node : Expr), F p → F (p.pushExpr node).1

/-- The last expression of the program is loose, besides what else is. -/
def DraftedExpr (tokens : List Token) (F : Program → Prop) (P : Multiset Part) (e : ExprId)
    (s : ParserState) : Prop :=
  Drafting tokens (fun p => F p ∧ e.index + 1 = p.exprs.size) (.expr e ::ₘ P) s

/-- The parser adds an expression that is loose, and keeps what is not affected by that. -/
def DraftsExpr (tokens : List Token) (x : Parser ExprId) : Prop :=
  ∀ {F P s}, KeptByExprs F → Drafting tokens F P s → Ensures x s (DraftedExpr tokens F P)

variable {e lhs rhs : ExprId}

/-- A new expression is one more loose part. -/
theorem DraftedExpr.drafting (h : DraftedExpr tokens F P e s) :
    Drafting tokens F (.expr e ::ₘ P) s :=
  h.mono fun _ hp => hp.1

theorem KeptByExprs.with_decls (hF : KeptByExprs F) (decls : Array Decl) :
    KeptByExprs fun p => F p ∧ p.decls = decls :=
  fun node hp => ⟨hF node hp.1, hp.2⟩

theorem ensures_typeOf {Q : CType → ParserState → Prop} :
    Ensures (typeOf e) s Q ↔ Q (s.program.expr e).type s := Iff.rfl

theorem ensures_declOf {d : DeclId} {Q : Decl → ParserState → Prop} :
    Ensures (declOf d) s Q ↔ Q (s.program.decl d) s := Iff.rfl

section Nodes

variable (hF : KeptByExprs F) {kind : ExprKind} {type : CType} {loc : Location}
include hF

/-- A node that takes up loose operands. -/
theorem ensures_addOperation (h : Drafting tokens F (↑kind.parts + P) s)
    (hnames : ∀ d ∈ kind.names, d.index < s.program.decls.size)
    (hgives : s.program.Gives tokens ⟨kind, type, loc⟩)
    (hsize : ∀ type, kind = .sizeOf type → ¬ SizesExpression tokens loc) :
    Ensures (addExpr kind type loc) s (DraftedExpr tokens F P) := by
  refine h.step (.expr ⟨kind, type, loc⟩ hnames hgives hsize) (Nat.le_refl _) ⟨hF _ h.holds, ?_⟩
  exact (Array.size_push _).symm

/-- A node without operands. -/
theorem ensures_addLeaf (h : Drafting tokens F P s) (hparts : kind.parts = [])
    (hnames : ∀ d ∈ kind.names, d.index < s.program.decls.size)
    (hgives : s.program.Gives tokens ⟨kind, type, loc⟩)
    (hsize : ∀ type, kind = .sizeOf type → ¬ SizesExpression tokens loc) :
    Ensures (addExpr kind type loc) s (DraftedExpr tokens F P) := by
  refine ensures_addOperation hF ?_ hnames hgives hsize
  rw [hparts, Multiset.coe_nil, Multiset.zero_add]
  exact h

/-- A node with one operand. -/
theorem ensures_addExpr_of_one (h : Drafting tokens F (.expr e ::ₘ P) s)
    (hparts : kind.parts = [.expr e])
    (hnames : kind.names = []) (hgives : s.program.Gives tokens ⟨kind, type, loc⟩) :
    Ensures (addExpr kind type loc) s (DraftedExpr tokens F P) := by
  apply ensures_addOperation hF
  · rw [hparts]
    exact h
  · simp [hnames]
  · exact hgives
  · rintro type rfl
    simp [ExprKind.parts, ExprKind.operands] at hparts

/-- A node with two operands. -/
theorem ensures_addExpr_of_two (h : Drafting tokens F (.expr rhs ::ₘ .expr lhs ::ₘ P) s)
    (hparts : kind.parts = [.expr lhs, .expr rhs]) (hnames : kind.names = [])
    (hgives : s.program.Gives tokens ⟨kind, type, loc⟩) :
    Ensures (addExpr kind type loc) s (DraftedExpr tokens F P) := by
  apply ensures_addOperation hF
  · rw [hparts, ← Multiset.cons_coe, Multiset.cons_add, Multiset.coe_singleton,
      Multiset.singleton_add, Multiset.cons_swap]
    exact h
  · simp [hnames]
  · exact hgives
  · rintro type rfl
    simp [ExprKind.parts, ExprKind.operands] at hparts

/-- An operator uses up its operand and is loose in its place. -/
theorem ensures_draftUnary {op : UnaryOp} (h : Drafting tokens F (.expr e ::ₘ P) s) :
    Ensures (addUnary op e loc) s (DraftedExpr tokens F P) := by
  unfold addUnary
  rw [Parser.ensures_bind, ensures_typeOf]
  apply ensures_addExpr_of_one hF h rfl rfl
  exact .inl (congrArg some (op.resultType_eq_typeRule _).symm)

/-- An operator uses up both operands and is loose in their place. -/
theorem ensures_draftBinary {op : BinaryOp}
    (h : Drafting tokens F (.expr rhs ::ₘ .expr lhs ::ₘ P) s) :
    Ensures (addBinary op lhs rhs loc) s (DraftedExpr tokens F P) := by
  unfold addBinary
  rw [Parser.ensures_bind, ensures_typeOf, Parser.ensures_bind, ensures_typeOf]
  apply ensures_addExpr_of_two hF h rfl rfl
  exact .inl (congrArg some (op.resultType_eq_typeRule _ _).symm)

end Nodes

/-! ## Levels -/

section Levels

variable {operandAt : OperandLevel → Parser ExprId}
    (h : ∀ level, DraftsExpr tokens (operandAt level))
include h

/-- The arguments of a call are loose until the call is made. -/
theorem ensures_draftArguments (hF : KeptByExprs F) (hs : Drafting tokens F P s) :
    Ensures (arguments operandAt) s fun args t =>
      Drafting tokens F (↑(args.map Part.expr) + P) t := by
  apply hs.bind_tokensOnly (tokensOnly_check _)
  intro found t ht
  have hclose : ∀ (args : List ExprId) (u : ParserState),
    Drafting tokens F (↑(args.map Part.expr) + P) u →
      Ensures (expect .argumentsClose >>= fun _ => pure args) u fun args t =>
        Drafting tokens F (↑(args.map Part.expr) + P) t :=
    fun args u hu => hu.bind_tokensOnly (tokensOnly_expect _) fun _ v hv => hv
  dsimp only
  split
  · rw [ensures_bind]
    exact hclose [] t (by simpa using ht)
  · refine ensures_bind.2 (.mono ?_ hclose)
    apply ensures_commaSeparated (F := fun _ => F) (P := fun args => ↑(args.map Part.expr) + P)
    · intro as u hu
      apply (h .assignment hF hu).mono
      intro a v hv
      rw [parts_concat]
      exact hv.drafting
    · simpa using ht

/-- A name that is used or called is one loose part. -/
theorem draftsExpr_reference {name : String} {loc : Location} :
    DraftsExpr tokens (reference operandAt name loc) := by
  intro F P s hF hs
  unfold reference
  rw [ensures_bind]
  apply ensures_resolve.mono
  intro d t ht
  obtain ⟨rfl, hd⟩ := ht
  have hlt : d.index < t.program.decls.size := hs.names hd
  -- reading arguments leaves the declarations as they are
  have hdecls : Drafting tokens (fun p => F p ∧ p.decls = t.program.decls) P t := hs.strengthen rfl
  apply hdecls.bind_tokensOnly (tokensOnly_check _)
  intro found u hu
  have hlt' : d.index < u.program.decls.size := by
    rw [hu.holds.2]
    exact hlt
  split
  · rw [ensures_bind, ensures_declOf]
    split
    · next hfunction =>
      apply hu.bind_tokensOnly tokensOnly_advance
      intro _ v hv
      apply (ensures_draftArguments h (hF.with_decls _) hv).bind
      intro args w hw
      have hdecl : w.program.decl d = u.program.decl d := by
        rw [Program.decl, Program.decl, hw.holds.2, hu.holds.2]
      rw [ensures_bind, ensures_declOf]
      refine ensures_addOperation hF (hw.mono fun _ hp => hp.1) ?_ (.inl ?_) fun _ heq => by
        cases heq
      · rw [hw.holds.2]
        simpa [ExprKind.names] using hlt
      · rw [← hdecl] at hfunction
        exact Decl.returnType?_eq_some hfunction
    · exact ensures_bind.2 ensures_fail
  · rw [ensures_bind, ensures_declOf]
    refine ensures_addLeaf hF (hu.mono fun _ hp => hp.1) rfl ?_ (.inl rfl) fun _ heq => by cases heq
    simpa [ExprKind.names] using hlt'

/-- So is any primary expression. -/
theorem draftsExpr_primary : DraftsExpr tokens (primary operandAt) := by
  intro F P s hF hs
  apply hs.bind_tokensOnly tokensOnly_here
  intro loc t ht
  apply ht.bind_tokensOnly tokensOnly_peek
  intro found u hu
  split
  · apply hu.bind_tokensOnly tokensOnly_advance
    intro _ v hv
    exact ensures_addLeaf hF hv rfl (by simp [ExprKind.names]) (.inl rfl) nofun
  · apply hu.bind_tokensOnly tokensOnly_advance
    intro _ v hv
    exact draftsExpr_reference h hF hv
  · apply hu.bind_tokensOnly tokensOnly_advance
    intro _ v hv
    apply (h .assignment hF hv).bind
    intro inner w hw
    apply hw.drafting.bind_tokensOnly (tokensOnly_expect _)
    intro _ x hx
    rw [ensures_bind, ensures_typeOf]
    exact ensures_addExpr_of_one hF hx rfl rfl (.inl rfl)
  · exact ensures_unexpected

/-- Every suffix uses up what it goes on from. -/
theorem ensures_draftSuffixes (hF : KeptByExprs F) (bound : Nat) (he : DraftedExpr tokens F P e s) :
    Ensures (suffixes operandAt bound e) s (DraftedExpr tokens F P) := by
  -- every suffix takes up the expression before it, and is in turn the last expression of the
  -- program
  induction bound generalizing s e with
  | zero => exact ensures_pure.2 he
  | succ bound ih =>
    apply he.bind_tokensOnly tokensOnly_here
    intro loc t ht
    apply ht.bind_tokensOnly (tokensOnly_accept _)
    intro bracket u hu
    split
    · apply (h .assignment hF (DraftedExpr.drafting hu)).bind
      intro index v hv
      apply hv.drafting.bind_tokensOnly (tokensOnly_expect _)
      intro _ w hw
      rw [ensures_bind, ensures_typeOf]
      exact (ensures_addExpr_of_two hF hw rfl rfl (.inl rfl)).bind fun _ _ => ih
    · apply hu.bind_tokensOnly (tokensOnly_accept _)
      intro plus v hv
      split
      · exact (ensures_draftUnary hF (DraftedExpr.drafting hv)).bind fun _ _ => ih
      · apply hv.bind_tokensOnly (tokensOnly_accept _)
        intro minus w hw
        split
        · exact (ensures_draftUnary hF (DraftedExpr.drafting hw)).bind fun _ _ => ih
        · exact hw

theorem draftsExpr_suffixed : DraftsExpr tokens (suffixed operandAt) := by
  intro F P s hF hs
  apply (draftsExpr_primary h hF hs).bind
  intro e t he
  apply he.bind_tokensOnly tokensOnly_remaining
  intro bound u hu
  exact ensures_draftSuffixes h hF bound hu

/-- The word that asks for a size was taken. If an expression follows it, that is added and the
answer is its type. -/
theorem ensures_draftSizeofOperand (hplaces : (tokens.map Token.loc).Nodup) (hF : KeptByExprs F)
    (hs : Drafting tokens F P s) {word : Token} (hword : word :: s.rest <:+ tokens)
    (hlexeme : word.lexeme = Keyword.sizeofKw) :
    Ensures (sizeofOperand operandAt) s fun type t =>
      (Drafting tokens F P t ∧ ¬ SizesExpression tokens word.loc) ∨
        ∃ e, DraftedExpr tokens F P e t ∧ type = (t.program.expr e).type ∧
          SizesExpression tokens word.loc := by
  unfold sizeofOperand
  rw [ensures_bind, ensures_startsParenthesisedType]
  split
  · next htype =>
    apply hs.bind_tokensOnly tokensOnly_advance
    intro _ t ht
    apply ht.bind_tokensOnly tokensOnly_typeName
    intro type u hu
    apply hu.bind_tokensOnly (tokensOnly_expect _)
    intro _ v hv
    exact .inl ⟨hv, not_sizesExpression hplaces hword htype⟩
  · next htype =>
    apply (h .unary hF hs).bind
    intro e t he
    exact .inr ⟨e, he, rfl, word, s.rest, hword, rfl, hlexeme, Bool.eq_false_iff.2 htype⟩

omit h in
/-- The lexeme that comes next is that of a token that is left. -/
theorem exists_of_peek {lexeme : Lexeme} (hpeek : s.rest.head?.map Token.lexeme = some lexeme) :
    ∃ token, s.rest = token :: s.rest.tail ∧ token.lexeme = lexeme := by
  obtain ⟨token, hrest, hlexeme, -⟩ := took_of_head? hpeek
  exact ⟨token, hrest, hlexeme⟩

/-- Operators before an operand have places of their own if all tokens do. -/
theorem draftsExpr_prefixed (hplaces : (tokens.map Token.loc).Nodup) :
    DraftsExpr tokens (prefixed operandAt) := by
  intro F P s hF hs
  unfold prefixed
  rw [ensures_bind, ensures_here, ensures_bind, ensures_peek]
  split
  · next hpeek =>
    obtain ⟨word, hrest, hlexeme⟩ := exists_of_peek hpeek
    rw [ensures_bind, ensures_advance, ensures_bind]
    have hadvance := hs.take (List.tail_suffix s.rest)
    have hloc : (s.rest.head?.map Token.loc).getD s.endLoc = word.loc := by
      rw [hrest]
      rfl
    rw [hloc]
    -- the word is known by its place in the text, which the new node keeps
    apply (ensures_draftSizeofOperand h hplaces hF hadvance (hrest ▸ hs.rest) hlexeme).mono
    intro type t ht
    rcases ht with ⟨ht, hsize⟩ | ⟨e, he, rfl, hsize⟩
    · exact ensures_addLeaf hF ht rfl (by simp [ExprKind.names]) (.inl rfl) fun _ _ => hsize
    · refine he.step (.sizeOf he.holds.2 hsize) (Nat.le_refl _) ⟨hF _ he.holds.1, ?_⟩
      exact (Array.size_push _).symm
  · split
    · apply hs.bind_tokensOnly tokensOnly_advance
      intro _ t ht
      apply (h .cast hF ht).bind
      intro e u hu
      exact ensures_draftUnary hF hu.drafting
    · exact draftsExpr_suffixed h hF hs
  · exact draftsExpr_suffixed h hF hs

/-- A conversion uses up its operand. -/
theorem draftsExpr_casted (hplaces : (tokens.map Token.loc).Nodup) :
    DraftsExpr tokens (casted operandAt) := by
  intro F P s hF hs
  unfold casted
  rw [ensures_bind, ensures_here, ensures_bind, ensures_startsParenthesisedType]
  split
  · next htype =>
    obtain ⟨opening, hrest, hopening⟩ := head_of_beginsWithParenthesisedType htype
    rw [ensures_bind, ensures_advance, ensures_bind]
    apply ensures_typeName.mono
    intro type t ht
    obtain ⟨written, hwritten, hwrites, ht⟩ := ht
    apply (ensures_expect _).bind
    intro _ u hu
    obtain ⟨closing, hclosing, hsign, hu⟩ := hu
    -- the tokens that were taken are those between the two parentheses
    have htaken : s.rest = opening :: (written ++ closing :: u.rest) := by
      rw [hrest, ← hclosing]
      exact congrArg _ hwritten
    have hat : WrittenAt tokens opening.loc type :=
      ⟨opening, closing, written, u.rest, htaken ▸ hs.rest, rfl, hopening, hwrites, hsign⟩
    have hsuffix : u.rest <:+ s.rest := by
      rw [htaken]
      exact ⟨opening :: (written ++ [closing]), by simp⟩
    have hu' : Drafting tokens F P u := by
      rw [hu, ht]
      exact hs.take hsuffix
    have hloc : (s.rest.head?.map Token.loc).getD s.endLoc = opening.loc := by
      rw [hrest]
      rfl
    apply (h .cast hF hu').bind
    intro operand v hv
    rw [hloc]
    exact ensures_addExpr_of_one hF hv.drafting rfl rfl (.inr ⟨⟨operand, rfl⟩, hat⟩)
  · exact draftsExpr_prefixed h hplaces hF hs

omit h in
/-- A chain of operators leaves one loose part at every step. -/
theorem ensures_draftChain (level : BinaryLevel) {operand : Parser ExprId}
    (hx : DraftsExpr tokens operand)
    (hF : KeptByExprs F) (bound : Nat) (he : DraftedExpr tokens F P lhs s) :
    Ensures (leftChain level operand bound lhs) s (DraftedExpr tokens F P) := by
  -- as for suffixes, the operation is the left operand of the next one
  induction bound generalizing s lhs with
  | zero => exact ensures_pure.2 he
  | succ bound ih =>
    apply he.bind_tokensOnly tokensOnly_here
    intro loc t ht
    apply ht.bind_tokensOnly tokensOnly_peek
    intro found u hu
    split
    · exact hu
    · apply hu.bind_tokensOnly tokensOnly_advance
      intro _ v hv
      apply (hx hF (DraftedExpr.drafting hv)).bind
      intro rhs w hw
      exact (ensures_draftBinary hF hw.drafting).bind fun _ _ => ih

/-- An expression of any level is one loose part. -/
theorem draftsExpr_binary (hplaces : (tokens.map Token.loc).Nodup) (levels : List BinaryLevel) :
    DraftsExpr tokens (binary operandAt levels) := by
  induction levels with
  | nil => exact draftsExpr_casted h hplaces
  | cons level tighter ih =>
    intro F P s hF hs
    apply (ih hF hs).bind
    intro lhs t hlhs
    apply hlhs.bind_tokensOnly tokensOnly_remaining
    intro bound u hu
    exact ensures_draftChain level ih hF bound hu

/-- An assignment uses up its target and its value. -/
theorem draftsExpr_assignment (hplaces : (tokens.map Token.loc).Nodup) :
    DraftsExpr tokens (assignment operandAt) := by
  intro F P s hF hs
  apply (draftsExpr_binary h hplaces binaryLevels hF hs).bind
  intro lhs t hlhs
  apply hlhs.bind_tokensOnly tokensOnly_here
  intro loc u hu
  apply hu.bind_tokensOnly tokensOnly_peek
  intro found v hv
  split
  · split
    · apply hv.bind_tokensOnly tokensOnly_advance
      intro _ w hw
      apply (h .assignment hF (DraftedExpr.drafting hw)).bind
      intro rhs x hx
      exact ensures_draftBinary hF hx.drafting
    · exact hv
  · exact hv

end Levels

/-- Whatever is asked for is one loose part, to whatever depth it nests. -/
theorem draftsExpr_expressionWithin (hplaces : (tokens.map Token.loc).Nodup) (bound : Nat)
    (level : OperandLevel) : DraftsExpr tokens (expressionWithin bound level) := by
  induction bound generalizing level with
  | zero => exact fun _ _ => ensures_unexpected
  | succ bound ih =>
    cases level with
    | assignment => exact draftsExpr_assignment ih hplaces
    | cast => exact draftsExpr_casted ih hplaces
    | unary => exact draftsExpr_prefixed ih hplaces

/-- An expression is one loose part in the end. -/
theorem draftsExpr_expression (hplaces : (tokens.map Token.loc).Nodup) :
    DraftsExpr tokens expression := by
  intro F P s hF hs
  apply hs.bind_tokensOnly tokensOnly_remaining
  intro bound t ht
  exact draftsExpr_expressionWithin hplaces bound .assignment hF ht

end Parser

end MiniC
