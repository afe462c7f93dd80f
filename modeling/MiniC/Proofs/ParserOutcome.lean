import MiniC.Grammar.TranslationUnit

/-!
# Outcomes of parsers

`Parser.Ensures x s Q` says that the parser `x`, if it succeeds from the state `s`, ends with a
result and a state that satisfy `Q`. What matters of a state is what is built there
(`ParserState.built`); looking at tokens and taking them does not change it (`Parser.TokensOnly`).
-/

set_option autoImplicit false

namespace MiniC

/-- What a parser has built: the program so far, and the scopes around the reading position. -/
structure Built where
  program : Program
  scopes : Scopes

/-- What is built when a parser is in a state. -/
def ParserState.built (s : ParserState) : Built := ⟨s.program, s.scopes⟩

namespace Parser

variable {α β : Type}

/-- If the parser succeeds from `s`, its result and the state after it satisfy `Q`. -/
def Ensures (x : Parser α) (s : ParserState) (Q : α → ParserState → Prop) : Prop :=
  match x s with
  | .ok (a, t) => Q a t
  | .error _ => True

variable {s t : ParserState} {Q : α → ParserState → Prop}

/-- What is known of all results holds of the one that was read. -/
theorem Ensures.of_ok {x : Parser α} {a : α} (hx : Ensures x s Q) (h : x s = .ok (a, t)) :
    Q a t := by
  rw [Ensures, h] at hx
  exact hx

/-- The result may be said to satisfy less. -/
theorem Ensures.mono {x : Parser α} {Q' : α → ParserState → Prop} (hx : Ensures x s Q)
    (hQ : ∀ a t, Q a t → Q' a t) : Ensures x s Q' := by
  unfold Ensures at hx ⊢
  split at hx
  · exact hQ _ _ hx
  · trivial

/-- What is shown in two proofs holds together. -/
theorem Ensures.and {x : Parser α} {Q' : α → ParserState → Prop} (hx : Ensures x s Q)
    (hx' : Ensures x s Q') :
    Ensures x s fun a t => Q a t ∧ Q' a t := by
  unfold Ensures at *
  split
  · next h =>
    rw [h] at hx hx'
    exact ⟨hx, hx'⟩
  · trivial

@[simp] theorem ensures_pure {a : α} : Ensures (pure a) s Q ↔ Q a s := Iff.rfl

@[simp] theorem ensures_get {Q : ParserState → ParserState → Prop} : Ensures get s Q ↔ Q s s :=
  Iff.rfl

@[simp] theorem ensures_modify {f : ParserState → ParserState} {Q : PUnit → ParserState → Prop} :
    Ensures (modify f) s Q ↔ Q ⟨⟩ (f s) := Iff.rfl

/-- Of a parser that fails nothing is asked. -/
@[simp] theorem ensures_fail {fault : ParseFault} {loc : Location} :
    Ensures (fail fault loc : Parser α) s Q := trivial

@[simp] theorem ensures_unexpected : Ensures (unexpected : Parser α) s Q := trivial

/-- The second parser runs from where the first one came to. -/
@[simp] theorem ensures_bind {x : Parser α} {f : α → Parser β} {Q : β → ParserState → Prop} :
    Ensures (x >>= f) s Q ↔ Ensures x s fun a t => Ensures (f a) t Q := by
  change (match Except.bind (x s) fun r => f r.1 r.2 with
    | .ok (b, t) => Q b t
    | .error _ => True) ↔ _
  unfold Except.bind Ensures
  cases x s <;> rfl

/-- For the second parser it is enough to know what the first one ensures. -/
theorem Ensures.bind {x : Parser α} {f : α → Parser β} {Q : β → ParserState → Prop}
    {R : α → ParserState → Prop}
    (hx : Ensures x s R) (hf : ∀ a t, R a t → Ensures (f a) t Q) : Ensures (x >>= f) s Q :=
  ensures_bind.2 (hx.mono hf)

@[simp] theorem ensures_map {x : Parser α} {f : α → β} {Q : β → ParserState → Prop} :
    Ensures (f <$> x) s Q ↔ Ensures x s fun a t => Q (f a) t := by
  change (match Except.bind (x s) fun r => Except.ok (f r.1, r.2) with
    | .ok (b, t) => Q b t
    | .error _ => True) ↔ _
  unfold Except.bind Ensures
  cases x s <;> rfl

/-! ## Parsers that only take tokens -/

/-- The parser takes tokens from the front and changes nothing else. -/
def TokensOnly (x : Parser α) : Prop :=
  ∀ s, Ensures x s fun _ t => ∃ rest, rest <:+ s.rest ∧ t = { s with rest }

/-- What comes after a parser that only takes tokens starts from the same program and scopes, and
from some of the same tokens. -/
theorem TokensOnly.ensures_bind_suffix {x : Parser α} {f : α → Parser β}
    {Q : β → ParserState → Prop}
    (hx : TokensOnly x) (hf : ∀ a rest, rest <:+ s.rest → Ensures (f a) { s with rest } Q) :
    Ensures (x >>= f) s Q := by
  rw [Parser.ensures_bind]
  refine (hx s).mono fun a t ht => ?_
  obtain ⟨rest, hrest, rfl⟩ := ht
  exact hf a rest hrest

/-- After a parser that only takes tokens the same is built. -/
theorem TokensOnly.ensures_bind {x : Parser α} {f : α → Parser β} {Q : β → ParserState → Prop}
    (hx : TokensOnly x) (hf : ∀ a rest, Ensures (f a) { s with rest } Q) : Ensures (x >>= f) s Q :=
  hx.ensures_bind_suffix fun a rest _ => hf a rest

/-- A parser that changes nothing at all. -/
theorem TokensOnly.of_same {x : Parser α} (hx : ∀ s, Ensures x s fun _ t => t = s) :
    TokensOnly x := by
  intro s
  refine (hx s).mono fun a t ht => ?_
  exact ⟨s.rest, List.suffix_refl _, ht⟩

theorem TokensOnly.pure (a : α) : TokensOnly (pure a) := .of_same fun _ => rfl

/-- Parsers that only take tokens do so one after the other. -/
theorem TokensOnly.bind {x : Parser α} {f : α → Parser β} (hx : TokensOnly x)
    (hf : ∀ a, TokensOnly (f a)) : TokensOnly (x >>= f) := by
  intro s
  refine hx.ensures_bind_suffix fun a rest hrest => ?_
  refine (hf a { s with rest }).mono fun b t ht => ?_
  obtain ⟨rest', hrest', rfl⟩ := ht
  exact ⟨rest', hrest'.trans hrest, rfl⟩

theorem tokensOnly_fail (fault : ParseFault) (loc : Location) :
    TokensOnly (fail fault loc : Parser α) :=
  fun _ => ensures_fail

theorem tokensOnly_peek : TokensOnly peek := .of_same fun _ => rfl

theorem tokensOnly_here : TokensOnly here := .of_same fun _ => rfl

theorem tokensOnly_remaining : TokensOnly remaining := .of_same fun _ => rfl

theorem tokensOnly_advance : TokensOnly advance := fun s => ⟨s.rest.tail, List.tail_suffix _, rfl⟩

/-- Checking a lexeme takes nothing. -/
theorem tokensOnly_check (lexeme : Lexeme) : TokensOnly (check lexeme) := .of_same fun _ => rfl

/-- A lexeme that may be there is taken, and nothing is built. -/
theorem tokensOnly_accept (lexeme : Lexeme) : TokensOnly (accept lexeme) := by
  refine (tokensOnly_check lexeme).bind fun found => ?_
  cases found with
  | true => exact tokensOnly_advance.bind fun _ => .pure _
  | false => exact .pure _

/-- Nothing is built from delimiters. -/
theorem tokensOnly_expect (delimiter : Delimiter) : TokensOnly (expect delimiter) := by
  refine (tokensOnly_check _).bind fun found => ?_
  cases found with
  | true => exact tokensOnly_advance
  | false => exact tokensOnly_peek.bind fun _ => tokensOnly_here.bind fun _ => tokensOnly_fail _ _

theorem tokensOnly_identifier : TokensOnly identifier := by
  refine tokensOnly_peek.bind fun found => ?_
  split
  · exact tokensOnly_advance.bind fun _ => .pure _
  · exact tokensOnly_here.bind fun _ => tokensOnly_fail _ _

theorem tokensOnly_declOf (d : DeclId) : TokensOnly (declOf d) := .of_same fun _ => rfl

theorem tokensOnly_typeOf (e : ExprId) : TokensOnly (typeOf e) := .of_same fun _ => rfl

theorem tokensOnly_startsParenthesisedType : TokensOnly startsParenthesisedType := by
  refine .of_same fun s => ?_
  unfold startsParenthesisedType
  rw [Parser.ensures_bind, ensures_get]
  split <;> rfl

theorem tokensOnly_startsType : TokensOnly startsType := .of_same fun _ => rfl

/-- Types are no nodes, so nothing is built from the word of one. -/
theorem tokensOnly_baseType : TokensOnly baseType := by
  refine tokensOnly_peek.bind fun found => ?_
  split
  · exact tokensOnly_advance.bind fun _ => .pure _
  · exact tokensOnly_here.bind fun _ => tokensOnly_fail _ _

theorem tokensOnly_starsWithin (bound : Nat) (type : CType) :
    TokensOnly (starsWithin bound type) := by
  induction bound generalizing type with
  | zero => exact .pure _
  | succ bound ih =>
    refine (tokensOnly_accept _).bind fun found => ?_
    cases found with
    | true => exact ih _
    | false => exact .pure _

theorem tokensOnly_stars (type : CType) : TokensOnly (stars type) :=
  tokensOnly_remaining.bind fun _ => tokensOnly_starsWithin _ type

theorem tokensOnly_typeName : TokensOnly typeName :=
  tokensOnly_baseType.bind fun _ => tokensOnly_stars _

/-! ## Parsers that keep an invariant -/

/-- From a state where what is built satisfies `I`, the parser answers with a result that `R`
relates to what was built before and what is built after. -/
def Reads (I : Built → Prop) (R : Built → α → Built → Prop) (x : Parser α) : Prop :=
  ∀ s, I s.built → Ensures x s fun a t => R s.built a t.built

section Reads

variable {I : Built → Prop} {R : Built → α → Built → Prop} {x : Parser α}

/-- What follows a parser may use the relation between its result and what is built. -/
theorem Reads.ensures_bind {f : α → Parser β} {Q : β → ParserState → Prop} (hx : Reads I R x)
    (hs : I s.built) (hf : ∀ a t, R s.built a t.built → Ensures (f a) t Q) :
    Ensures (x >>= f) s Q := by
  rw [Parser.ensures_bind]
  exact (hx s hs).mono hf

/-- A parser may be asked for less, from fewer states. -/
theorem Reads.mono {I' : Built → Prop} {R' : Built → α → Built → Prop} (hx : Reads I R x)
    (hI : ∀ s, I' s → I s) (hR : ∀ s a t, I' s → R s a t → R' s a t) : Reads I' R' x :=
  fun s hs => (hx s (hI _ hs)).mono fun a t => hR s.built a t.built hs

/-- Tokens may be taken before. -/
theorem Reads.of_tokens {y : Parser β} {f : β → Parser α} (hy : TokensOnly y)
    (hf : ∀ b, Reads I R (f b)) : Reads I R (y >>= f) :=
  fun s hs => hy.ensures_bind fun b rest => hf b { s with rest } hs

theorem reads_unexpected : Reads I R unexpected := fun _ _ => ensures_unexpected

/-- Relations for the results of parsers that read one item and any number of items. -/
structure Sequence (I : Built → Prop) (R : Built → α → Built → Prop)
    (Rs : Built → List α → Built → Prop) : Prop where
  keeps : ∀ {s a t}, I s → R s a t → I t
  nil : ∀ {s}, I s → Rs s [] s
  cons : ∀ {s a t as u}, R s a t → Rs t as u → Rs s (a :: as) u

variable {Rs : Built → List α → Built → Prop} (c : Sequence I R Rs)
include c

/-- Items after commas are related one after the other. -/
theorem Reads.afterCommas (hx : Reads I R x) (bound : Nat) : Reads I Rs (afterCommas x bound) := by
  induction bound with
  | zero => exact fun s hs => c.nil hs
  | succ bound ih =>
    refine .of_tokens (tokensOnly_accept _) fun found s hs => ?_
    split
    · refine hx.ensures_bind hs fun a t ha => ?_
      exact ih.ensures_bind (c.keeps hs ha) fun as u has => c.cons ha has
    · exact c.nil hs

/-- The items of a list in commas are related one after the other. -/
theorem Reads.commaSeparated (hx : Reads I R x) : Reads I Rs (commaSeparated x) := by
  intro s hs
  refine hx.ensures_bind hs fun a t ha => tokensOnly_remaining.ensures_bind fun bound rest => ?_
  exact (Reads.afterCommas c hx bound).ensures_bind (c.keeps hs ha) fun as u has => c.cons ha has

/-- The items of a loop are related one after the other, up to its end. -/
theorem Reads.repeatUntil {stop : Parser Bool} (hstop : TokensOnly stop) (hx : Reads I R x)
    (bound : Nat) : Reads I Rs (repeatUntil stop x bound) := by
  induction bound with
  | zero => exact fun s hs => c.nil hs
  | succ bound ih =>
    refine .of_tokens hstop fun found s hs => ?_
    split
    · exact c.nil hs
    · refine hx.ensures_bind hs fun a t ha => ?_
      exact ih.ensures_bind (c.keeps hs ha) fun as u has => c.cons ha has

end Reads

end Parser

end MiniC
