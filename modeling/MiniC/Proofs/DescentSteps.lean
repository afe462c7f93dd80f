import MiniC.Proofs.FileReading
import MiniC.Proofs.RecursiveDescent

/-!
# Counting steps along the grammar

`Follows` compares a code of the recursive program with a parser, from one state on: the code
finishes, within a depth of calls, with what the parser answers, and the steps that are spent by
then are known. The rules for it go through code and parser side by side, one for each kind of
operation; what an operation does to the number of tokens left is all that the rules say about it.

`Meets` is the contract of a procedure. A procedure may spend a hundred steps for each token that it
takes, and a number of its own besides; the tokens that it must take in any case are not counted, so
they pay for the procedure itself. An account (`Paid`) says how far a body has come with its
contract: every operation takes a token or leaves them all, and is one step more (`Paid.token`,
`Paid.still`), and a call adds what its own contract allows (`Paid.add`). What is left to be checked
of a procedure is that these small numbers stay below those of its contract.
-/

set_option autoImplicit false

namespace MiniC

namespace Descent

open Code MiniC.Parser Written

/-! ## Tokens that are taken -/

section Actions

variable {s : ParserState} {lexeme : Lexeme}

/-- Whether the operation leaves all tokens where they are. -/
def Action.takesNone : {α : Type} → Action α → Bool
  | _, advance | _, accept _ | _, expect _ | _, identifier | _, baseType | _, parameterName => false
  | _, _ => true

/-- Whether there are states where the operation fails. -/
def Action.mayFail : {α : Type} → Action α → Bool
  | _, expect _ | _, identifier | _, baseType | _, fail _ _ | _, unexpected | _, declare _ _ _
    | _, resolve _ _ => true
  | _, _ => false

/-- Whether the operation always succeeds, and leaves all tokens where they are. -/
def Action.isStill {α : Type} (x : Action α) : Bool := x.takesNone && !x.mayFail

theorem Action.isStill_iff {α : Type} {x : Action α} :
    x.isStill = true ↔ x.takesNone = true ∧ x.mayFail = false := by
  rw [isStill, Bool.and_eq_true, Bool.not_eq_true']

/-- An action that takes no token leaves the tokens. -/
theorem Action.rest_eq {α : Type} {x : Action α} (hx : x.takesNone = true) (s : ParserState) :
    Ensures x.run s fun _ t => t.rest = s.rest := by
  have hlook {b : List Lexeme → α} (h : ∀ s, x.run s = .ok (b s.lexemes, s)) :
      Ensures x.run s fun _ t => t.rest = s.rest := by rw [Ensures, h]
  cases x with
  | advance | accept | expect | identifier | baseType | parameterName => cases hx
  | startsParenthesisedType => exact hlook startsParenthesisedType_apply
  | startsVoidList => exact hlook startsVoidList_apply
  | blockEnds => exact hlook blockEnds_apply
  | fail | unexpected => trivial
  | resolve name loc =>
    rw [run, Parser.resolve, Parser.ensures_bind, ensures_get]
    split
    · rfl
    · trivial
  | declare name d loc =>
    rw [run, Parser.declare, Parser.ensures_bind, ensures_get]
    split
    · trivial
    · rfl
  | _ => rfl

/-- An action that does not fail has a result. -/
theorem Action.exists_ok {α : Type} {x : Action α} (hx : x.mayFail = false) (s : ParserState) :
    ∃ r, x.run s = .ok r := by
  cases x with
  | expect | identifier | baseType | fail | unexpected | declare | resolve => cases hx
  | startsParenthesisedType => exact ⟨_, startsParenthesisedType_apply s⟩
  | startsVoidList => exact ⟨_, startsVoidList_apply s⟩
  | blockEnds => exact ⟨_, blockEnds_apply s⟩
  | accept lexeme =>
    change ∃ r, (if decide (s.rest.head?.map Token.lexeme = some lexeme) then _
      else _ : Parser Bool) s = _
    split <;> exact ⟨_, rfl⟩
  | parameterName =>
    rcases s with ⟨_ | ⟨⟨_ | _ | _ | _, loc⟩, rest⟩, endLoc, program, scopes⟩ <;> exact ⟨_, rfl⟩
  | _ => exact ⟨_, rfl⟩

/-- Where a lexeme comes next, a token is left. -/
theorem pos_of_next (h : s.rest.head?.map Token.lexeme = some lexeme) : 0 < s.rest.length := by
  cases hrest : s.rest with
  | nil =>
    rw [hrest] at h
    cases h
  | cons token rest => exact Nat.succ_pos _

/-- Where the operation succeeds, one token has been taken. -/
def TakesOne {α : Type} (x : Parser α) (s : ParserState) : Prop :=
  Ensures x s fun _ t => ∃ token, s.rest = token :: t.rest

/-- After a token is taken, one less is left. -/
theorem length_of_takesOne {t : ParserState} (h : ∃ token, s.rest = token :: t.rest) :
    t.rest.length + 1 = s.rest.length := by
  obtain ⟨token, hrest⟩ := h
  rw [hrest, List.length_cons]

theorem takesOne_advance (h : 0 < s.rest.length) : TakesOne advance s := by
  obtain ⟨token, rest, hrest⟩ := List.exists_cons_of_ne_nil (List.length_pos_iff.1 h)
  change ∃ token, s.rest = token :: s.rest.tail
  rw [hrest]
  exact ⟨token, rfl⟩

/-- A delimiter is one token. -/
theorem takesOne_expect (delimiter : Delimiter) (s : ParserState) :
    TakesOne (expect delimiter) s := by
  change Ensures (if decide (s.rest.head?.map Token.lexeme = some _) then advance else _) s _
  by_cases h : s.rest.head?.map Token.lexeme = some (.punct delimiter.sign)
  · rw [decide_eq_true h]
    exact takesOne_advance (pos_of_next h)
  · rw [decide_eq_false h]
    trivial

theorem takesOne_identifier (s : ParserState) : TakesOne identifier s := by
  rw [TakesOne, identifier, Parser.ensures_bind, ensures_peek]
  split
  · next h => exact takesOne_advance (pos_of_next h)
  · trivial

theorem takesOne_baseType (s : ParserState) : TakesOne baseType s := by
  rw [TakesOne, baseType, Parser.ensures_bind, ensures_peek]
  split
  · next h =>
    obtain ⟨lexeme, h, -⟩ := Option.bind_eq_some_iff.1 h
    exact takesOne_advance (pos_of_next h)
  · trivial

/-- A token is taken, and the answer is positive, or no token is. -/
theorem ensures_accept : Ensures (accept lexeme) s fun found t =>
    found = true ∧ (∃ token, s.rest = token :: t.rest) ∨ found = false ∧ t.rest = s.rest := by
  change Ensures (if decide (s.rest.head?.map Token.lexeme = some lexeme) then advance >>= _
    else _) s _
  by_cases h : s.rest.head?.map Token.lexeme = some lexeme
  · rw [decide_eq_true h, if_pos rfl, Parser.ensures_bind]
    exact (takesOne_advance (pos_of_next h)).mono fun _ t ht => .inl ⟨rfl, ht⟩
  · rw [decide_eq_false h]
    exact .inr ⟨rfl, rfl⟩

/-- A parameter has a name of one token, or none. -/
theorem ensures_parameterName :
    Ensures parameterName s fun _ t => (∃ token, s.rest = token :: t.rest) ∨ t.rest = s.rest := by
  rw [parameterName, Parser.ensures_bind, ensures_peek]
  split
  · next h =>
    rw [Parser.ensures_bind]
    exact (takesOne_advance (pos_of_next h)).mono fun _ t ht => .inl ht
  · exact .inr rfl

/-- No operation takes more than one token, and none goes past the end. -/
theorem Action.takes_at_most_one {α : Type} (x : Action α) (s : ParserState) :
    Ensures x.run s fun _ t => ∃ taken, s.rest = taken ++ t.rest ∧ taken.length ≤ 1 := by
  have hone {t : ParserState} (h : ∃ token, s.rest = token :: t.rest) :
      ∃ taken, s.rest = taken ++ t.rest ∧ taken.length ≤ 1 := by
    obtain ⟨token, hrest⟩ := h
    exact ⟨[token], hrest, Nat.le_refl 1⟩
  have hnone {t : ParserState} (h : t.rest = s.rest) :
      ∃ taken, s.rest = taken ++ t.rest ∧ taken.length ≤ 1 :=
    ⟨[], h.symm, Nat.zero_le 1⟩
  by_cases hx : x.takesNone = true
  · exact (rest_eq hx s).mono fun _ _ => hnone
  cases x with
  | advance =>
    by_cases hs : 0 < s.rest.length
    · exact (takesOne_advance hs).mono fun _ _ => hone
    · -- at the end, nothing happens
      have hnil : s.rest = [] := List.length_eq_zero_iff.1 (Nat.eq_zero_of_not_pos hs)
      refine hnone ?_
      change s.rest.tail = s.rest
      rw [hnil]
      rfl
  | accept lexeme =>
    exact ensures_accept.mono fun _ _ ht => ht.elim (fun h => hone h.2) fun h => hnone h.2
  | expect delimiter => exact (takesOne_expect delimiter s).mono fun _ _ => hone
  | identifier => exact (takesOne_identifier s).mono fun _ _ => hone
  | baseType => exact (takesOne_baseType s).mono fun _ _ => hone
  | parameterName => exact ensures_parameterName.mono fun _ _ ht => ht.elim hone hnone
  | _ => exact absurd rfl hx

/-- A code takes tokens from the front, no more than one in a step. -/
theorem Finishes.exists_taken {α : Type} {c : Code α} {s t : ParserState} {depth n : Nat} {a : α}
    (h : Finishes c s depth n (.ok (a, t))) :
    ∃ taken, s.rest = taken ++ t.rest ∧ taken.length ≤ n := by
  generalize hresult : Except.ok (a, t) = result at h
  induction h generalizing t with
  | done =>
    cases hresult
    exact ⟨[], rfl, Nat.le_refl 0⟩
  | seq _ _ ihfirst ihnext =>
    obtain ⟨taken, hrest, hlength⟩ := ihfirst rfl
    obtain ⟨taken', hrest', hlength'⟩ := ihnext hresult
    refine ⟨taken ++ taken', by rw [hrest, hrest', List.append_assoc], ?_⟩
    rw [List.length_append]
    omega
  | fails => cases hresult
  | @act _ x s _ => exact (x.takes_at_most_one s).of_ok hresult.symm
  | call _ ih | goto _ ih =>
    obtain ⟨taken, hrest, hlength⟩ := ih hresult
    exact ⟨taken, hrest, Nat.le_succ_of_le hlength⟩

/-- A look at the tokens that is answered by `b` only if there is a next token. -/
def Spots (b : Bool) (x : Parser Bool) : Prop :=
  ∀ s, ∃ found, x s = .ok (found, s) ∧ (found = b → 0 < s.rest.length)

theorem spots_check (lexeme : Lexeme) : Spots true (check lexeme) :=
  fun s => ⟨decide (s.rest.head?.map Token.lexeme = some lexeme), rfl,
    fun h => pos_of_next (of_decide_eq_true h)⟩

/-- A test that looks at the next lexemes alone finds nothing at the end of the text. -/
theorem spots_of_apply {x : Parser Bool} {answer : List Lexeme → Bool} {b : Bool}
    (hx : ∀ s, x s = .ok (answer s.lexemes, s)) (hnil : answer [] ≠ b) : Spots b x := by
  intro s
  refine ⟨_, hx s, fun h => List.length_pos_iff.2 fun hrest => hnil ?_⟩
  rwa [ParserState.lexemes, hrest] at h

theorem spots_startsType : Spots true startsType := spots_of_apply startsType_apply (by decide)

theorem spots_startsParenthesisedType : Spots true startsParenthesisedType :=
  spots_of_apply startsParenthesisedType_apply (by decide)

theorem spots_startsVoidList : Spots true startsVoidList :=
  spots_of_apply startsVoidList_apply (by decide)

theorem spots_blockEnds : Spots false blockEnds := spots_of_apply blockEnds_apply (by decide)

end Actions

/-! ## Code and parser side by side -/

/-- From the state, the code finishes within the depth with what the parser answers. Steps that are
spent before are counted too: a result satisfies `P`, together with the state after it and the
number of steps, and after an error this number is within the limit. -/
def Follows {α : Type} (c : Code α) (x : Parser α) (s : ParserState) (depth limit spent : Nat)
    (P : Nat → α → ParserState → Prop) : Prop :=
  ∃ n, Finishes c s depth n (x s) ∧ match x s with
    | .ok (a, t) => P (spent + n) a t
    | .error _ => spent + n ≤ limit

section Follows

variable {α β : Type} {c : Code α} {x : Parser α} {f : α → Code β}
    {g : α → Parser β} {s : ParserState}
  {depth limit spent : Nat} {P : Nat → β → ParserState → Prop} {Q : Nat → α → ParserState → Prop}

namespace Follows

theorem pure {a : α} (h : Q spent a s) : Follows (pure a) (pure a) s depth limit spent Q :=
  ⟨0, .done, h⟩

/-- There may be more room, and less may be said of the result. -/
theorem mono {depth' limit' spent' : Nat} {Q' : Nat → α → ParserState → Prop}
    (h : Follows c x s depth limit spent Q)
    (hdepth : depth ≤ depth') (hlimit : spent' + limit ≤ limit' + spent)
    (hQ : ∀ n a t, Q (spent + n) a t → Q' (spent' + n) a t) :
    Follows c x s depth' limit' spent' Q' := by
  obtain ⟨n, hc, hx⟩ := h
  refine ⟨n, hc.mono hdepth, ?_⟩
  split
  · next hok =>
    rw [hok] at hx
    exact hQ n _ _ hx
  · next herror =>
    rw [herror] at hx
    dsimp only at hx
    omega

/-- Only what the parser does in the given state counts. -/
theorem congr {y : Parser α} (h : Follows c x s depth limit spent Q) (hy : y s = x s) :
    Follows c y s depth limit spent Q := by
  rwa [Follows, hy]

theorem imp {Q' : Nat → α → ParserState → Prop} (h : Follows c x s depth limit spent Q)
    (hQ : ∀ n a t, Q n a t → Q' n a t) : Follows c x s depth limit spent Q' :=
  h.mono (Nat.le_refl _) (Nat.le_of_eq (Nat.add_comm _ _)) fun n => hQ (spent + n)

/-- Steps of the second parser are counted from where the first one ended. -/
theorem bind (h : Follows c x s depth limit spent Q)
    (hf : ∀ n a t, Q n a t → Follows (f a) (g a) t depth limit n P) :
    Follows (c >>= f) (x >>= g) s depth limit spent P := by
  obtain ⟨n, hc, hx⟩ := h
  have hbind : (x >>= g) s = Except.bind (x s) fun r => g r.1 r.2 := rfl
  rw [Follows, hbind]
  cases hresult : x s with
  | ok r =>
    obtain ⟨a, t⟩ := r
    rw [hresult] at hc hx
    obtain ⟨m, hnext, hm⟩ := hf _ a t hx
    refine ⟨n + m, .seq hc hnext, ?_⟩
    rwa [← Nat.add_assoc]
  | error e =>
    rw [hresult] at hc hx
    exact ⟨n, .fails hc, hx⟩

theorem bind_pure {a : α} (h : Follows (f a) (g a) s depth limit spent P) :
    Follows (Pure.pure a >>= f) (Pure.pure a >>= g) s depth limit spent P := by
  have ha : Follows (Pure.pure a) (Pure.pure a) s depth limit spent fun n b t =>
    n = spent ∧ b = a ∧ t = s :=
    pure ⟨rfl, rfl, rfl⟩
  refine ha.bind ?_
  rintro _ _ _ ⟨rfl, rfl, rfl⟩
  exact h

theorem map {h : α → β}
    (hc : Follows (c >>= fun a => Pure.pure (h a)) (x >>= fun a =>
      Pure.pure (h a)) s depth limit spent P) :
    Follows (h <$> c) (h <$> x) s depth limit spent P := hc

theorem remaining {c : Code β} {g : Nat → Parser β}
    (h : Follows c (g s.rest.length) s depth limit spent P) :
    Follows c (remaining >>= g) s depth limit spent P := h

/-- An action is one step. -/
theorem act {a : Action α} {R : α → ParserState → Prop} (ha : Ensures a.run s R)
    (hlimit : a.mayFail = false ∨ spent + 1 ≤ limit) (hR : ∀ b t, R b t → Q (spent + 1) b t) :
    Follows (act a) a.run s depth limit spent Q := by
  refine ⟨1, .act, ?_⟩
  rw [Ensures] at ha
  cases hrun : a.run s with
  | ok r =>
    rw [hrun] at ha
    exact hR _ _ ha
  | error e =>
    rcases hlimit with hnever | hlimit
    · obtain ⟨r, hok⟩ := Action.exists_ok hnever s
      rw [hrun] at hok
      cases hok
    · exact hlimit

/-- So it is with more steps to come. -/
theorem bind_act {a : Action α} {R : α → ParserState → Prop} (ha : Ensures a.run s R)
    (hlimit : a.mayFail = false ∨ spent + 1 ≤ limit)
    (h : ∀ b t, R b t → Follows (f b) (g b) t depth limit (spent + 1) P) :
    Follows (Code.act a >>= f) (a.run >>= g) s depth limit spent P := by
  have hact : Follows (Code.act a) a.run s depth limit spent fun n b t => n = spent + 1 ∧ R b t :=
    act ha hlimit fun b t hR => ⟨rfl, hR⟩
  refine hact.bind ?_
  rintro _ b t ⟨rfl, hR⟩
  exact h b t hR

/-- The operation leaves the tokens where they are. -/
theorem keeps {a : Action α} (ha : a.isStill = true)
    (h : ∀ b t, t.rest.length = s.rest.length → Follows (f b) (g b) t depth limit (spent + 1) P) :
    Follows (Code.act a >>= f) (a.run >>= g) s depth limit spent P := by
  obtain ⟨hnone, hnever⟩ := Action.isStill_iff.1 ha
  exact bind_act (Action.rest_eq hnone s) (.inl hnever) fun b t ht =>
    h b t (congrArg List.length ht)

/-- The operation leaves the tokens where they are, or fails. -/
theorem keeps_or_fails {a : Action α} (ha : a.takesNone = true) (hlimit : spent + 1 ≤ limit)
    (h : ∀ b t, t.rest.length = s.rest.length → Follows (f b) (g b) t depth limit (spent + 1) P) :
    Follows (Code.act a >>= f) (a.run >>= g) s depth limit spent P :=
  bind_act (Action.rest_eq ha s) (.inr hlimit) fun b t ht => h b t (congrArg List.length ht)

/-- The operation takes a token, or fails. -/
theorem takes {a : Action α} (ha : ∀ s, TakesOne a.run s) (hlimit : spent + 1 ≤ limit)
    (h : ∀ b t, t.rest.length + 1 = s.rest.length →
      Follows (f b) (g b) t depth limit (spent + 1) P) :
    Follows (Code.act a >>= f) (a.run >>= g) s depth limit spent P :=
  bind_act (ha s) (.inr hlimit) fun b t ht => h b t (length_of_takesOne ht)

theorem advance {f : Unit → Code β} {g : Unit → Parser β} (hs : 0 < s.rest.length)
    (h : ∀ t, t.rest.length + 1 = s.rest.length →
      Follows (f ()) (g ()) t depth limit (spent + 1) P) :
    Follows (Code.act .advance >>= f) (Parser.advance >>= g) s depth limit spent P :=
  bind_act (a := .advance) (takesOne_advance hs) (.inl rfl) fun _ t ht =>
    h t (length_of_takesOne ht)

theorem accept {lexeme : Lexeme} {f : Bool → Code β} {g : Bool → Parser β}
    (htrue : ∀ t, t.rest.length + 1 = s.rest.length →
      Follows (f true) (g true) t depth limit (spent + 1) P)
    (hfalse : ∀ t, t.rest.length = s.rest.length →
      Follows (f false) (g false) t depth limit (spent + 1) P) :
    Follows (Code.act (.accept lexeme) >>= f)
      (Parser.accept lexeme >>= g) s depth limit spent P := by
  refine bind_act (a := .accept lexeme) ensures_accept (.inl rfl) ?_
  rintro _ t (⟨rfl, ht⟩ | ⟨rfl, ht⟩)
  · exact htrue t (length_of_takesOne ht)
  · exact hfalse t (congrArg List.length ht)

/-- An operation that the parser leaves out, because the answer is known. -/
theorem alone {a : Action α} {y : Parser β} {b : α} (ha : a.run s = .ok (b, s))
    (h : Follows (f b) y s depth limit (spent + 1) P) :
    Follows (Code.act a >>= f) y s depth limit spent P := by
  obtain ⟨n, hnext, hy⟩ := h
  have hact : Finishes (Code.act a) s depth 1 (.ok (b, s)) := ha ▸ .act
  refine ⟨1 + n, .seq hact hnext, ?_⟩
  rwa [← Nat.add_assoc]

/-- A look at the tokens whose answer is known. -/
theorem answers {a : Action α} {b : α} (ha : a.run s = .ok (b, s))
    (h : Follows (f b) (g b) s depth limit (spent + 1) P) :
    Follows (Code.act a >>= f) (a.run >>= g) s depth limit spent P := by
  have hsame : (a.run >>= g) s = g b s := by
    change Except.bind (a.run s) _ = _
    rw [ha]
    rfl
  exact (alone ha h).congr hsame

/-- A look at the tokens: only the answer `b` says that there is a next one. -/
theorem test {a : Action Bool} {b : Bool} {f : Bool → Code β} {g : Bool → Parser β}
    (ha : Spots b a.run)
    (hspots : 0 < s.rest.length → Follows (f b) (g b) s depth limit (spent + 1) P)
    (hnot : Follows (f !b) (g !b) s depth limit (spent + 1) P) :
    Follows (Code.act a >>= f) (a.run >>= g) s depth limit spent P := by
  obtain ⟨found, hrun, hfound⟩ := ha s
  refine answers hrun ?_
  by_cases hb : found = b
  · subst hb
    exact hspots (hfound rfl)
  · rw [Bool.eq_not.2 hb]
    exact hnot

theorem peek {f : Option Lexeme → Code β} {g : Option Lexeme → Parser β}
    (hnone : Follows (f none) (g none) s depth limit (spent + 1) P)
    (hsome : ∀ lexeme, 0 < s.rest.length →
      Follows (f (some lexeme)) (g (some lexeme)) s depth limit (spent + 1) P) :
    Follows (Code.act .peek >>= f) (Parser.peek >>= g) s depth limit spent P := by
  have hpeek : Action.peek.run s = .ok (s.rest.head?.map Token.lexeme, s) := rfl
  refine answers hpeek ?_
  cases hnext : s.rest.head?.map Token.lexeme with
  | none => exact hnone
  | some lexeme => exact hsome lexeme (pos_of_next hnext)

/-- A fault is one step, so there has to be room for it. -/
theorem fail {fault : ParseFault} {loc : Location} (hlimit : spent + 1 ≤ limit) :
    Follows (Code.act (.fail fault loc)) (Parser.fail fault loc) s depth limit spent Q :=
  ⟨1, .act, hlimit⟩

theorem unexpected (hlimit : spent + 1 ≤ limit) :
    Follows (Code.act .unexpected) Parser.unexpected s depth limit spent Q :=
  ⟨1, .act, hlimit⟩

theorem bind_fail {fault : ParseFault} {loc : Location} (hlimit : spent + 1 ≤ limit) :
    Follows (Code.act (.fail fault loc) >>= f)
      (Parser.fail fault loc >>= g) s depth limit spent P :=
  ⟨1, .fails .act, hlimit⟩

/-- An operation that leaves the tokens where they are, at the end. -/
theorem last {a : Action α} (ha : a.isStill = true)
    (h : ∀ b t, t.rest.length = s.rest.length → Q (spent + 1) b t) :
    Follows (Code.act a) a.run s depth limit spent Q := by
  obtain ⟨hnone, hnever⟩ := Action.isStill_iff.1 ha
  exact act (Action.rest_eq hnone s) (.inl hnever) fun b t ht => h b t (congrArg List.length ht)

/-- A scope of its own takes one step before and one after. -/
theorem inScope (h : ∀ t, t.rest.length = s.rest.length →
    Follows c x t depth limit (spent + 1) fun n a u =>
      ∀ v, v.rest.length = u.rest.length → Q (n + 1) a v) :
    Follows (Descent.inScope c) (Parser.inScope x) s depth limit spent Q := by
  refine keeps (a := .enterScope) rfl fun _ t ht => (h t ht).bind ?_
  intro n a u hQ
  exact keeps (a := .leaveScope) rfl fun _ v hv => pure (hQ v hv)

/-- Going on elsewhere is one step, at the same depth. -/
theorem goto {p : Procedure α} (hp : Follows p.body x s depth limit (spent + 1) Q) :
    Follows (Code.goto p) x s depth limit spent Q := by
  obtain ⟨n, hbody, hx⟩ := hp
  refine ⟨n + 1, .goto hbody, ?_⟩
  rwa [Nat.add_right_comm] at hx

/-- A call is one step, and its body is one deeper. -/
theorem call {p : Procedure α} {depth' : Nat} (hp : Follows p.body x s depth' limit (spent + 1) Q)
    (hdepth : depth' < depth) : Follows (Code.call p) x s depth limit spent Q := by
  obtain ⟨n, hbody, hx⟩ := hp
  refine ⟨n + 1, (Finishes.call hbody).mono hdepth, ?_⟩
  rwa [Nat.add_right_comm] at hx

end Follows

end Follows

/-! ## Accounts -/

/-- What has been done since the state `s`: at least `taken` tokens are taken, and each other token
that is taken pays for a hundred of the `n` steps, which leaves `extra` steps at most. -/
structure Paid (s : ParserState) (taken extra n : Nat) (t : ParserState) : Prop where
  tokens : t.rest.length + taken ≤ s.rest.length
  steps : n + 100 * (t.rest.length + taken) ≤ 100 * s.rest.length + extra

namespace Paid

variable {s t u : ParserState} {taken extra n : Nat}

/-- Nothing is paid for and nothing was done. -/
theorem start (s : ParserState) : Paid s 0 0 0 s where
  tokens := Nat.le_refl _
  steps := Nat.le_of_eq (Nat.zero_add _)

/-- A step that takes no token. -/
theorem still (h : Paid s taken extra n t) (hu : u.rest.length = t.rest.length) :
    Paid s taken (extra + 1) (n + 1) u where
  tokens := by
    rw [hu]
    exact h.tokens
  steps := by
    rw [hu, Nat.add_right_comm]
    exact Nat.succ_le_succ h.steps

/-- A step that takes a token. -/
theorem token (h : Paid s taken extra n t) (hu : u.rest.length + 1 = t.rest.length) :
    Paid s (taken + 1) (extra + 1) (n + 1) u := by
  have hleft : u.rest.length + (taken + 1) = t.rest.length + taken := by
    rw [← hu, Nat.add_right_comm, Nat.add_assoc]
  constructor
  · rw [hleft]
    exact h.tokens
  · rw [hleft, Nat.add_right_comm]
    exact Nat.succ_le_succ h.steps

/-- What another procedure does is added, and one step for going to it. -/
theorem add {taken' extra' m : Nat} (h : Paid s taken extra n t) (ht : Paid t taken' extra' m u) :
    Paid s (taken + taken') (extra + 1 + extra') (n + 1 + m) u := by
  obtain ⟨htokens, hsteps⟩ := h
  obtain ⟨htokens', hsteps'⟩ := ht
  constructor
  · omega
  · omega

/-- A token that need not be taken pays for a hundred steps. -/
theorem weaken {taken' extra' : Nat} (h : Paid s taken extra n t)
    (hroom : taken' ≤ taken ∧ extra + 100 * taken' ≤ extra' + 100 * taken) :
    Paid s taken' extra' n t := by
  obtain ⟨htokens, hsteps⟩ := h
  obtain ⟨htaken, hextra⟩ := hroom
  constructor
  · omega
  · omega

/-- Fewer tokens are left by as many as are taken. -/
theorem le_of_le_add {k : Nat} (h : Paid s taken extra n t) (hs : s.rest.length ≤ k + taken) :
    t.rest.length ≤ k :=
  Nat.le_of_add_le_add_right (Nat.le_trans h.tokens hs)

/-- No more tokens are left than there were. -/
theorem le_of_le {m : Nat} (h : Paid s taken extra n t) (hs : s.rest.length ≤ m) :
    t.rest.length ≤ m :=
  Nat.le_trans (Nat.le_of_add_right_le h.tokens) hs

theorem lt_of_lt {m : Nat} (h : Paid s taken extra n t) (hs : s.rest.length < m) :
    t.rest.length < m :=
  Nat.lt_of_le_of_lt (Nat.le_of_add_right_le h.tokens) hs

/-- Where a token is taken, fewer tokens are left. -/
theorem lt_of_le {m : Nat} (h : Paid s (taken + 1) extra n t) (hs : s.rest.length ≤ m) :
    t.rest.length < m :=
  Nat.lt_of_lt_of_le (Nat.lt_of_lt_of_le (Nat.lt_add_of_pos_right (Nat.succ_pos taken)) h.tokens) hs

/-- The steps that the contract of `s` allows at `t` are not all spent. -/
theorem spent_le {budget k : Nat} (h : Paid s taken extra n t)
    (hroom : extra + k ≤ budget + 100 * taken) :
    n + k + 100 * t.rest.length ≤ 100 * s.rest.length + budget := by
  have hsteps := h.steps
  omega

/-- The calls that the contract of `s` allows at `t` are not all open. -/
theorem depth_le {height k : Nat} (h : Paid s taken extra n t) (hroom : k ≤ height + 20 * taken) :
    20 * t.rest.length + k ≤ 20 * s.rest.length + height := by
  have htokens := h.tokens
  omega

end Paid

/-! ## Contracts of procedures -/

/-- What is left of a procedure from `t` on, after `n` steps, does what the parser does, and the
procedure that began at `s` keeps to its contract: it takes at least `need` tokens and spends a
hundred steps for each other token that it takes, and `extra` steps besides; the calls in it are
nested at most twenty times as deeply as there are tokens, and `height` levels more. -/
def KeepsTo {α : Type} (s : ParserState) (need extra height : Nat) (c : Code α) (x : Parser α)
    (t : ParserState) (n : Nat) : Prop :=
  Follows c x t (20 * s.rest.length + height) (100 * s.rest.length + extra) n fun m _ u =>
    Paid s need extra m u

/-- The procedure does what the parser does, takes at least `need` tokens, and spends on itself and
the procedures that it calls a hundred steps for each other token that it takes, and `extra` steps
besides. The calls are nested at most twenty times as deeply as there are tokens, and `height`
levels more. -/
def Meets {α : Type} (p : Procedure α) (x : Parser α) (s : ParserState) (need extra height : Nat) :
    Prop :=
  KeepsTo s need extra height p.body x s 0

/-- A part of a procedure that keeps to a smaller number of steps than the whole. -/
theorem KeepsTo.within {α : Type} {s t : ParserState} {need extra extra' height n : Nat}
    {c : Code α} {x : Parser α} (h : KeepsTo s need extra height c x t n)
    (hextra : extra ≤ extra') :
    Follows c x t (20 * s.rest.length + height) (100 * s.rest.length + extra') n
      fun m _ u => Paid s need extra m u := by
  refine Follows.mono h (Nat.le_refl _) ?_ fun _ _ _ hu => hu
  rw [Nat.add_comm]
  exact Nat.add_le_add_right (Nat.add_le_add_left hextra _) n

section Meets

variable {α : Type} {p : Procedure α} {x : Parser α} {s : ParserState} {need extra height : Nat}

/-- A contract may allow for more room. -/
theorem Meets.mono {extra' height' : Nat} (hp : Meets p x s need extra height)
    (hroom : extra ≤ extra' ∧ height ≤ height') : Meets p x s need extra' height' := by
  obtain ⟨hextra, hheight⟩ := hroom
  have hkeeps : KeepsTo s need extra height p.body x s 0 := hp
  change KeepsTo s need extra' height' p.body x s 0
  refine Follows.mono hkeeps (Nat.add_le_add_left hheight _) ?_ ?_
  · rw [Nat.zero_add]
    exact Nat.add_le_add_left hextra _
  · intro n _ t ht
    exact ht.weaken ⟨Nat.le_refl _, Nat.add_le_add_right hextra _⟩

/-- A contract depends on what the parser does in this state. -/
theorem Meets.congr {y : Parser α} (hp : Meets p x s need extra height) (hy : y s = x s) :
    Meets p y s need extra height := by
  have hkeeps : KeepsTo s need extra height p.body x s 0 := hp
  exact Follows.congr hkeeps hy

/-- A bound that is the number of tokens left need not be known. -/
theorem Meets.remaining {g : Nat → Parser α} (hp : Meets p (g s.rest.length) s need extra height) :
    Meets p (Parser.remaining >>= g) s need extra height := hp

end Meets

/-! An account is open since `s`, and stands at `t`. What comes next is done on this account. -/

namespace Paid

variable {α β : Type} {s t : ParserState} {need budget height taken extra n : Nat}
  {f : α → Code β} {g : α → Parser β}

section Ends

/-- A result is reached with the tokens taken that were asked for, and within the room. -/
theorem pure {a : α} (h : Paid s taken extra n t)
    (hroom : need ≤ taken ∧ extra + 100 * need ≤ budget + 100 * taken) :
    KeepsTo s need budget height (pure a) (pure a) t n :=
  Follows.pure (h.weaken hroom)

/-- A fault has to be within the room, whatever tokens were asked for. -/
theorem fail {fault : ParseFault} {loc : Location} (h : Paid s taken extra n t)
    (hlimit : extra + 1 ≤ budget + 100 * taken) :
    KeepsTo s need budget height (Code.act (.fail fault loc) : Code α)
      (Parser.fail fault loc) t n :=
  Follows.fail (Nat.le_of_add_right_le (h.spent_le hlimit))

theorem unexpected (h : Paid s taken extra n t) (hlimit : extra + 1 ≤ budget + 100 * taken) :
    KeepsTo s need budget height (Code.act .unexpected : Code α) Parser.unexpected t n :=
  Follows.unexpected (Nat.le_of_add_right_le (h.spent_le hlimit))

theorem bind_fail {fault : ParseFault} {loc : Location} (h : Paid s taken extra n t)
    (hlimit : extra + 1 ≤ budget + 100 * taken) :
    KeepsTo s need budget height (Code.act (.fail fault loc) >>= f) (Parser.fail fault loc >>= g)
      t n :=
  Follows.bind_fail (Nat.le_of_add_right_le (h.spent_le hlimit))

/-- An operation that leaves the tokens where they are, at the end. -/
theorem last {a : Action α} (h : Paid s taken extra n t) (ha : a.isStill = true)
    (hroom : need ≤ taken ∧ extra + 1 + 100 * need ≤ budget + 100 * taken) :
    KeepsTo s need budget height (Code.act a) a.run t n :=
  Follows.last ha fun _ _ hu => (h.still hu).weaken hroom

/-- An operation that takes a token, at the end. -/
theorem last_takes {a : Action α} (h : Paid s taken extra n t) (ha : ∀ s, TakesOne a.run s)
    (hlimit : extra + 1 ≤ budget + 100 * taken)
    (hroom : need ≤ taken + 1 ∧ extra + 1 + 100 * need ≤ budget + 100 * (taken + 1)) :
    KeepsTo s need budget height (Code.act a) a.run t n := by
  refine Follows.act (ha t) (.inr (Nat.le_of_add_right_le (h.spent_le hlimit))) ?_
  intro _ u hu
  exact (h.token (length_of_takesOne hu)).weaken hroom

end Ends

section Operations

theorem bind_pure {a : α} (h : Paid s taken extra n t)
    (hf : Paid s taken extra n t → KeepsTo s need budget height (f a) (g a) t n) :
    KeepsTo s need budget height (Pure.pure a >>= f) (Pure.pure a >>= g) t n :=
  Follows.bind_pure (hf h)

/-- The operation leaves the tokens where they are. -/
theorem keeps {a : Action α} (h : Paid s taken extra n t) (ha : a.isStill = true)
    (hf : ∀ b u, Paid s taken (extra + 1) (n + 1) u →
      KeepsTo s need budget height (f b) (g b) u (n + 1)) :
    KeepsTo s need budget height (Code.act a >>= f) (a.run >>= g) t n :=
  Follows.keeps ha fun b u hu => hf b u (h.still hu)

/-- The operation leaves the tokens where they are, or fails. -/
theorem keeps_or_fails {a : Action α} (h : Paid s taken extra n t) (ha : a.takesNone = true)
    (hlimit : extra + 1 ≤ budget + 100 * taken)
    (hf : ∀ b u, Paid s taken (extra + 1) (n + 1) u →
      KeepsTo s need budget height (f b) (g b) u (n + 1)) :
    KeepsTo s need budget height (Code.act a >>= f) (a.run >>= g) t n :=
  Follows.keeps_or_fails ha (Nat.le_of_add_right_le (h.spent_le hlimit))
    fun b u hu => hf b u (h.still hu)

/-- The operation takes a token, or fails. -/
theorem takes {a : Action α} (h : Paid s taken extra n t) (ha : ∀ s, TakesOne a.run s)
    (hlimit : extra + 1 ≤ budget + 100 * taken)
    (hf : ∀ b u, Paid s (taken + 1) (extra + 1) (n + 1) u →
      KeepsTo s need budget height (f b) (g b) u (n + 1)) :
    KeepsTo s need budget height (Code.act a >>= f) (a.run >>= g) t n :=
  Follows.takes ha (Nat.le_of_add_right_le (h.spent_le hlimit)) fun b u hu => hf b u (h.token hu)

/-- The operation takes a token or leaves them where they are, and does not fail. -/
theorem takes_or_keeps {a : Action α} (h : Paid s taken extra n t)
    (ha : Ensures a.run t fun _ u => (∃ token, t.rest = token :: u.rest) ∨ u.rest = t.rest)
    (hnever : a.mayFail = false)
    (hf : ∀ b u, Paid s taken (extra + 1) (n + 1) u →
      KeepsTo s need budget height (f b) (g b) u (n + 1)) :
    KeepsTo s need budget height (Code.act a >>= f) (a.run >>= g) t n := by
  refine Follows.bind_act ha (.inl hnever) fun b u hu => hf b u ?_
  rcases hu with htoken | hsame
  · exact (h.token (length_of_takesOne htoken)).weaken ⟨Nat.le_succ _, by omega⟩
  · exact h.still (congrArg List.length hsame)

/-- A token that is taken pays for the steps to come. -/
theorem advance {f : Unit → Code β} {g : Unit → Parser β} (h : Paid s taken extra n t)
    (ht : 0 < t.rest.length)
    (hf : ∀ u, Paid s (taken + 1) (extra + 1) (n + 1) u →
      KeepsTo s need budget height (f ()) (g ()) u (n + 1)) :
    KeepsTo s need budget height (Code.act .advance >>= f) (Parser.advance >>= g) t n :=
  Follows.advance ht fun u hu => hf u (h.token hu)

/-- The token is taken, or nothing is. -/
theorem accept {lexeme : Lexeme} {f : Bool → Code β} {g : Bool → Parser β}
    (h : Paid s taken extra n t)
    (htrue : ∀ u, Paid s (taken + 1) (extra + 1) (n + 1) u →
      KeepsTo s need budget height (f true) (g true) u (n + 1))
    (hfalse : ∀ u, Paid s taken (extra + 1) (n + 1) u →
      KeepsTo s need budget height (f false) (g false) u (n + 1)) :
    KeepsTo s need budget height (Code.act (.accept lexeme) >>= f)
      (Parser.accept lexeme >>= g) t n :=
  Follows.accept (fun u hu => htrue u (h.token hu)) fun u hu => hfalse u (h.still hu)

/-- An operation that the parser leaves out, because the answer is known. -/
theorem alone {a : Action α} {y : Parser β} {b : α} (h : Paid s taken extra n t)
    (ha : a.run t = .ok (b, t))
    (hf : Paid s taken (extra + 1) (n + 1) t → KeepsTo s need budget height (f b) y t (n + 1)) :
    KeepsTo s need budget height (Code.act a >>= f) y t n :=
  Follows.alone ha (hf (h.still rfl))

/-- A look at the tokens: only the answer `b` says that there is a next one. -/
theorem test {a : Action Bool} {b : Bool} {f : Bool → Code β} {g : Bool → Parser β}
    (h : Paid s taken extra n t) (ha : Spots b a.run)
    (hspots : 0 < t.rest.length → Paid s taken (extra + 1) (n + 1) t →
      KeepsTo s need budget height (f b) (g b) t (n + 1))
    (hnot : Paid s taken (extra + 1) (n + 1) t →
      KeepsTo s need budget height (f !b) (g !b) t (n + 1)) :
    KeepsTo s need budget height (Code.act a >>= f) (a.run >>= g) t n :=
  Follows.test ha (fun ht => hspots ht (h.still rfl)) (hnot (h.still rfl))

theorem peek {f : Option Lexeme → Code β} {g : Option Lexeme → Parser β}
    (h : Paid s taken extra n t)
    (hnone : Paid s taken (extra + 1) (n + 1) t →
      KeepsTo s need budget height (f none) (g none) t (n + 1))
    (hsome : ∀ lexeme, 0 < t.rest.length → Paid s taken (extra + 1) (n + 1) t →
      KeepsTo s need budget height (f (some lexeme)) (g (some lexeme)) t (n + 1)) :
    KeepsTo s need budget height (Code.act .peek >>= f) (Parser.peek >>= g) t n :=
  Follows.peek (hnone (h.still rfl)) fun lexeme ht => hsome lexeme ht (h.still rfl)

/-- A scope of its own takes one step before and one after. -/
theorem inScope {c : Code α} {x : Parser α} (h : Paid s taken extra n t)
    (hbody : ∀ u, Paid s taken (extra + 1) (n + 1) u →
      KeepsTo s need budget height c x u (n + 1)) :
    KeepsTo s need (budget + 1) height (Descent.inScope c) (Parser.inScope x) t n := by
  refine Follows.inScope fun u hu => ?_
  have hkeeps : KeepsTo s need budget height c x u (n + 1) := hbody u (h.still hu)
  refine Follows.mono hkeeps (Nat.le_refl _) ?_ ?_
  · rw [Nat.add_comm]
    exact Nat.add_le_add_right (Nat.le_succ _) _
  · intro m _ v hv w hw
    exact hv.still hw

end Operations

section Calls

variable {p : Procedure α} {x : Parser α} {need' extra' height' : Nat}

/-- What a procedure with a contract does at the place where it is called. -/
theorem body {depth : Nat} (h : Paid s taken extra n t) (hp : Meets p x t need' extra' height')
    (hlimit : extra + (1 + extra') ≤ budget + 100 * taken)
    (hdepth : 20 * t.rest.length + height' ≤ depth) :
    Follows p.body x t depth (100 * s.rest.length + budget) (n + 1)
      fun m _ u => Paid s (taken + need') (extra + 1 + extra') m u := by
  have hkeeps : KeepsTo t need' extra' height' p.body x t 0 := hp
  refine Follows.mono hkeeps hdepth ?_ fun m a u hu => ?_
  · have hspent := h.spent_le hlimit
    omega
  · rw [Nat.zero_add] at hu
    exact h.add hu

/-- The body of a call keeps to a smaller room. -/
theorem call (h : Paid s taken extra n t) (hp : Meets p x t need' extra' height')
    (hroom : extra + (1 + extra') ≤ budget + 100 * taken ∧ height' + 1 ≤ height + 20 * taken) :
    Follows (Code.call p) x t (20 * s.rest.length + height) (100 * s.rest.length + budget) n
      fun m _ u => Paid s (taken + need') (extra + 1 + extra') m u := by
  have hbody := h.body hp hroom.1 (Nat.le_refl _)
  exact Follows.call hbody (h.depth_le hroom.2)

theorem goto (h : Paid s taken extra n t) (hp : Meets p x t need' extra' height')
    (hroom : extra + (1 + extra') ≤ budget + 100 * taken ∧ height' ≤ height + 20 * taken) :
    Follows (Code.goto p) x t (20 * s.rest.length + height) (100 * s.rest.length + budget) n
      fun m _ u => Paid s (taken + need') (extra + 1 + extra') m u := by
  have hbody := h.body hp hroom.1 (h.depth_le hroom.2)
  exact Follows.goto hbody

/-- What comes after a call goes on with the tokens that the call took. -/
theorem bind_call (h : Paid s taken extra n t) (hp : Meets p x t need' extra' height')
    (hroom : extra + (1 + extra') ≤ budget + 100 * taken ∧ height' + 1 ≤ height + 20 * taken)
    (hf : ∀ a m u, Paid s (taken + need') (extra + 1 + extra') m u →
      KeepsTo s need budget height (f a) (g a) u m) :
    KeepsTo s need budget height (Code.call p >>= f) (x >>= g) t n :=
  (h.call hp hroom).bind fun m a u => hf a m u

theorem bind_goto (h : Paid s taken extra n t) (hp : Meets p x t need' extra' height')
    (hroom : extra + (1 + extra') ≤ budget + 100 * taken ∧ height' ≤ height + 20 * taken)
    (hf : ∀ a m u, Paid s (taken + need') (extra + 1 + extra') m u →
      KeepsTo s need budget height (f a) (g a) u m) :
    KeepsTo s need budget height (Code.goto p >>= f) (x >>= g) t n :=
  (h.goto hp hroom).bind fun m a u => hf a m u

/-- A call at the end: what it does must be within the contract. -/
theorem last_call (h : Paid s taken extra n t) (hp : Meets p x t need' extra' height')
    (hroom : extra + (1 + extra') ≤ budget + 100 * taken ∧ height' + 1 ≤ height + 20 * taken)
    (hend : need ≤ taken + need' ∧
      extra + 1 + extra' + 100 * need ≤ budget + 100 * (taken + need')) :
    KeepsTo s need budget height (Code.call p) x t n :=
  (h.call hp hroom).imp fun _ _ _ hu => hu.weaken hend

theorem last_goto (h : Paid s taken extra n t) (hp : Meets p x t need' extra' height')
    (hroom : extra + (1 + extra') ≤ budget + 100 * taken ∧ height' ≤ height + 20 * taken)
    (hend : need ≤ taken + need' ∧
      extra + 1 + extra' + 100 * need ≤ budget + 100 * (taken + need')) :
    KeepsTo s need budget height (Code.goto p) x t n :=
  (h.goto hp hroom).imp fun _ _ _ hu => hu.weaken hend

end Calls

end Paid

/-! ## Lists in commas -/

/-- At the end of the tokens none is accepted. -/
theorem accept_nil {s : ParserState} (hs : s.rest = []) (lexeme : Lexeme) :
    accept lexeme s = .ok (false, s) := by
  have hnext : s.rest.head?.map Token.lexeme = none := by
    rw [hs]
    rfl
  change (if decide (s.rest.head?.map Token.lexeme = some lexeme) then advance >>= _ else _ :
    Parser Bool) s = _
  rw [hnext]
  rfl

section Commas

variable {α : Type} {item : Procedure α} {again : List α → Procedure (List α)} {x : Parser α}
  {m : Nat}

/-- The procedure `again` goes round a list of items that the parser reads, where at most `m` tokens
are left. -/
structure GoesRound (item : Procedure α) (again : List α → Procedure (List α)) (x : Parser α)
    (m : Nat) : Prop where
  body : ∀ collected, (again collected).body = Descent.afterCommas item again collected
  item : ∀ s, s.rest.length < m → Meets item x s 1 90 19

variable (hagain : GoesRound item again x m)
include hagain

/-- A loop over items in commas takes two tokens at least in every round, and every item that it
collects is worth two steps more. -/
theorem follows_afterCommas {bound : Nat} {s : ParserState} (hbound : s.rest.length ≤ bound)
    (hs : s.rest.length ≤ m) (collected : List α) :
    Follows (again collected).body
      (Parser.afterCommas x bound >>= fun more => pure (collected ++ more)) s
      (20 * s.rest.length) (100 * s.rest.length + 1) 0 fun n all t =>
        collected.length ≤ all.length ∧
          all.length + t.rest.length ≤ collected.length + s.rest.length ∧
          n + 2 * all.length + 100 * t.rest.length ≤
            2 * collected.length + 100 * s.rest.length + 1 := by
  induction bound generalizing s collected with
  | zero =>
    -- the parser stops here without a look, the procedure looks for a comma in vain
    have hrest : s.rest = [] := List.length_eq_zero_iff.1 (Nat.le_zero.1 hbound)
    rw [hagain.body, Parser.afterCommas, pure_bind]
    refine .alone (accept_nil hrest _) ?_
    simp only [Bool.false_eq_true, if_false, List.append_nil]
    refine .pure ⟨Nat.le_refl _, Nat.le_refl _, ?_⟩
    omega
  | succ bound ih =>
    rw [hagain.body, Parser.afterCommas, bind_assoc]
    refine .accept (fun t ht => ?comma) fun t ht => ?last
    case comma =>
      simp only [if_true, bind_assoc, pure_bind]
      have hcomma : Paid s 1 1 1 t := (Paid.start s).token ht
      have hitem : Meets item x t 1 90 19 := hagain.item t (hcomma.lt_of_le hs)
      have hbody := hcomma.body hitem (show 1 + (1 + 90) ≤ 1 + 100 * 1 by decide) (Nat.le_refl _)
      refine (Follows.call hbody (hcomma.depth_le (show 19 + 1 ≤ 0 + 20 * 1 by decide))).bind ?_
      intro n first u hpaid
      have hround : (Parser.afterCommas x bound >>= fun more => pure (collected ++ first :: more)) =
          Parser.afterCommas x bound >>= fun more => pure (collected ++ [first] ++ more) := by simp
      rw [hround]
      refine .goto ?_
      -- the comma pays for the round and for the item that it adds, the item's token for its
      -- contract
      have hrest := ih (hpaid.le_of_le_add (Nat.le_succ_of_le hbound)) (hpaid.le_of_le hs)
        (collected ++ [first])
      have htokens := hpaid.tokens
      have hsteps := hpaid.steps
      refine hrest.mono ?_ ?_ ?_
      · omega
      · omega
      · rintro k all v ⟨hlonger, hall, hspent⟩
        rw [List.length_append, List.length_singleton] at hlonger hall hspent
        refine ⟨?_, ?_, ?_⟩
        · exact Nat.le_of_succ_le hlonger
        · omega
        · omega
    case last =>
      simp only [Bool.false_eq_true, if_false, pure_bind, List.append_nil]
      rw [← ht]
      refine .pure ⟨Nat.le_refl _, Nat.le_refl _, ?_⟩
      omega

/-- The loop takes no token in any case, and keeps to the smallest contract. -/
theorem meets_afterCommas {bound : Nat} {s : ParserState} (hbound : s.rest.length ≤ bound)
    (hs : s.rest.length ≤ m) (collected : List α) :
    Meets (again collected)
      (Parser.afterCommas x bound >>= fun more => pure (collected ++ more)) s 0 1 0 := by
  have hloop := follows_afterCommas hagain hbound hs collected
  change KeepsTo s 0 1 0 (again collected).body _ s 0
  refine hloop.imp fun n all t ht => ?_
  obtain ⟨hlonger, hall, hspent⟩ := ht
  constructor
  · omega
  · omega

/-- A list costs what its first item costs, and three steps more. -/
theorem follows_commaSeparated {s t : ParserState} {taken extra n extra' height' : Nat}
    {budget height : Nat} (h : Paid s taken extra n t) (hs : s.rest.length ≤ m)
    (hfirst : Meets item x t 1 extra' height')
    (hroom : extra + (extra' + 3) ≤ budget + 100 * taken ∧ height' + 1 ≤ height + 20 * taken) :
    Follows (Descent.commaSeparated item again) (Parser.commaSeparated x) t
      (20 * s.rest.length + height) (100 * s.rest.length + budget) n fun k _ u =>
        Paid s (taken + 1) (extra + extra' + 3) k u := by
  obtain ⟨hlimit, hheight⟩ := hroom
  have hcall := h.call hfirst ⟨show extra + (1 + extra') ≤ budget + 100 * taken by omega, hheight⟩
  refine hcall.bind fun k first u hu => .remaining ?_
  have hmore := meets_afterCommas hagain (Nat.le_refl u.rest.length) (hu.le_of_le hs) [first]
  have hlimit' : extra + 1 + extra' + (1 + 1) ≤ budget + 100 * (taken + 1) := by omega
  refine (hu.goto hmore ⟨hlimit', Nat.zero_le _⟩).imp fun k _ v hv => hv.weaken ⟨Nat.le_refl _, ?_⟩
  omega

end Commas

end Descent

end MiniC
