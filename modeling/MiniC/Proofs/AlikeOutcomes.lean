import Mathlib.Data.List.Forall2
import MiniC.Proofs.DirectEvaluation

/-!
# Outcomes that differ in places

Computations of the direct evaluator agree (`Direct.Agree`) if from states that differ in the places
of their diagnostics only they end with related results, or halt for the same kind of reason, in
such states again. Where the first runs out of fuel nothing is asked of the second. Computations
whose value is asked for next may also differ in that one has no value and the other has already
halted for want of it (`Direct.AgreeAsked`).
-/

set_option autoImplicit false

namespace MiniC.Direct

variable {α α' β β' : Type}

/-! ## States and reasons to halt -/

/-- The states are the same except for the places of diagnostics. -/
structure State.Alike {κ : Type} (s s' : State κ) : Prop where
  same : s' = { s with diagnostics := s'.diagnostics }
  constructs : s'.diagnostics.map Diagnostic.construct = s.diagnostics.map Diagnostic.construct

/-- The reasons to halt are the same, or both are that an expression has no value. -/
inductive Halt.Alike : Halt → Halt → Prop
  | same (h : Halt) : Alike h h
  | unbound (e e' : ExprId) :
    Alike (.fault (.memory (.unboundExpression e))) (.fault (.memory (.unboundExpression e')))

namespace State.Alike

variable {κ : Type} {s s' : State κ}

theorem refl (s : State κ) : s.Alike s := ⟨rfl, rfl⟩

/-- A change that does not look at diagnostics. -/
theorem update (h : s.Alike s') (f : State κ → State κ)
    (hf : ∀ s diagnostics, f { s with diagnostics } = { f s with diagnostics })
    (hkeeps : ∀ s, (f s).diagnostics = s.diagnostics) : (f s).Alike (f s') where
  same := by
    have hs' := hf s s'.diagnostics
    rw [← h.same] at hs'
    rw [hkeeps]
    exact hs'
  constructs := by
    rw [hkeeps, hkeeps]
    exact h.constructs

/-- Alike states have the same top activation. -/
theorem top_eq (h : s.Alike s') : s'.top = s.top := by
  rw [h.same]
  rfl

theorem modifyTop (h : s.Alike s') (f : Activation → Activation) :
    (s.modifyTop f).Alike (s'.modifyTop f) := by
  refine h.update (·.modifyTop f) (fun s diagnostics => ?_) fun s => ?_
  · obtain ⟨_ | ⟨call, calls⟩, global, heap, arrays, console, _⟩ := s <;> rfl
  · obtain ⟨_ | ⟨call, calls⟩, global, heap, arrays, console, _⟩ := s <;> rfl

end State.Alike

/-! ## Computations that agree -/

/-- What an evaluation of an expression ends with if its value is asked for and there is none. -/
abbrev Halt.noValue (e : ExprId) : Halt := .fault (.memory (.unboundExpression e))

variable {κ : Type}

/-- The first computation runs out of fuel, or both end with related results or for the same kind of
reason. -/
inductive Matching (R : α → β → Prop) :
    EStateM.Result Halt (State κ) α → EStateM.Result Halt (State κ) β → Prop
  | ok {a : α} {b : β} {s s' : State κ} : R a b → s.Alike s' → Matching R (.ok a s) (.ok b s')
  | error {h h' : Halt} {s s' : State κ} :
    h.Alike h' → s.Alike s' → Matching R (.error h s) (.error h' s')
  | outOfFuel {s : State κ} (r : EStateM.Result Halt (State κ) β) :
    Matching R (.error .outOfFuel s) r

/-- From alike states, the computations end alike. -/
def Agree (R : α → β → Prop) (x : Exec κ α) (y : Exec κ β) : Prop :=
  ∀ s s', s.Alike s' → Matching R (x s) (y s')

variable {R : α → β → Prop} {x : Exec κ α} {y : Exec κ β}

/-- A second computation runs from where the first one came to, unless that halted. -/
theorem bind_apply (x : Exec κ α) (f : α → Exec κ β) (s : State κ) :
    (x >>= f) s = match x s with
      | .ok a t => f a t
      | .error h t => .error h t := by
  change EStateM.bind x f s = _
  unfold EStateM.bind
  cases x s <;> rfl

theorem get_apply (s : State κ) : (get : Exec κ (State κ)) s = .ok s s := rfl

theorem set_apply (s t : State κ) : (set t : Exec κ PUnit) s = .ok ⟨⟩ t := rfl

/-- Computations that agree may be carried out one after the other. -/
theorem Agree.bind {S : α' → β' → Prop} {f : α → Exec κ α'} {g : β → Exec κ β'} (h : Agree R x y)
    (hf : ∀ a b, R a b → Agree S (f a) (g b)) : Agree S (x >>= f) (y >>= g) := by
  intro s s' hs
  rw [bind_apply, bind_apply]
  have hmatch := h s s' hs
  generalize x s = r, y s' = r' at hmatch
  cases hmatch with
  | ok hab ht => exact hf _ _ hab _ _ ht
  | error hh ht => exact .error hh ht
  | outOfFuel _ => exact .outOfFuel _

theorem agree_pure {a : α} {b : β} (h : R a b) : Agree R (pure a : Exec κ α) (pure b) :=
  fun _ _ hs => .ok h hs

/-- Halts for the same kind of reason agree. -/
theorem agree_throw {h h' : Halt} (hh : h.Alike h') : Agree R (throw h : Exec κ α) (throw h') :=
  fun _ _ hs => .error hh hs

/-- A computation without fuel agrees with every other one. -/
theorem agree_outOfFuel (y : Exec κ β) : Agree R (throw .outOfFuel : Exec κ α) y :=
  fun _ _ _ => .outOfFuel _

theorem agree_fault (cause : RuntimeFault) : Agree R (fault cause : Exec κ α) (fault cause) :=
  agree_throw (.same _)

theorem agree_orFault (answer : Except MemoryFault α) :
    Agree Eq (orFault answer : Exec κ α) (orFault answer) := by
  cases answer with
  | ok a => exact agree_pure rfl
  | error f => exact agree_fault _

/-- A change agrees if it leads from alike states to alike states. -/
theorem agree_modify {f : State κ → State κ} (hf : ∀ s s', s.Alike s' → (f s).Alike (f s')) :
    Agree (fun _ _ => True) (modify f : Exec κ PUnit) (modify f) :=
  fun s s' hs => .ok trivial (hf s s' hs)

/-- What follows depends on the state, but not on its diagnostics. -/
theorem agree_get {f g : State κ → Exec κ α} {S : α → α → Prop}
    (hg : ∀ s diagnostics, g { s with diagnostics } = g s) (h : ∀ s, Agree S (f s) (g s)) :
    Agree S (get >>= f) (get >>= g) := by
  intro s s' hs
  have hsame : g s' = g s := by rw [hs.same, hg]
  change Matching S (f s s) (g s' s')
  rw [hsame]
  exact h s s s' hs

/-- The state is changed after an answer of memory, which does not depend on diagnostics. -/
theorem agree_memory {γ : Type} (answer : State κ → Except MemoryFault γ)
    (f : State κ → γ → State κ) (g : γ → α)
    (hanswer : ∀ s diagnostics, answer { s with diagnostics } = answer s)
    (hf : ∀ s c diagnostics, f { s with diagnostics } c = { f s c with diagnostics })
    (hkeeps : ∀ s c, (f s c).diagnostics = s.diagnostics) :
    let x : Exec κ α := do
      let s ← get
      let c ← orFault (answer s)
      set (f s c)
      return g c
    Agree Eq x x := by
  intro x s s' hs
  have hsame : answer s' = answer s := by rw [hs.same, hanswer]
  change Matching Eq ((orFault (answer s) >>= fun c => set (f s c) >>= fun _ => pure (g c)) s)
    ((orFault (answer s') >>= fun c => set (f s' c) >>= fun _ => pure (g c)) s')
  rw [hsame]
  cases answer s with
  | ok c => exact .ok rfl (hs.update (f · c) (fun s => hf s c) fun s => hkeeps s c)
  | error fault => exact .error (.same _) hs

/-- Lists of computations agree if their members do. -/
theorem agree_forM {as : List α} {as' : List β} {f : α → Exec κ Unit} {g : β → Exec κ Unit}
    (h : List.Forall₂ (fun a b => Agree (fun _ _ => True) (f a) (g b)) as as') :
    Agree (fun _ _ => True) (as.forM f) (as'.forM g) := by
  induction h with
  | nil => exact agree_pure trivial
  | cons ha _ ih => exact ha.bind fun _ _ _ => ih

/-- The results of lists of computations are the same if those of their members are. -/
theorem agree_mapM {as : List α} {as' : List α'} {f : α → Exec κ β} {g : α' → Exec κ β}
    (h : List.Forall₂ (fun a a' => Agree Eq (f a) (g a')) as as') :
    Agree Eq (as.mapM f) (as'.mapM g) := by
  induction h with
  | nil => exact agree_pure rfl
  | cons ha _ ih =>
    rw [List.mapM_cons, List.mapM_cons]
    refine ha.bind fun b b' hb => ih.bind fun bs bs' hbs => agree_pure ?_
    rw [hb, hbs]

/-- Lists of statements agree if their members do. -/
theorem agree_untilReturn {f g : α → Exec κ Flow} (as : List α) (h : ∀ a, Agree Eq (f a) (g a)) :
    Agree Eq (untilReturn f as) (untilReturn g as) := by
  induction as with
  | nil => exact agree_pure rfl
  | cons a as ih =>
    refine (h a).bind fun flow flow' hflow => ?_
    subst hflow
    cases flow with
    | normal => exact ih
    | returned value => exact agree_pure rfl

/-- The second loop may have more rounds. -/
theorem agree_whileHolds {condition condition' : Exec κ Bool} {action action' : Exec κ Flow}
    (hc : Agree Eq condition condition') (ha : Agree Eq action action') {m n : Nat} (hmn : m ≤ n) :
    Agree Eq (whileHolds condition action m) (whileHolds condition' action' n) := by
  induction m generalizing n with
  | zero => exact agree_outOfFuel _
  | succ m ih =>
    obtain ⟨n, rfl⟩ := Nat.exists_eq_succ_of_ne_zero (show n ≠ 0 by omega)
    refine hc.bind fun b b' hb => ?_
    subst hb
    cases b with
    | false => exact agree_pure rfl
    | true =>
      refine ha.bind fun flow flow' hflow => ?_
      subst hflow
      cases flow with
      | normal => exact ih (by omega)
      | returned value => exact agree_pure rfl

/-! ## Values that are asked for next -/

/-- Asking for a value that is missing fails alike for different expressions. -/
theorem agree_valueOf (e e' : ExprId) (v : Option Int32) :
    Agree Eq (valueOf e v : Exec κ Int32) (valueOf e' v) := by
  cases v with
  | some value => exact agree_pure rfl
  | none => exact agree_throw (.unbound e e')

/-- The evaluations end alike, or one has no value and the other has halted for want of it; this
happens only if `plain` holds. -/
inductive MatchingAsked (plain : Prop) :
    EStateM.Result Halt (State κ) (Option Int32) →
      EStateM.Result Halt (State κ) (Option Int32) → Prop
  | same {r r' : EStateM.Result Halt (State κ) (Option Int32)} :
    Matching Eq r r' → MatchingAsked plain r r'
  | left {s s' : State κ} (e' : ExprId) : plain → s.Alike s' →
      MatchingAsked plain (.ok none s) (.error (.noValue e') s')
  | right {s s' : State κ} (e : ExprId) : plain → s.Alike s' →
      MatchingAsked plain (.error (.noValue e) s) (.ok none s')

/-- From alike states, the evaluations end alike if their values are asked for next. -/
def AgreeAsked (plain : Prop) (x y : Exec κ (Option Int32)) : Prop :=
  ∀ s s', s.Alike s' → MatchingAsked plain (x s) (y s')

/-- The value is asked for before anything else happens. -/
def Asks (f : Option Int32 → Exec κ α) : Prop := ∀ s, ∃ e, f none s = .error (.noValue e) s

/-- What agrees does so when its value is asked for next. -/
theorem Agree.asked {plain : Prop} {x y : Exec κ (Option Int32)} (h : Agree Eq x y) :
    AgreeAsked plain x y :=
  fun s s' hs => .same (h s s' hs)

/-- Evaluations that agree up to a missing value lead on to agreement if it is asked for. -/
theorem AgreeAsked.bind {plain : Prop} {x y : Exec κ (Option Int32)} {f : Option Int32 → Exec κ α}
    {g : Option Int32 → Exec κ β} (h : AgreeAsked plain x y) (hfg : ∀ v, Agree R (f v) (g v))
    (hf : plain → Asks f) (hg : plain → Asks g) : Agree R (x >>= f) (y >>= g) := by
  intro s s' hs
  rw [bind_apply, bind_apply]
  have hmatch := h s s' hs
  generalize x s = r, y s' = r' at hmatch
  cases hmatch with
  | same hsame =>
    cases hsame with
    | ok hab ht =>
      subst hab
      exact hfg _ _ _ ht
    | error hh ht => exact .error hh ht
    | outOfFuel _ => exact .outOfFuel _
  -- the first one has no value, and whoever asks for it fails as the second one did
  | left e' hplain ht =>
    obtain ⟨e, he⟩ := hf hplain _
    dsimp only
    rw [he]
    exact .error (.unbound e e') ht
  | right e hplain ht =>
    obtain ⟨e', he'⟩ := hg hplain _
    dsimp only
    rw [he']
    exact .error (.unbound e e') ht

/-- To ask for the value of an expression is to ask at once. -/
theorem asks_valueOf (e : ExprId) (f : Int32 → Exec κ α) : Asks fun v => valueOf e v >>= f :=
  fun _ => ⟨e, rfl⟩

/-- What asks at once does so whatever comes after it. -/
theorem Asks.bind {f : Option Int32 → Exec κ α} (h : Asks f) (g : α → Exec κ β) : Asks fun v =>
    f v >>= g := by
  intro s
  obtain ⟨e, he⟩ := h s
  refine ⟨e, ?_⟩
  change (f none >>= g) s = _
  rw [bind_apply, he]

/-- Looking at the state does not come before the question. -/
theorem asks_get {f : Option Int32 → State κ → Exec κ α} (h : ∀ s, Asks fun v => f v s) :
    Asks fun v => get >>= f v := fun s => h s s

/-- If missing values cannot make a difference, they do not. -/
theorem AgreeAsked.agree_of_not {plain : Prop} {x y : Exec κ (Option Int32)}
    (h : AgreeAsked plain x y) (hnot : ¬ plain) : Agree Eq x y := by
  intro s s' hs
  have hmatch := h s s' hs
  generalize x s = r, y s' = r' at hmatch
  cases hmatch with
  | same hsame => exact hsame
  | left _ hplain _ => exact absurd hplain hnot
  | right _ hplain _ => exact absurd hplain hnot

/-- The condition may be weakened. -/
theorem AgreeAsked.mono {plain plain' : Prop} {x y : Exec κ (Option Int32)}
    (h : AgreeAsked plain x y) (himp : plain → plain') : AgreeAsked plain' x y := by
  intro s s' hs
  have hmatch := h s s' hs
  generalize x s = r, y s' = r' at hmatch
  cases hmatch with
  | same hsame => exact .same hsame
  | left e' hplain ht => exact .left e' (himp hplain) ht
  | right e hplain ht => exact .right e (himp hplain) ht

end MiniC.Direct
