import MiniC.Proofs.Evaluation

/-!
# Execution with enough fuel

A computation that is given fuel is steady if more of it changes nothing once there is enough
(`Run.Steady`). What it ends in is then a relation between states and outcomes (`Run.Reaches`),
which says nothing of fuel. The relation of a sequence is that of its parts one after the other
(`reaches_bind_iff`), and that of a loop is given by its rounds (`Run.LoopEnds`,
`reaches_whileHolds_iff`).

So the execution of a statement (`Run.Executes`) is described by those of its parts:
`executes_while_iff`, `executes_for_iff` and the lemmas beside them.
-/

set_option autoImplicit false

namespace MiniC.Run

variable {κ α β : Type}

/-! ## Steady computations -/

/-- Unless it runs out of fuel, the computation does the same with more of it. -/
def Steady (x : Nat → Run κ α) : Prop :=
  ∀ (n m : Nat) (s : State κ), n ≤ m → halt? (x n s) ≠ some .outOfFuel → x m s = x n s

/-- Two amounts of fuel that are enough lead to the same end. -/
theorem Steady.eq {x : Nat → Run κ α} (hx : Steady x) {n m : Nat} {s : State κ} (hle : n ≤ m)
    (h : halt? (x n s) ≠ some .outOfFuel) : x m s = x n s := hx n m s hle h

/-- With enough fuel the computation ends like this, and not for want of fuel. -/
structure Reaches (x : Nat → Run κ α) (s : State κ)
    (r : EStateM.Result Halt (State κ) α) : Prop where
  result : ∃ n, x n s = r
  done : halt? r ≠ some .outOfFuel

theorem Steady.const (x : Run κ α) : Steady fun _ => x := fun _ _ _ _ _ => rfl

/-- A sequence is steady if its parts are. -/
theorem Steady.bind {x : Nat → Run κ α} {f : Nat → α → Run κ β} (hx : Steady x)
    (hf : ∀ a, Steady fun n => f n a) :
    Steady fun n => x n >>= f n := by
  intro n m s hle h
  change halt? ((x n >>= f n) s) ≠ _ at h
  change (x m >>= f m) s = (x n >>= f n) s
  rw [bind_apply] at h
  rw [bind_apply, bind_apply]
  -- the whole was not short of fuel, so neither was the first part, and the second was not either
  -- if it was reached
  cases hn : x n s with
  | error halt t =>
    rw [hn] at h
    rw [hx.eq hle (by rw [hn]; exact h), hn]
  | ok a t =>
    rw [hn] at h
    rw [hx.eq hle (by rw [hn]; nofun), hn]
    exact (hf a).eq hle h

/-- What comes after a statement is left out if this returns. -/
theorem Steady.afterFlow {x : Nat → Run κ Flow} (hx : Steady x) (flow : Flow) : Steady fun n =>
    match flow with
    | .normal => x n
    | .returned value => return .returned value := by
  cases flow with
  | normal => exact hx
  | returned value => exact .const _

/-- One round of a loop. -/
theorem whileHolds_succ (condition : Run κ Bool) (action : Run κ Flow)
    (rounds : Nat) (s : State κ) :
    whileHolds condition action (rounds + 1) s =
      match condition s with
      | .error halt t => .error halt t
      | .ok false t => .ok .normal t
      | .ok true t =>
        match action t with
        | .error halt u => .error halt u
        | .ok (.returned value) u => .ok (.returned value) u
        | .ok .normal u => whileHolds condition action rounds u := by
  rw [whileHolds, bind_apply]
  rcases condition s with ⟨_ | _, t⟩ | ⟨halt, t⟩
  · rfl
  · dsimp only
    rw [if_pos rfl, bind_apply]
    rcases action t with ⟨_ | value, u⟩ | ⟨halt, u⟩ <;> rfl
  · rfl

/-- More rounds, each with more fuel, change nothing. -/
theorem whileHolds_of_le {c : Nat → Run κ Bool} {a : Nat → Run κ Flow}
    (hc : Steady c) (ha : Steady a) {n m k l : Nat} (hnm : n ≤ m) (hkl : k ≤ l) {s : State κ}
    (h : halt? (whileHolds (c n) (a n) k s) ≠ some .outOfFuel) :
    whileHolds (c m) (a m) l s = whileHolds (c n) (a n) k s := by
  induction k generalizing l s with
  | zero => exact absurd rfl h
  | succ k ih =>
    -- the longer run has a round left as well, and in it condition and action do the same
    obtain ⟨l, rfl⟩ := Nat.exists_eq_add_of_le' (Nat.le_trans (Nat.succ_pos k) hkl)
    rw [whileHolds_succ] at h ⊢
    rw [whileHolds_succ]
    have hcondition : c m s = c n s := by
      refine hc.eq hnm fun hfuel => ?_
      obtain ⟨t, ht⟩ := exists_of_halt? hfuel
      rw [ht] at h
      exact h rfl
    rw [hcondition]
    rcases hcn : c n s with ⟨_ | _, t⟩ | ⟨halt, t⟩
    · rfl
    · rw [hcn] at h
      have haction : a m t = a n t := by
        refine ha.eq hnm fun hfuel => ?_
        obtain ⟨u, hu⟩ := exists_of_halt? hfuel
        simp only [hu] at h
        exact h rfl
      dsimp only at h ⊢
      rw [haction]
      rcases han : a n t with ⟨_ | value, u⟩ | ⟨halt, u⟩
      · rw [han] at h
        exact ih (Nat.le_of_succ_le_succ hkl) h
      · rfl
      · rfl
    · rfl

/-- A loop is steady if its condition and its action are. -/
theorem Steady.whileHolds {c : Nat → Run κ Bool} {a : Nat → Run κ Flow}
    (hc : Steady c) (ha : Steady a) :
    Steady fun n => whileHolds (c n) (a n) n := by
  intro n m s hle h
  exact whileHolds_of_le hc ha hle hle h

namespace Reaches

variable {x y : Nat → Run κ α} {s t : State κ} {r r' : EStateM.Result Halt (State κ) α}

/-- What is reached, is reached with all fuel from some amount on. -/
theorem of_le (h : Reaches x s r) (hx : Steady x) : ∃ n, ∀ m, n ≤ m → x m s = r := by
  obtain ⟨⟨n, hn⟩, hdone⟩ := h
  refine ⟨n, fun m hm => ?_⟩
  rw [hx.eq hm (by rwa [hn]), hn]

/-- A steady computation ends in one way. -/
theorem unique (h : Reaches x s r) (h' : Reaches x s r') (hx : Steady x) : r = r' := by
  obtain ⟨n, hn⟩ := h.of_le hx
  obtain ⟨n', hn'⟩ := h'.of_le hx
  rw [← hn _ (Nat.le_max_left n n'), ← hn' _ (Nat.le_max_right n n')]

/-- Where two computations do the same, they end alike. -/
theorem congr (h : ∀ n, x n s = y n t) : Reaches x s r ↔ Reaches y t r := by
  constructor
  · rintro ⟨⟨n, hn⟩, hdone⟩
    exact ⟨⟨n, h n ▸ hn⟩, hdone⟩
  · rintro ⟨⟨n, hn⟩, hdone⟩
    exact ⟨⟨n, h n ▸ hn⟩, hdone⟩

/-- A computation that is given no fuel ends as it does, if that is not for want of fuel. -/
theorem const_iff {x : Run κ α} : Reaches (fun _ => x) s r ↔ x s = r ∧ halt? r ≠ some .outOfFuel :=
  ⟨fun h => ⟨h.result.choose_spec, h.done⟩, fun h => ⟨⟨0, h.1⟩, h.2⟩⟩

theorem pure_iff {a : α} : Reaches (fun _ => pure a) s r ↔ r = .ok a s := by
  rw [const_iff]
  constructor
  · exact fun h => h.1.symm
  · rintro rfl
    exact ⟨rfl, nofun⟩

/-- A level of nesting takes fuel. -/
theorem succ_iff (hzero : ∀ s, x 0 s = .error .outOfFuel s) (hsucc : ∀ n, x (n + 1) = y n) :
    Reaches x s r ↔ Reaches y s r := by
  constructor
  · rintro ⟨⟨n, hn⟩, hdone⟩
    cases n with
    | zero =>
      rw [hzero] at hn
      exact absurd (hn ▸ rfl) hdone
    | succ n => exact ⟨⟨n, hsucc n ▸ hn⟩, hdone⟩
  · rintro ⟨⟨n, hn⟩, hdone⟩
    exact ⟨⟨n + 1, (hsucc n).symm ▸ hn⟩, hdone⟩

end Reaches

/-! ## Sequences -/

/-- How a sequence ends: as its first part, where this halts, and otherwise as the second part does
after it. -/
inductive SequenceEnds (X : EStateM.Result Halt (State κ) α → Prop)
    (F : α → State κ → EStateM.Result Halt (State κ) β → Prop) :
    EStateM.Result Halt (State κ) β → Prop
  | halted {halt : Halt} {t : State κ} : X (.error halt t) → SequenceEnds X F (.error halt t)
  | after {a : α} {t : State κ} {r : EStateM.Result Halt (State κ) β} :
      X (.ok a t) → F a t r → SequenceEnds X F r

/-- How a sequence ends is how its parts end, one after the other. -/
theorem reaches_bind_iff {x : Nat → Run κ α} {f : Nat → α → Run κ β} (hx : Steady x)
    (hf : ∀ a, Steady fun n => f n a) {s : State κ} {r : EStateM.Result Halt (State κ) β} :
    Reaches (fun n => x n >>= f n) s r ↔
      SequenceEnds (Reaches x s) (fun a => Reaches fun n => f n a) r := by
  constructor
  · -- a sequence that ends has done so with some fuel, which both parts were given
    rintro ⟨⟨n, hn⟩, hdone⟩
    rw [bind_apply] at hn
    cases hxn : x n s with
    | error halt t =>
      rw [hxn] at hn
      subst hn
      exact .halted ⟨⟨n, hxn⟩, hdone⟩
    | ok a t =>
      rw [hxn] at hn
      exact .after ⟨⟨n, hxn⟩, nofun⟩ ⟨⟨n, hn⟩, hdone⟩
  · rintro (h | ⟨h, hrest⟩)
    · obtain ⟨n, hn⟩ := h.result
      refine ⟨⟨n, ?_⟩, h.done⟩
      rw [bind_apply, hn]
    · -- the parts may take different amounts; both are steady, so the larger one does for the two
      obtain ⟨n, hn⟩ := h.of_le hx
      obtain ⟨m, hm⟩ := hrest.of_le (hf _)
      refine ⟨⟨max n m, ?_⟩, hrest.done⟩
      rw [bind_apply, hn _ (Nat.le_max_left n m)]
      exact hm _ (Nat.le_max_right n m)

/-- Parts that end alike may take each other's place in a sequence. -/
theorem SequenceEnds.congr {X X' : EStateM.Result Halt (State κ) α → Prop}
    {F F' : α → State κ → EStateM.Result Halt (State κ) β → Prop}
    {r : EStateM.Result Halt (State κ) β}
    (hX : ∀ r, X r ↔ X' r) (hF : ∀ a t r, F a t r ↔ F' a t r) :
    SequenceEnds X F r ↔ SequenceEnds X' F' r := by
  obtain rfl : X = X' := funext fun r => propext (hX r)
  obtain rfl : F = F' := funext fun a => funext fun t => funext fun r => propext (hF a t r)
  exact .rfl

/-! ## Loops -/

/-- How a loop ends, round by round. -/
inductive LoopEnds (C : State κ → EStateM.Result Halt (State κ) Bool → Prop)
    (A : State κ → EStateM.Result Halt (State κ) Flow → Prop) :
    State κ → EStateM.Result Halt (State κ) Flow → Prop
  | conditionHalts {s t : State κ} {halt : Halt} :
    C s (.error halt t) → LoopEnds C A s (.error halt t)
  | stops {s t : State κ} : C s (.ok false t) → LoopEnds C A s (.ok .normal t)
  | roundHalts {s t u : State κ} {halt : Halt} :
      C s (.ok true t) → A t (.error halt u) → LoopEnds C A s (.error halt u)
  | returns {s t u : State κ} {value : Int32} :
      C s (.ok true t) → A t (.ok (.returned value) u) → LoopEnds C A s (.ok (.returned value) u)
  | again {s t u : State κ} {r : EStateM.Result Halt (State κ) Flow} :
      C s (.ok true t) → A t (.ok .normal u) → LoopEnds C A u r → LoopEnds C A s r

/-- A loop that is carried out ends round by round. -/
theorem loopEnds_of_whileHolds {c : Nat → Run κ Bool} {a : Nat → Run κ Flow}
    {n k : Nat} {s : State κ}
    {r : EStateM.Result Halt (State κ) Flow} (h : whileHolds (c n) (a n) k s = r)
    (hdone : halt? r ≠ some .outOfFuel) : LoopEnds (Reaches c) (Reaches a) s r := by
  induction k generalizing s with
  | zero =>
    subst h
    exact absurd rfl hdone
  | succ k ih =>
    rw [whileHolds_succ] at h
    rcases hc : c n s with ⟨_ | _, t⟩ | ⟨halt, t⟩
    · rw [hc] at h
      subst h
      exact .stops ⟨⟨n, hc⟩, nofun⟩
    · have hcondition : Reaches c s (.ok true t) := ⟨⟨n, hc⟩, nofun⟩
      rw [hc] at h
      dsimp only at h
      rcases ha : a n t with ⟨_ | value, u⟩ | ⟨halt, u⟩
      · rw [ha] at h
        exact .again hcondition ⟨⟨n, ha⟩, nofun⟩ (ih h)
      · rw [ha] at h
        subst h
        exact .returns hcondition ⟨⟨n, ha⟩, nofun⟩
      · rw [ha] at h
        subst h
        exact .roundHalts hcondition ⟨⟨n, ha⟩, hdone⟩
    · rw [hc] at h
      subst h
      exact .conditionHalts ⟨⟨n, hc⟩, hdone⟩

/-- A loop that ends does so with as much fuel as the largest amount that a part of a round takes,
and one more for every round. -/
theorem exists_rounds_of_loopEnds {c : Nat → Run κ Bool} {a : Nat → Run κ Flow}
    (hc : Steady c) (ha : Steady a)
    {s : State κ} {r : EStateM.Result Halt (State κ) Flow}
    (h : LoopEnds (Reaches c) (Reaches a) s r) :
    halt? r ≠ some .outOfFuel ∧ ∃ n, whileHolds (c n) (a n) n s = r := by
  induction h with
  | conditionHalts h =>
    obtain ⟨n, hn⟩ := h.of_le hc
    refine ⟨h.done, n + 1, ?_⟩
    rw [whileHolds_succ, hn _ (Nat.le_succ n)]
  | stops h =>
    obtain ⟨n, hn⟩ := h.of_le hc
    refine ⟨nofun, n + 1, ?_⟩
    rw [whileHolds_succ, hn _ (Nat.le_succ n)]
  | roundHalts h haction =>
    obtain ⟨n, hn⟩ := h.of_le hc
    obtain ⟨m, hm⟩ := haction.of_le ha
    refine ⟨haction.done, max n m + 1, ?_⟩
    rw [whileHolds_succ, hn _ (by omega)]
    dsimp only
    rw [hm _ (by omega)]
  | returns h haction =>
    obtain ⟨n, hn⟩ := h.of_le hc
    obtain ⟨m, hm⟩ := haction.of_le ha
    refine ⟨nofun, max n m + 1, ?_⟩
    rw [whileHolds_succ, hn _ (by omega)]
    dsimp only
    rw [hm _ (by omega)]
  | again h haction _ ih =>
    obtain ⟨n, hn⟩ := h.of_le hc
    obtain ⟨m, hm⟩ := haction.of_le ha
    -- the remaining rounds end with `k`, and so with any larger amount too
    obtain ⟨hdone, k, hk⟩ := ih
    refine ⟨hdone, max (max n m) k + 1, ?_⟩
    rw [whileHolds_succ, hn _ (by omega)]
    dsimp only
    rw [hm _ (by omega)]
    dsimp only
    rw [whileHolds_of_le hc ha (by omega : k ≤ _) (by omega : k ≤ _) (by rwa [hk]), hk]

/-- The outcomes of a loop are those of its rounds. -/
theorem reaches_whileHolds_iff {c : Nat → Run κ Bool} {a : Nat → Run κ Flow}
    (hc : Steady c) (ha : Steady a) {s : State κ} {r : EStateM.Result Halt (State κ) Flow} :
    Reaches (fun n => whileHolds (c n) (a n) n) s r ↔ LoopEnds (Reaches c) (Reaches a) s r := by
  constructor
  · rintro ⟨⟨n, hn⟩, hdone⟩
    exact loopEnds_of_whileHolds hn hdone
  · intro h
    obtain ⟨hdone, hn⟩ := exists_rounds_of_loopEnds hc ha h
    exact ⟨hn, hdone⟩

/-! ## Nodes -/

variable [Console κ] (image : Image)

/-- With enough fuel, the execution of a statement ends like this. -/
abbrev Executes (id : StmtId) : State κ → EStateM.Result Halt (State κ) Flow → Prop :=
  Reaches fun n => (evaluator image n).stmt id

/-- With enough fuel, it is found out like this whether a condition holds. -/
abbrev Decides (condition : ExprId) : State κ → EStateM.Result Halt (State κ) Bool → Prop :=
  Reaches fun n => conditionHolds image (evaluator image n) condition

/-- An evaluation with some fuel, followed by the same one with more of it. -/
theorem followed_more (n spare : Nat) :
    Followed (κ := κ) Cut.fuel (evaluator image n) (evaluator image (n + spare)) :=
  have hspare : (Cut.fuel (κ := κ)).Spares spare := fun _ _ _ _ => rfl
  followed_evaluator (Cut.fuel_fits image) hspare (followed_of_spares image hspare) n

omit [Console κ] in
/-- What follows itself with more fuel is steady. -/
theorem steady_of_follows [Console κ] {x : Nat → Run κ α}
    (hx : ∀ n spare, Follows Cut.fuel (x n) (x (n + spare))) :
    Steady x := by
  intro n m s hle h
  obtain ⟨spare, rfl⟩ := Nat.exists_eq_add_of_le hle
  exact eq_of_follows (hx n spare) h

/-- The evaluation of an expression is steady. -/
theorem steady_expr (e : ExprId) : Steady (κ := κ) fun n => (evaluator image n).expr e :=
  steady_of_follows fun n spare => (followed_more image n spare).expr e

/-- The execution of a statement is steady. -/
theorem steady_stmt (id : StmtId) : Steady (κ := κ) fun n => (evaluator image n).stmt id :=
  steady_of_follows fun n spare => (followed_more image n spare).stmt id

theorem steady_conditionHolds (condition : ExprId) :
    Steady (κ := κ) fun n => conditionHolds image (evaluator image n) condition :=
  (steady_expr image condition).bind fun _ => .const _

theorem steady_loopContinues (condition : Option ExprId) :
    Steady (κ := κ) fun n => loopContinues image (evaluator image n) condition := by
  cases condition with
  | none => exact .const _
  | some c => exact steady_conditionHolds image c

theorem steady_increment (increment : Option ExprId) : Steady (κ := κ) fun n => do
    if let some e := increment then (evaluator image n).expr e
    return Flow.normal := by
  cases increment with
  | none => exact .const _
  | some e => exact (steady_expr image e).bind fun _ => .const _

theorem steady_forRound (body : StmtId) (increment : Option ExprId) :
    Steady (κ := κ) fun n => forRound (evaluator image n) body increment :=
  (steady_stmt image body).bind (steady_increment image increment).afterFlow

theorem steady_untilReturn (ids : List StmtId) :
    Steady (κ := κ) fun n => untilReturn (evaluator image n).stmt ids := by
  induction ids with
  | nil => exact .const _
  | cons id ids ih =>
    exact (steady_stmt image id).bind ih.afterFlow

variable {image} {id : StmtId} {s t : State κ} {r : EStateM.Result Halt (State κ) Flow}

omit [Console κ] in
/-- A statement begins with turning to it, wherever the frame was. -/
theorem stmtStep_turnedTo (ev : Evaluator κ) (rounds : Nat) (id : StmtId)
    (s : State κ) (focus : Focus) :
    stmtStep image ev rounds id (turnedTo s focus) = stmtStep image ev rounds id s := by
  unfold stmtStep
  rw [bind_apply, bind_apply, focusOn_apply, focusOn_apply, turnedTo_turnedTo]

/-- A statement ends as one step of its execution does. -/
theorem executes_step_iff :
    Executes image id s r ↔ Reaches (fun n => stmtStep image (evaluator image n) n id) s r :=
  Reaches.succ_iff (fun _ => rfl) fun _ => rfl

/-- A statement turns to itself first, so it does not matter what was turned to before. -/
theorem executes_turnedTo_iff {focus : Focus} :
    Executes image id (turnedTo s focus) r ↔ Executes image id s r := by
  rw [executes_step_iff, executes_step_iff]
  exact Reaches.congr fun n => stmtStep_turnedTo _ n id s focus

/-- The same of a condition. -/
theorem decides_turnedTo_iff {c : ExprId} {focus : Focus} {r : EStateM.Result Halt (State κ) Bool} :
    Decides image c (turnedTo s focus) r ↔ Decides image c s r := by
  have hstep {s : State κ} : Decides image c s r ↔
      Reaches (fun n => do
        exprStep image (evaluator image n) c
        return decide ((← valueOf image c) ≠ 0)) s r :=
    Reaches.succ_iff (fun _ => rfl) fun _ => rfl
  rw [hstep, hstep]
  refine Reaches.congr fun n => ?_
  rw [bind_apply, bind_apply, exprStep_turnedTo]

/-! ## Statements -/

/-- A statement turns to itself and then does what its form says. -/
theorem executes_of_kind {x : Nat → Run κ Flow}
    (h : ∀ n, stmtStep image (evaluator image n) n id = do focusOn (.stmt id); x n) :
    Executes image id s r ↔ Reaches x (turnedTo s (.stmt id)) r := by
  rw [executes_step_iff]
  refine Reaches.congr fun n => ?_
  rw [h, bind_apply, focusOn_apply]

/-- A `while` loop ends as its rounds do. -/
theorem executes_while_iff {c : ExprId} {body : StmtId}
    (hk : (image.program.stmt id).kind = .whileLoop c body) :
    Executes image id s r ↔
      LoopEnds (Decides image c) (Executes image body) (turnedTo s (.stmt id)) r := by
  rw [executes_of_kind fun n => by rw [stmtStep, hk]]
  exact reaches_whileHolds_iff (steady_conditionHolds image c) (steady_stmt image body)

/-- The rounds of a `for` loop, once its first clause was executed. -/
abbrev ForEnds (image : Image) (condition increment : Option ExprId) (body : StmtId) :
    State κ → EStateM.Result Halt (State κ) Flow → Prop :=
  LoopEnds (Reaches fun n => loopContinues image (evaluator image n) condition)
    (Reaches fun n => forRound (evaluator image n) body increment)

/-- A `for` loop ends as its rounds do, after its first clause. -/
theorem executes_for_iff {init : Option StmtId}
    {condition increment : Option ExprId} {body : StmtId}
    (hk : (image.program.stmt id).kind = .forLoop init condition increment body) :
    Executes image id s r ↔
      match init with
      | none => ForEnds image condition increment body (turnedTo s (.stmt id)) r
      | some i =>
        SequenceEnds (Executes image i s) (fun _ => ForEnds image condition increment body) r := by
  have hc : Steady (κ := κ) fun n => loopContinues image (evaluator image n) condition :=
    steady_loopContinues image condition
  have ha : Steady (κ := κ) fun n => forRound (evaluator image n) body increment :=
    steady_forRound image body increment
  cases init with
  | none =>
    rw [executes_of_kind fun n => by rw [stmtStep, hk]]
    exact reaches_whileHolds_iff hc ha
  | some i =>
    rw [executes_of_kind (x := fun n => do
      let _ ← (evaluator image n).stmt i
      whileHolds (loopContinues image (evaluator image n) condition)
        (forRound (evaluator image n) body increment) n)
      fun n => by rw [stmtStep, hk]]
    rw [reaches_bind_iff (steady_stmt image i) fun _ => hc.whileHolds ha]
    exact SequenceEnds.congr (fun _ => executes_turnedTo_iff) fun _ _ _ =>
      reaches_whileHolds_iff hc ha

/-- After a statement that finishes normally comes what is next, after one that returns nothing. -/
def Onward (next : State κ → EStateM.Result Halt (State κ) Flow → Prop) :
    Flow → State κ → EStateM.Result Halt (State κ) Flow → Prop
  | .normal, t, r => next t r
  | .returned value, t, r => r = .ok (.returned value) t

/-- With enough fuel, statements that are executed one after the other end like this. -/
abbrev ExecutesAll (image : Image) (ids : List StmtId) :
    State κ → EStateM.Result Halt (State κ) Flow → Prop :=
  Reaches fun n => untilReturn (evaluator image n).stmt ids

theorem executesAll_nil_iff : ExecutesAll image [] s r ↔ r = .ok .normal s := Reaches.pure_iff

/-- After the first statement come the others, unless it returned. -/
theorem executesAll_cons_iff {ids : List StmtId} :
    ExecutesAll image (id :: ids) s r ↔
      SequenceEnds (Executes image id s) (Onward (ExecutesAll image ids)) r := by
  have hrest := (steady_untilReturn (κ := κ) image ids).afterFlow
  refine (reaches_bind_iff (steady_stmt image id) hrest).trans
    (SequenceEnds.congr (fun _ => .rfl) fun flow t r => ?_)
  cases flow with
  | normal => exact .rfl
  | returned value => exact Reaches.pure_iff

/-- A block ends as the statements in it. -/
theorem executes_block_iff {ids : List StmtId} (hk : (image.program.stmt id).kind = .block ids) :
    Executes image id s r ↔ ExecutesAll image ids (turnedTo s (.stmt id)) r :=
  executes_of_kind fun n => by rw [stmtStep, hk]

/-- An expression is evaluated for its effects. -/
abbrev Discards (image : Image) (e : ExprId) :
    State κ → EStateM.Result Halt (State κ) Flow → Prop :=
  Reaches fun n => do
    (evaluator image n).expr e
    return .normal

theorem discards_turnedTo_iff {e : ExprId} {focus : Focus} :
    Discards image e (turnedTo s focus) r ↔ Discards image e s r := by
  have hstep {s : State κ} : Discards image e s r ↔
      Reaches (fun n => do exprStep image (evaluator image n) e; return .normal) s r :=
    Reaches.succ_iff (fun _ => rfl) fun _ => rfl
  rw [hstep, hstep]
  refine Reaches.congr fun n => ?_
  rw [bind_apply, bind_apply, exprStep_turnedTo]

/-- The value of an expression that is a statement is dropped. -/
theorem executes_expr_iff {e : ExprId} (hk : (image.program.stmt id).kind = .expr e) :
    Executes image id s r ↔ Discards image e s r := by
  rw [executes_of_kind fun n => by rw [stmtStep, hk]]
  exact discards_turnedTo_iff

/-- A round of a `for` loop is its body and, where this finishes normally, its last clause. -/
theorem reaches_forRound_iff {body : StmtId} {increment : Option ExprId} :
    Reaches (fun n => forRound (evaluator image n) body increment) s r ↔
      SequenceEnds (Executes image body s) (Onward fun t r =>
        match increment with
        | none => r = .ok .normal t
        | some e => Discards image e t r) r := by
  have hrest := (steady_increment (κ := κ) image increment).afterFlow
  refine (reaches_bind_iff (steady_stmt image body) hrest).trans
    (SequenceEnds.congr (fun _ => .rfl) fun flow t r => ?_)
  cases flow with
  | returned value => exact Reaches.pure_iff
  | normal =>
    cases increment with
    | none => exact Reaches.pure_iff
    | some e => exact .rfl

end MiniC.Run
