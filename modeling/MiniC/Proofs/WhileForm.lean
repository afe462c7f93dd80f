import MiniC.Proofs.GrowingPrograms
import MiniC.Proofs.TreeExistence
import MiniC.Proofs.UnreadValues

/-!
# The `while` form of a `for` loop

A `for` loop can be written with `while`: a block that holds its first clause and a `while` loop,
whose body is a block of the body and, as an expression statement, the last clause
(`Program.WhileForm`). A condition that is missing becomes a literal that is not zero.

Both forms do the same from every state. With a condition they end in the very same way, for a round
of the one is a round of the other (`executes_round_iff`, `forEnds_iff`). Without one, the frames of
the `while` form keep the value of the literal besides, which nothing reads.
-/

set_option autoImplicit false

namespace MiniC

/-- A block that executes the clauses and the body of a `for` loop by means of `while`; the
condition there is that of the loop, or a literal that is not zero if the loop has none. -/
structure Program.WhileForm (p : Program) (init : Option StmtId)
    (condition increment : Option ExprId) (body : StmtId)
    (c : ExprId) (loop round : StmtId) (steps : List StmtId) (outer : StmtId) : Prop where
  outer : (p.stmt outer).kind = .block (init.toList ++ [loop])
  loop : (p.stmt loop).kind = .whileLoop c round
  round : (p.stmt round).kind = .block (body :: steps)
  steps : List.Forall₂ (fun id e => (p.stmt id).kind = .expr e) steps increment.toList
  condition : condition = some c ∨ condition = none ∧ ∃ value, value ≠ 0 ∧
    (p.expr c).kind = .intLiteral value

namespace Frame.Twin

variable {c : ExprId} {f g h : Frame}

theorem symm (hfg : f.Twin c g) : g.Twin c f :=
  ⟨⟨hfg.function.symm, hfg.decls.symm, fun e he => (hfg.exprs e he).symm⟩, hfg.focus.symm⟩

theorem trans (hfg : f.Twin c g) (hgh : g.Twin c h) : f.Twin c h :=
  ⟨hfg.toSameButValues.trans hgh.toSameButValues, hgh.focus.trans hfg.focus⟩

end Frame.Twin

theorem Frame.forall₂_twin_trans {c : ExprId} {fs gs hs : List Frame}
    (hfg : List.Forall₂ (Frame.Twin c) fs gs)
    (hgh : List.Forall₂ (Frame.Twin c) gs hs) : List.Forall₂ (Frame.Twin c) fs hs := by
  induction hfg generalizing hs with
  | nil =>
    cases hgh
    exact .nil
  | cons hfg _ ih =>
    cases hgh with
    | cons hgh hrest => exact .cons (hfg.trans hgh) (ih hrest)

theorem CallStack.Twin.trans {c : ExprId} {σ τ υ : CallStack} (h : σ.Twin c τ) (h' : τ.Twin c υ) :
    σ.Twin c υ where
  calls := Frame.forall₂_twin_trans h.calls h'.calls
  global := h.global.trans h'.global

namespace State.Twin

variable {κ : Type} {c : ExprId} {s t u : State κ}

theorem symm (h : s.Twin c t) : t.Twin c s where
  stack := ⟨h.stack.calls.flip.imp fun _ _ hf => hf.symm, h.stack.global.symm⟩
  heap := h.heap.symm
  arrays := h.arrays.symm
  console := h.console.symm
  diagnostics := h.diagnostics.symm

theorem turnedTo (h : s.Twin c t) (focus : Focus) :
    (Run.turnedTo s focus).Twin c (Run.turnedTo t focus) :=
  ⟨h.stack.modifyTop fun hf => hf.focusOn focus, h.heap, h.arrays, h.console, h.diagnostics⟩

end State.Twin

namespace Run

variable {κ α : Type} {c : ExprId}

theorem Twins.refl (r : EStateM.Result Halt (State κ) α) : Twins c False r r := by
  cases r with
  | ok a s => exact .ok (State.Twin.refl s).at
  | error halt s => exact .error (.refl s)

theorem Twins.symm {r r' : EStateM.Result Halt (State κ) α} (h : Twins c False r r') :
    Twins c False r' r := by
  cases h with
  | ok h => exact .ok h.toTwin.symm.at
  | error h => exact .error h.symm

/-! ## States that differ in a literal -/

section Literal

variable {s t : State κ}

/-- The state after a literal was evaluated. -/
def valued (s : State κ) (c : ExprId) (value : Int32) : State κ :=
  { turnedTo s (.expr c) with stack := (turnedTo s (.expr c)).stack.modifyTop (·.bindExpr c value) }

theorem twin_valued (s : State κ) (c : ExprId) (value : Int32) (focus : Focus) :
    (turnedTo s focus).Twin c (turnedTo (valued s c value) focus) := by
  have hframe (f : Frame) :
      (f.focusOn focus).Twin c (((f.focusOn (.expr c)).bindExpr c value).focusOn focus) := by
    refine ⟨⟨rfl, rfl, fun e he => ?_⟩, rfl⟩
    have hne : e ≠ c := by simpa using he
    simp [Frame.expr?_bindExpr, hne]
  refine ⟨?_, rfl, rfl, rfl, rfl⟩
  rcases s with ⟨⟨_ | ⟨frame, callers⟩, global⟩, heap, arrays, console, diagnostics⟩
  · exact ⟨.nil, hframe global⟩
  · exact ⟨.cons (hframe frame) (List.forall₂_same.2 fun f _ => .refl f), .refl _⟩

/-- Twins, wherever the top frames are turned to. -/
def Near (c : ExprId) (focus : Focus) (s t : State κ) : Prop :=
  (turnedTo s focus).Twin c (turnedTo t focus)

theorem Near.symm {focus : Focus} (h : Near c focus s t) : Near c focus t s := State.Twin.symm h

theorem Near.turnedTo_right {focus focus' : Focus} (h : Near c focus s t) :
    Near c focus s (turnedTo t focus') := by
  rw [Near, turnedTo_turnedTo]
  exact h

theorem Near.valued {focus : Focus} {value : Int32} (h : Near c focus s t) :
    Near c focus s (valued t c value) :=
  ⟨CallStack.Twin.trans h.stack (twin_valued t c value focus).stack, h.heap, h.arrays,
    h.console, h.diagnostics⟩

end Literal

/-! ## Loops -/

/-- A loop ends alike from wherever its condition is found out alike. -/
theorem LoopEnds.congr_start {C : State κ → EStateM.Result Halt (State κ) Bool → Prop}
    {A : State κ → EStateM.Result Halt (State κ) Flow → Prop} {s t : State κ}
    {r : EStateM.Result Halt (State κ) Flow}
    (hC : ∀ r, C s r → C t r) (h : LoopEnds C A s r) : LoopEnds C A t r := by
  cases h with
  | conditionHalts h => exact .conditionHalts (hC _ h)
  | stops h => exact .stops (hC _ h)
  | roundHalts h haction => exact .roundHalts (hC _ h) haction
  | returns h haction => exact .returns (hC _ h) haction
  | again h haction hrest => exact .again (hC _ h) haction hrest

/-- A loop whose condition always holds does what another such loop does, if every round does. -/
theorem LoopEnds.simulates {C C' : State κ → EStateM.Result Halt (State κ) Bool → Prop}
    {A A' : State κ → EStateM.Result Halt (State κ) Flow → Prop} {R : State κ → State κ → Prop}
    (hC : ∀ {s t r}, R s t → C s r → ∃ s' t', r = .ok true s' ∧ C' t (.ok true t') ∧ R s' t')
    (hA : ∀ {s t r}, R s t → A s r → ∃ r', A' t r' ∧ Twins c False r r')
    (hR : ∀ {s t}, s.Twin c t → R s t) {s t : State κ}
    {r : EStateM.Result Halt (State κ) Flow} (hst : R s t)
    (h : LoopEnds C A s r) : ∃ r', LoopEnds C' A' t r' ∧ Twins c False r r' := by
  -- the induction is on the rounds of the first loop, which never stops on its condition; `R` holds
  -- before each round
  induction h generalizing t with
  | conditionHalts h =>
    obtain ⟨_, _, ⟨⟩, -⟩ := hC hst h
  | stops h =>
    obtain ⟨_, _, ⟨⟩, -⟩ := hC hst h
  | roundHalts h haction =>
    obtain ⟨_, t', ⟨⟩, hcondition, hst'⟩ := hC hst h
    obtain ⟨_, haction', htwins⟩ := hA hst' haction
    cases htwins with
    | error hu => exact ⟨_, .roundHalts hcondition haction', .error hu⟩
  | returns h haction =>
    obtain ⟨_, t', ⟨⟩, hcondition, hst'⟩ := hC hst h
    obtain ⟨_, haction', htwins⟩ := hA hst' haction
    cases htwins with
    | ok hu => exact ⟨_, .returns hcondition haction', .ok hu⟩
  | again h haction _ ih =>
    obtain ⟨_, t', ⟨⟩, hcondition, hst'⟩ := hC hst h
    obtain ⟨_, haction', htwins⟩ := hA hst' haction
    cases htwins with
    | ok hu =>
      obtain ⟨r', hrest, htwins⟩ := ih (hR hu.toTwin)
      exact ⟨r', .again hcondition haction' hrest, htwins⟩

variable [Console κ] {image : Image} {init : Option StmtId} {condition increment : Option ExprId}
  {body loop round outer : StmtId} {steps : List StmtId} {s t : State κ}
    {r : EStateM.Result Halt (State κ) Flow}

/-! ## Rounds -/

/-- A last statement ends the list. -/
theorem executesAll_singleton_iff {id : StmtId} :
    ExecutesAll image [id] s r ↔ Executes image id s r := by
  rw [executesAll_cons_iff]
  constructor
  · rintro (h | @⟨flow, t, _, h, hnext⟩)
    · exact h
    · cases flow with
      | normal =>
        obtain rfl := executesAll_nil_iff.1 hnext
        exact h
      | returned value =>
        subst hnext
        exact h
  · intro h
    cases r with
    | error halt t => exact .halted h
    | ok flow t =>
      refine .after h ?_
      cases flow with
      | normal => exact executesAll_nil_iff.2 rfl
      | returned value => rfl

/-- The last clause of a `for` loop, as a statement of its own. -/
theorem executesAll_steps_iff :
    List.Forall₂ (fun id e => (image.program.stmt id).kind = .expr e) steps increment.toList →
      (ExecutesAll image steps s r ↔
        match increment with
        | none => r = .ok .normal s
        | some e => Discards image e s r) := by
  intro hsteps
  cases increment with
  | none =>
    cases hsteps
    exact executesAll_nil_iff
  | some e =>
    obtain ⟨id, steps, hid, hrest, rfl⟩ := List.forall₂_cons_right_iff.1 hsteps
    cases hrest
    rw [executesAll_singleton_iff]
    exact executes_expr_iff hid

/-- A round of the `while` form is one of the `for` loop. -/
theorem executes_round_iff (hround : (image.program.stmt round).kind = .block (body :: steps))
    (hsteps : List.Forall₂ (fun id e =>
      (image.program.stmt id).kind = .expr e) steps increment.toList) :
    Executes image round s r ↔
      Reaches (fun n => forRound (evaluator image n) body increment) s r := by
  rw [executes_block_iff hround, executesAll_cons_iff, reaches_forRound_iff]
  refine SequenceEnds.congr (fun _ => executes_turnedTo_iff) fun flow t r => ?_
  cases flow with
  | normal => exact executesAll_steps_iff (κ := κ) hsteps
  | returned value => exact .rfl

theorem reaches_forRound_turnedTo_iff {focus : Focus} :
    Reaches (fun n => forRound (evaluator image n) body increment) (turnedTo s focus) r ↔
      Reaches (fun n => forRound (evaluator image n) body increment) s r := by
  rw [reaches_forRound_iff, reaches_forRound_iff]
  exact SequenceEnds.congr (fun _ => executes_turnedTo_iff) fun _ _ _ => .rfl

/-! ## Loops with a condition -/

/-- With a condition, the rounds of a `for` loop are those of the `while` loop with the same
condition, wherever the frame was turned to before. -/
theorem forEnds_iff (hloop : (image.program.stmt loop).kind = .whileLoop c round)
    (hround : (image.program.stmt round).kind = .block (body :: steps))
    (hsteps : List.Forall₂ (fun id e =>
      (image.program.stmt id).kind = .expr e) steps increment.toList)
    {focus : Focus} (hst : turnedTo s focus = turnedTo t focus) :
    ForEnds image (some c) increment body s r ↔ Executes image loop t r := by
  have hrounds : Executes (κ := κ) image round = Reaches fun n =>
    forRound (evaluator image n) body increment :=
    funext fun _ => funext fun _ => propext (executes_round_iff hround hsteps)
  have hdecides (s : State κ) (focus : Focus) (r : EStateM.Result Halt (State κ) Bool) :
      Decides image c (turnedTo s focus) r ↔ Decides image c s r := decides_turnedTo_iff
  -- evaluating the condition turns the frame to it first, so the turn to the loop leaves no trace
  have hstart (r : EStateM.Result Halt (State κ) Bool) :
      Decides image c s r ↔ Decides image c (turnedTo t (.stmt loop)) r := by
    rw [hdecides, ← hdecides s focus, hst, hdecides]
  rw [executes_while_iff hloop, hrounds]
  exact ⟨LoopEnds.congr_start fun r => (hstart r).1, LoopEnds.congr_start fun r => (hstart r).2⟩

/-! ## Loops without a condition -/

/-- A literal that is not zero holds. -/
theorem decides_literal_iff {value : Int32} (hvalue : value ≠ 0)
    (hc : (image.program.expr c).kind = .intLiteral value)
    {r : EStateM.Result Halt (State κ) Bool} :
    Decides image c s r ↔ r = .ok true (valued s c value) := by
  have hholds : Decides image c s (.ok true (valued s c value)) := by
    refine ⟨⟨1, ?_⟩, nofun⟩
    have hexpr : (evaluator image 1 : Evaluator κ).expr c s = .ok () (valued s c value) := by
      change exprStep image (evaluator image 0) c s = _
      rw [exprStep, bind_apply, focusOn_apply, hc]
      rfl
    have hread : (valued s c value).stack.top.expr? c = some value := by
      simp [valued, Frame.expr?_bindExpr]
    rw [conditionHolds, bind_apply, hexpr]
    dsimp only
    rw [bind_apply, valueOf_of_expr? image hread]
    exact congrArg (EStateM.Result.ok · _) (decide_eq_true hvalue)
  constructor
  · intro h
    exact h.unique hholds (steady_conditionHolds image c)
  · rintro rfl
    exact hholds

section Endless

variable {value : Int32} (hvalue : value ≠ 0) (hc : (image.program.expr c).kind = .intLiteral value)
  (hloop : (image.program.stmt loop).kind = .whileLoop c round)
  (hround : (image.program.stmt round).kind = .block (body :: steps))
  (hsteps : List.Forall₂ (fun id e =>
    (image.program.stmt id).kind = .expr e) steps increment.toList)

include hc in
/-- From such twins a round ends alike. -/
theorem exists_forRound {focus : Focus} (hst : Near c focus s t)
    (h : Reaches (fun n => forRound (evaluator image n) body increment) s r) :
    ∃ r', Reaches (fun n => forRound (evaluator image n) body increment) t r' ∧
      Twins c False r r' := by
  obtain ⟨r', h', htwins⟩ := (reaches_forRound_turnedTo_iff.2 h).twins
    (fun n => (blindAll_evaluator hc n).forRound False body increment) hst
  exact ⟨r', reaches_forRound_turnedTo_iff.1 h', htwins⟩

include hvalue hc hloop hround hsteps in
/-- Without a condition, a `for` loop ends as the `while` loop does whose condition is a literal. -/
theorem exists_while {focus : Focus} (hst : Near c focus s t)
    (h : ForEnds image none increment body s r) :
    ∃ r', Executes image loop t r' ∧ Twins c False r r' := by
  simp only [executes_while_iff hloop]
  refine LoopEnds.simulates (R := Near c focus) (fun {s t r} hst hcondition => ?_)
    (fun {s t r} hst hround' => ?_) (fun hst => hst.turnedTo focus) hst.turnedTo_right h
  · -- only the `while` loop evaluates something here, and keeps the value of the literal from it
    obtain rfl := Reaches.pure_iff.1 hcondition
    exact ⟨s, valued t c value, rfl, (decides_literal_iff hvalue hc).2 rfl, hst.valued⟩
  · simp only [executes_round_iff hround hsteps]
    exact exists_forRound hc hst hround'

include hvalue hc hloop hround hsteps in
/-- The other way round: the `for` loop ends if the `while` loop does. -/
theorem exists_for {focus : Focus} (hst : Near c focus s t) (h : Executes image loop t r) :
    ∃ r', ForEnds image none increment body s r' ∧ Twins c False r r' := by
  rw [executes_while_iff hloop] at h
  refine LoopEnds.simulates (R := fun t s => Near c focus s t) (fun {t s r} hst hcondition => ?_)
    (fun {t s r} hst hround' => ?_) (fun hst => (hst.turnedTo focus).symm) hst.turnedTo_right h
  · obtain rfl := (decides_literal_iff hvalue hc).1 hcondition
    exact ⟨valued t c value, s, rfl, Reaches.pure_iff.2 rfl, hst.valued⟩
  · rw [executes_round_iff hround hsteps] at hround'
    exact exists_forRound hc hst.symm hround'

end Endless

/-! ## Both forms -/

/-- Outcomes of the two forms of a loop: the same up to what the frames keep for a literal that
stands for a missing condition, and the very same where there is a condition. -/
structure SameEnd (condition : Option ExprId) (c : ExprId)
    (r r' : EStateM.Result Halt (State κ) Flow) : Prop where
  twins : Twins c False r r'
  eq : condition.isSome → r' = r

omit [Console κ] in
theorem SameEnd.refl (r : EStateM.Result Halt (State κ) Flow) : SameEnd condition c r r :=
  ⟨.refl r, fun _ => rfl⟩

/-- Two computations that each end if the other does, and alike. -/
def EndAlike (condition : Option ExprId) (c : ExprId)
    (X X' : EStateM.Result Halt (State κ) Flow → Prop) : Prop :=
  (∀ r, X r → ∃ r', X' r' ∧ SameEnd condition c r r') ∧ ∀ r', X' r' → ∃ r, X r ∧
    SameEnd condition c r r'

/-- The rounds of a `for` loop and the `while` loop of its `while` form end alike. -/
theorem endAlike_while
    (h : image.program.WhileForm init condition increment body c loop round steps outer)
    {focus : Focus} (hst : turnedTo s focus = turnedTo t focus) :
    EndAlike condition c (ForEnds image condition increment body s) (Executes image loop t) := by
  -- the condition is the same in both, or a literal in one and missing in the other
  rcases h.condition with rfl | ⟨rfl, value, hvalue, hc⟩
  · have hiff (r : EStateM.Result Halt (State κ) Flow) :
        ForEnds image (some c) increment body s r ↔ Executes image loop t r :=
          forEnds_iff h.loop h.round h.steps hst
    exact ⟨fun r hr => ⟨r, (hiff r).1 hr, .refl r⟩, fun r hr => ⟨r, (hiff r).2 hr, .refl r⟩⟩
  · have hnear : Near c focus s t := by
      rw [Near, hst]
      exact .refl _
    constructor
    · intro r hr
      obtain ⟨r', hr', htwins⟩ := exists_while hvalue hc h.loop h.round h.steps hnear hr
      exact ⟨r', hr', htwins, nofun⟩
    · intro r' hr'
      obtain ⟨r, hr, htwins⟩ := exists_for hvalue hc h.loop h.round h.steps hnear hr'
      exact ⟨r, hr, htwins.symm, nofun⟩

omit [Console κ] in
/-- After a first part that returns nothing, what ends alike ends alike. -/
theorem EndAlike.after {X : EStateM.Result Halt (State κ) Flow → Prop}
    {Y Y' : State κ → EStateM.Result Halt (State κ) Flow → Prop}
    (hX : ∀ value t, ¬ X (.ok (.returned value) t))
    (h : ∀ t, EndAlike condition c (Y t) (Y' t)) :
    EndAlike condition c (SequenceEnds X fun _ => Y) (SequenceEnds X (Onward Y')) := by
  constructor
  · rintro r (hhalt | @⟨flow, t, _, hfirst, hrest⟩)
    · exact ⟨_, .halted hhalt, .refl _⟩
    · cases flow with
      | returned value => exact absurd hfirst (hX value t)
      | normal =>
        obtain ⟨r', hr', hsame⟩ := (h t).1 r hrest
        exact ⟨r', .after hfirst hr', hsame⟩
  · rintro r' (hhalt | @⟨flow, t, _, hfirst, hrest⟩)
    · exact ⟨_, .halted hhalt, .refl _⟩
    · cases flow with
      | returned value => exact absurd hfirst (hX value t)
      | normal =>
        obtain ⟨r, hr, hsame⟩ := (h t).2 r' hrest
        exact ⟨r, .after hfirst hr, hsame⟩

end Run

/-! ## Loops that were read -/

namespace Run

variable {κ : Type} [Console κ] {image : Image} {s : State κ}

/-- A clause returns nothing. -/
theorem not_returned_of_isClause {i : StmtId}
    (hi : (image.program.stmt i).kind.IsClause) (value : Int32)
    (t : State κ) : ¬ Executes image i s (.ok (.returned value) t) := by
  have hnormal {x : Nat → Run κ Unit} {s : State κ} :
      ¬ Reaches (fun n => do x n; return Flow.normal) s (.ok (.returned value) t) := by
    rintro ⟨⟨n, hn⟩, -⟩
    obtain ⟨_, _, -, hn⟩ := exists_of_bind_eq_ok hn
    cases hn
  cases hk : (image.program.stmt i).kind with
  | declare decls =>
    rw [executes_of_kind (x := fun n => do decls.forM (evaluator image n).decl; return .normal)
      fun n => by rw [stmtStep, hk]]
    exact hnormal
  | expr e =>
    rw [executes_expr_iff hk]
    exact hnormal
  | block | ifElse | whileLoop | forLoop | ret | empty =>
    rw [hk] at hi
    exact hi.elim

end Run

namespace Program

/-- The first clause of every loop that was read declares variables or evaluates an expression. -/
theorem clausesProper_of_parse {source : String} {p : Program} (h : parse source = .ok p) :
    p.ClausesProper := by
  obtain ⟨stream, file, -, -, -, s, hbuild, rfl⟩ := Written.exists_file_of_parse h
  refine (file.keepsClauses_build (.start stream)).of_ok hbuild fun id i hi => ?_
  simp [ParserState.start, ParserState.built, stmt, empty, Array.getD, default,
    StmtKind.clause?] at hi

/-! ### Adding the `while` form -/

theorem Grows.stmt_kind {p q : Program} {storage : Storage} (h : p.Grows storage q)
    {id : StmtId} {kind : StmtKind}
    (hid : (p.stmt id).kind = kind) (hk : kind ≠ .empty) : (q.stmt id).kind = kind := by
  rw [h.stmt_eq, hid]
  intro hdefault
  rw [hdefault] at hid
  exact hk hid.symm

theorem exists_stmt (p : Program) {kind : StmtKind} (hk : kind.clause? = none) :
    ∃ q id, p.Grows .local q ∧ (q.stmt id).kind = kind :=
  ⟨(p.pushStmt ⟨kind, .nowhere⟩).1, (p.pushStmt ⟨kind, .nowhere⟩).2, .stmt _ .refl (by simp [hk]),
    by rw [stmt_pushStmt_self]⟩

theorem exists_condition (p : Program) (condition : Option ExprId) :
    ∃ q c, p.Grows .local q ∧
      (condition = some c ∨ condition = none ∧ ∃ value, value ≠ 0 ∧
        (q.expr c).kind = .intLiteral value) := by
  cases condition with
  | some c => exact ⟨p, c, .refl, .inl rfl⟩
  | none =>
    refine ⟨(p.pushExpr ⟨.intLiteral 1, .int, .nowhere⟩).1,
      (p.pushExpr ⟨.intLiteral 1, .int, .nowhere⟩).2, .expr _ .refl, .inr ⟨rfl, 1, by decide, ?_⟩⟩
    rw [expr_pushExpr_self]

theorem exists_steps (p : Program) (increment : Option ExprId) :
    ∃ q steps, p.Grows .local q ∧
      List.Forall₂ (fun id e => (q.stmt id).kind = .expr e) steps increment.toList := by
  cases increment with
  | none => exact ⟨p, [], .refl, .nil⟩
  | some e =>
    obtain ⟨q, id, hq, hid⟩ := p.exists_stmt (rfl : (StmtKind.expr e).clause? = none)
    exact ⟨q, [id], hq, .cons hid .nil⟩

/-- The `while` form of a loop can be added to any program. -/
theorem exists_whileForm (p : Program) (init : Option StmtId)
    (condition increment : Option ExprId) (body : StmtId) :
    ∃ q c loop round steps outer, p.Grows .local q ∧
      q.WhileForm init condition increment body c loop round steps outer := by
  obtain ⟨q₁, c, hq₁, hc⟩ := p.exists_condition condition
  obtain ⟨q₂, steps, hq₂, hsteps⟩ := q₁.exists_steps increment
  obtain ⟨q₃, round, hq₃, hround⟩ :=
    q₂.exists_stmt (rfl : (StmtKind.block (body :: steps)).clause? = none)
  obtain ⟨q₄, loop, hq₄, hloop⟩ :=
    q₃.exists_stmt (rfl : (StmtKind.whileLoop c round).clause? = none)
  obtain ⟨q₅, outer, hq₅, houter⟩ :=
    q₄.exists_stmt (rfl : (StmtKind.block (init.toList ++ [loop])).clause? = none)
  -- what was added first is still there when the rest was
  have h₂₅ : q₂.Grows .local q₅ := (hq₃.trans hq₄).trans hq₅
  have hsteps' : List.Forall₂ (fun id e => (q₅.stmt id).kind = .expr e) steps increment.toList :=
    hsteps.imp fun _ e hid => h₂₅.stmt_kind hid (nofun : StmtKind.expr e ≠ .empty)
  refine ⟨q₅, c, loop, round, steps, outer, (hq₁.trans hq₂).trans h₂₅, houter,
    hq₅.stmt_kind hloop nofun, (hq₄.trans hq₅).stmt_kind hround nofun, hsteps', ?_⟩
  refine hc.imp_right fun ⟨hnone, value, hvalue, hkind⟩ => ⟨hnone, value, hvalue, ?_⟩
  rw [(hq₂.trans h₂₅).expr_eq, hkind]
  intro hdefault
  rw [hdefault] at hkind
  exact hvalue (ExprKind.intLiteral.inj hkind).symm

open Run

/-- In any program, a loop whose first clause does not return ends like its `while` form. -/
theorem endAlike_whileForm {κ : Type} [Console κ] {image : Image} {loop loop' round outer : StmtId}
    {steps : List StmtId} {init : Option StmtId} {condition increment : Option ExprId}
    {body : StmtId} {c : ExprId}
    (hk : (image.program.stmt loop).kind = .forLoop init condition increment body)
    (hform : image.program.WhileForm init condition increment body c loop' round steps outer)
    {s : State κ}
    (hinit : ∀ i ∈ init, ∀ value t, ¬ Executes image i s (.ok (.returned value) t)) :
    EndAlike condition c (Executes image loop s) (Executes image outer s) := by
  have hfor (r : EStateM.Result Halt (State κ) Flow) := executes_for_iff (s := s) (r := r) hk
  have houter (r : EStateM.Result Halt (State κ) Flow) :=
    executes_block_iff (s := s) (r := r) hform.outer
  cases init with
  | none =>
    -- without a first clause, the block only executes the loop
    have hwhile :
      EndAlike condition c (ForEnds image condition increment body (turnedTo s (.stmt loop)))
        (Executes image loop' s) :=
          endAlike_while hform (turnedTo_turnedTo s (.stmt loop) (.stmt loop))
    simp only [Option.toList_none, List.nil_append, executesAll_singleton_iff,
      executes_turnedTo_iff] at houter
    simpa only [EndAlike, hfor, houter] using hwhile
  | some i =>
    have hrounds (t : State κ) :
        EndAlike condition c (ForEnds image condition increment body t) (Executes image loop' t) :=
      endAlike_while hform (rfl : turnedTo t (.stmt loop) = turnedTo t (.stmt loop))
    -- a first clause that returned would be ignored by the one and end the other
    have hwhile : EndAlike condition c
        (SequenceEnds (Executes image i s) fun _ => ForEnds image condition increment body)
        (SequenceEnds (Executes image i s) (Onward (Executes image loop'))) :=
          .after (hinit i rfl) hrounds
    have hblock (r : EStateM.Result Halt (State κ) Flow) :
        Executes image outer s r ↔
          SequenceEnds (Executes image i s) (Onward (Executes image loop')) r := by
      rw [houter]
      simp only [Option.toList_some, List.cons_append, List.nil_append, executesAll_cons_iff]
      refine SequenceEnds.congr (fun _ => executes_turnedTo_iff) fun flow t r => ?_
      cases flow with
      | normal => exact executesAll_singleton_iff
      | returned value => exact .rfl
    simpa only [EndAlike, hfor, hblock] using hwhile

/-- A `for` loop whose first clause does not return is its `while` form. In any program that has
both, executing the one from any state ends if executing the other does, and both end alike:
normally, with the same value to return, or with the same error, and with the same output,
diagnostics, memory and values. If the loop has a condition, the outcomes are equal; if it has none,
so that the `while` loop has a literal for it, they differ at most in what frames keep for this
literal. The first clause never returns in a program that was read, to which the `while` form of
each of its loops can be added. -/
theorem for_loop_is_its_while_form :
    (∀ {κ : Type} [Console κ] (image : Image) (loop loop' round outer : StmtId)
      (steps : List StmtId)
        (init : Option StmtId) (condition increment : Option ExprId) (body : StmtId) (c : ExprId),
      (image.program.stmt loop).kind = .forLoop init condition increment body →
        image.program.WhileForm init condition increment body c loop' round steps outer →
          ∀ s : State κ, (∀ i ∈ init, ∀ value t, ¬ Executes image i s (.ok (.returned value) t)) →
            EndAlike condition c (Executes image loop s) (Executes image outer s)) ∧
      ∀ source p, parse source = .ok p → ∀ loop init condition increment body,
        (p.stmt loop).kind = .forLoop init condition increment body →
          ∃ q c loop' round steps outer, p.Grows .local q ∧
            (q.stmt loop).kind = .forLoop init condition increment body ∧
            q.WhileForm init condition increment body c loop' round steps outer ∧
            ∀ {κ : Type} [Console κ] (config : Config) (s : State κ),
              EndAlike condition c (Executes (Image.load q config) loop s)
                (Executes (Image.load q config) outer s) := by
  refine ⟨fun image loop loop' round outer steps init condition increment body c hk hform s =>
    ?_, ?_⟩
  · exact endAlike_whileForm hk hform
  · intro source p hp loop init condition increment body hk
    obtain ⟨q, c, loop', round, steps, outer, hq, hform⟩ :=
      p.exists_whileForm init condition increment body
    have hkq : (q.stmt loop).kind = .forLoop init condition increment body := hq.stmt_kind hk nofun
    refine ⟨q, c, loop', round, steps, outer, hq, hkq, hform, fun config s => ?_⟩
    have hclauses : p.ClausesProper := clausesProper_of_parse hp
    refine endAlike_whileForm hkq hform fun i hi => not_returned_of_isClause (hq.isClause ?_)
    exact hclauses loop i (by rw [hk]; exact hi)

/-- The loop `for (5; ; 7) return 3;` and its `while` form. -/
def returningLoops : Program where
  exprs := #[⟨.intLiteral 5, .int, ⟨1, 5⟩⟩, ⟨.intLiteral 1, .int, .nowhere⟩,
    ⟨.intLiteral 3, .int, ⟨1, 19⟩⟩, ⟨.intLiteral 7, .int, ⟨1, 9⟩⟩]
  stmts := #[⟨.expr ⟨0⟩, ⟨1, 5⟩⟩, ⟨.ret (some ⟨2⟩), ⟨1, 12⟩⟩,
    ⟨.forLoop (some ⟨0⟩) none (some ⟨3⟩) ⟨1⟩, ⟨1, 0⟩⟩, ⟨.expr ⟨3⟩, .nowhere⟩,
    ⟨.block [⟨1⟩, ⟨3⟩], .nowhere⟩, ⟨.whileLoop ⟨1⟩ ⟨4⟩, .nowhere⟩,
    ⟨.block [⟨0⟩, ⟨5⟩], .nowhere⟩]
  decls := #[]
  items := #[]

/-- The first clause is evaluated, the body returns, and the last clause is never reached: the
`while` form returns the value that the loop returns. -/
theorem for_loop_is_its_while_form_returning :
    ∃ t, Executes (Image.load returningLoops {}) ⟨6⟩
      (.initial (Image.load returningLoops {}) (Scripted.ofInput [])) (.ok (.returned 3) t) := by
  have hform : returningLoops.WhileForm (some ⟨0⟩) none (some ⟨3⟩) ⟨1⟩ ⟨1⟩ ⟨5⟩ ⟨4⟩ [⟨3⟩] ⟨6⟩ :=
    ⟨rfl, rfl, rfl, .cons rfl .nil, .inr ⟨rfl, 1, by decide, rfl⟩⟩
  have hinit (i : StmtId) (hi : i ∈ some (StmtId.mk 0)) (value : Int32) (t : State Scripted) :
      ¬ Executes (Image.load returningLoops {}) i
        (.initial (Image.load returningLoops {}) (Scripted.ofInput []))
        (.ok (.returned value) t) := by
    obtain rfl := Option.mem_some.1 hi
    have hclause : ((Image.load returningLoops {}).program.stmt ⟨0⟩).kind.IsClause := trivial
    exact not_returned_of_isClause hclause value t
  obtain ⟨t, ht⟩ : ∃ t, Executes (Image.load returningLoops {}) ⟨2⟩
      (.initial (Image.load returningLoops {}) (Scripted.ofInput [])) (.ok (.returned 3) t) :=
    ⟨_, ⟨⟨4, rfl⟩, nofun⟩⟩
  obtain ⟨r, hr, hsame⟩ :=
    (for_loop_is_its_while_form.1 (Image.load returningLoops {}) ⟨2⟩ ⟨5⟩ ⟨4⟩ ⟨6⟩ [⟨3⟩] (some ⟨0⟩)
    none (some ⟨3⟩) ⟨1⟩ ⟨1⟩ rfl hform
      (.initial (Image.load returningLoops {}) (Scripted.ofInput [])) hinit).1 _ ht
  cases hsame.twins with
  | ok h => exact ⟨_, hr⟩

/-- `int main() { for (return 3; ; ) return 4; }`, which the grammar does not allow. The body of
`main` is the loop itself or the `while` form of it. -/
def returningClause (body : StmtId) : Program where
  exprs := #[⟨.intLiteral 3, .int, ⟨1, 26⟩⟩, ⟨.intLiteral 1, .int, .nowhere⟩,
    ⟨.intLiteral 4, .int, ⟨1, 42⟩⟩]
  stmts := #[⟨.ret (some ⟨0⟩), ⟨1, 19⟩⟩, ⟨.ret (some ⟨2⟩), ⟨1, 35⟩⟩,
    ⟨.forLoop (some ⟨0⟩) none none ⟨1⟩, ⟨1, 14⟩⟩, ⟨.block [⟨1⟩], .nowhere⟩,
    ⟨.whileLoop ⟨1⟩ ⟨3⟩, .nowhere⟩, ⟨.block [⟨0⟩, ⟨4⟩], .nowhere⟩]
  decls := #[⟨"main", .function .int [] (some body), ⟨1, 5⟩⟩]
  items := #[.function ⟨0⟩]

/-- A loop goes on after a first clause that returns, which its `while` form does not. So a loop
with such a clause, which no program that was read has, is not its `while` form. -/
theorem for_loop_goes_on_after_returning_clause :
    let image := Image.load (returningClause ⟨2⟩) {}
    let s : State Scripted := .initial image (Scripted.ofInput [])
    (image.program.stmt ⟨2⟩).kind = .forLoop (some ⟨0⟩) none none ⟨1⟩ ∧
      image.program.WhileForm (some ⟨0⟩) none none ⟨1⟩ ⟨1⟩ ⟨4⟩ ⟨3⟩ [] ⟨5⟩ ∧
      ¬ EndAlike none ⟨1⟩ (Executes image ⟨2⟩ s) (Executes image ⟨5⟩ s) ∧
      result? (run image 10 s) = some 4 ∧
      result? (run (Image.load (returningClause ⟨5⟩) {}) 10 s) = some 3 := by
  intro image s
  refine ⟨rfl, ⟨rfl, rfl, rfl, .nil, .inr ⟨rfl, 1, by decide, rfl⟩⟩, ?_, by decide +kernel,
    by decide +kernel⟩
  rintro ⟨hends, -⟩
  obtain ⟨t, hfor⟩ : ∃ t, Executes image ⟨2⟩ s (.ok (.returned 4) t) := ⟨_, ⟨⟨4, rfl⟩, nofun⟩⟩
  obtain ⟨u, hblock⟩ : ∃ u, Executes image ⟨5⟩ s (.ok (.returned 3) u) := ⟨_, ⟨⟨4, rfl⟩, nofun⟩⟩
  obtain ⟨r, hr, hsame⟩ := hends _ hfor
  obtain rfl := hr.unique hblock (steady_stmt image ⟨5⟩)
  cases hsame.twins

end Program

end MiniC
