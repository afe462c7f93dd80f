import MiniC.Proofs.DirectSimulation
import MiniC.Proofs.FrameEffect
import MiniC.Proofs.ParsedProgram

/-!
# The tables of values are transparent

A frame keeps the value that an expression had when it was last evaluated, and nothing ever removes
it. Still no operand is read that was not evaluated just before: a run does what the direct
evaluator does, which has no tables (`Run.run_eq_direct`). Between the evaluation of an operand and
its use only expressions inside other operands get values, and the expressions of a program that was
read form trees.
-/

set_option autoImplicit false

namespace MiniC

/-! ## Targets -/

namespace Program

variable {p : Program} {e c : ExprId}

/-- What nothing refers to is no target. -/
theorem IsRoot.not_isTarget (h : p.IsRoot e) : ¬ p.IsTarget e := by
  rintro ⟨f, op, rhs, -, hk⟩
  exact h.free f (mem_operands hk List.mem_cons_self)

/-- An operand is a target only where it is that of an assignment. -/
theorem Tree.not_isTarget (hp : p.Tree) (hc : c ∈ p.operands e)
    (h : ∀ op rhs, op.isAssignment = true → (p.expr e).kind ≠ .binary op c rhs) :
    ¬ p.IsTarget c := by
  rintro ⟨f, op, rhs, hop, hk⟩
  have hf : c ∈ p.operands f := mem_operands hk List.mem_cons_self
  exact h op rhs hop (hp.unique hf hc ▸ hk)

end Program

namespace Run

variable {κ : Type} [Console κ] {image : Image}

/-! ## Levels of nesting -/

/-- The direct evaluator does what the evaluator does, which stays within its nodes. -/
structure Faithful (image : Image) (ev : Evaluator κ) (dev : Direct.Evaluator κ) : Prop where
  frames : FrameLocal image ev
  expr : ∀ {e} {s : State κ}, ¬ image.program.IsTarget e → s.stack.Quiet image →
    Simulates (ev.expr e) (dev.expr e) s (Gives image e)
  target : ∀ e {s : State κ}, s.stack.Quiet image →
    Simulates (ev.target e) (dev.target e) s fun _ place t =>
      t.stack.Quiet image ∧ Located image (image.program.stripParens e) t place
  decl : ∀ d {s : State κ}, s.stack.Quiet image →
    Simulates (ev.decl d) (dev.decl d) s fun _ _ t => t.stack.Quiet image
  stmt : ∀ id {s : State κ}, s.stack.Quiet image →
    Simulates (ev.stmt id) (dev.stmt id) s (Alike fun t => t.stack.Quiet image)

variable {ev : Evaluator κ} {dev : Direct.Evaluator κ} (hp : image.program.Tree)
  (hev : Faithful image ev dev)
include hp hev

omit [Console κ] in
/-- Evaluating an operand binds it, and no other operand of the same expression. -/
theorem Faithful.operand {e c : ExprId} (hc : c ∈ image.program.operands e)
    (hnot : ∀ op rhs, op.isAssignment = true → (image.program.expr e).kind ≠ .binary op c rhs)
    {s : State κ} (hs : s.stack.Quiet image) :
    Simulates (ev.expr c) (dev.expr c) s fun _ v t =>
      t.stack.Quiet image ∧ t.stack.top.expr? c = v ∧
        ∀ d ∈ image.program.operands e, d ≠ c → t.stack.top.expr? d = s.stack.top.expr? d := by
  have hsim := (hev.expr (hp.not_isTarget hc hnot) hs).ensuring (hev.frames.expr c s)
  refine hsim.mono fun _ v t h => ⟨h.1.1, h.1.2, fun d hd hne => h.2.exprs d ?_⟩
  exact hp.not_contains_sibling hc hd (Ne.symm hne)

omit [Console κ] in
/-- Evaluating arguments binds all of them, and no other operand. -/
theorem Faithful.arguments {e : ExprId}
    (hcall : ∀ c op rhs, (image.program.expr e).kind ≠ .binary op c rhs) (args : List ExprId)
    (hnodup : args.Nodup) (hargs : ∀ a ∈ args, a ∈ image.program.operands e) {s : State κ}
    (hs : s.stack.Quiet image) :
    Simulates (args.forM ev.expr) (args.mapM dev.expr) s fun _ values t =>
      t.stack.Quiet image ∧ args.map t.stack.top.expr? = values ∧
        ∀ d ∈ image.program.operands e, d ∉ args → t.stack.top.expr? d = s.stack.top.expr? d := by
  induction args generalizing s with
  | nil => exact simulates_pure ⟨hs, rfl, fun _ _ _ => rfl⟩
  | cons a args ih =>
    obtain ⟨hfresh, hnodup⟩ := List.nodup_cons.1 hnodup
    have ha : a ∈ image.program.operands e := hargs a (by simp)
    rw [List.mapM_cons]
    refine simulates_bind (hev.operand hp ha (fun op rhs _ => hcall a op rhs) hs) fun _ v t ht => ?_
    obtain ⟨htq, hv, hkept⟩ := ht
    refine (ih hnodup (fun c hc => hargs c (by simp [hc])) htq).map fun _ values u hu => ?_
    obtain ⟨huq, hvalues, hkept'⟩ := hu
    refine ⟨huq, ?_, fun d hd hnot => ?_⟩
    · rw [List.map_cons, hvalues, hkept' a ha hfresh, hv]
    · rw [List.mem_cons, not_or] at hnot
      exact (hkept' d hd hnot.2).trans (hkept d hd hnot.1)

omit hp in
/-- A call is begun and carried out when its arguments have values. -/
theorem Faithful.callWith {e : ExprId} {callee : DeclId} {args : List ExprId}
    {values : List (Option Int32)} (hk : (image.program.expr e).kind = .call callee args)
    (he : ¬ image.program.IsTarget e) {s : State κ} (hs : s.stack.Quiet image)
    (hvalues : args.map s.stack.top.expr? = values) :
    Simulates (do
        match ← enterCall image e callee args with
        | none => return ()
        | some body =>
          let flow ← onOwnStack (ev.stmt body)
          leaveCall e flow.value)
      (Direct.callWith image dev callee args values) s (Gives image e) := by
  unfold enterCall Direct.callWith
  cases hb : image.builtin? callee with
  | some b =>
    have hbuiltin := simulates_callBuiltin hs hk hb hvalues he
    rw [← bind_pure (callBuiltin image e b args)] at hbuiltin
    simpa only [bind_assoc, pure_bind] using hbuiltin
  | none =>
    -- a call of a function that is no built-in one has a value
    have hbindable : image.Bindable e := fun hnone => by simp [Image.Valueless, hk, hb] at hnone
    have hundefined : ∀ (cause : RuntimeFault) (k : Option StmtId → Run κ Unit),
        Simulates (faultHere image cause >>= k) (Direct.fault cause) s (Gives image e) :=
      fun _ _ => simulates_faultHere
    dsimp only
    cases (image.program.decl callee).kind with
    | «variable» _ _ _ => exact hundefined _ _
    | function _ params body =>
      cases body with
      | none => exact hundefined _ _
      | some body =>
        dsimp only
        rw [bind_assoc]
        refine simulates_bind (simulates_enterBody callee params body hs hvalues) fun _ _ t ht => ?_
        rw [pure_bind]
        dsimp only
        rw [onOwnStack_eq]
        refine simulates_bind (hev.stmt body ht) fun flow _ u hu => ?_
        obtain ⟨rfl, hu⟩ := hu
        exact simulates_leaveCall hu hbindable flow.value

theorem Faithful.call {e : ExprId} {callee : DeclId} {args : List ExprId}
    (hk : (image.program.expr e).kind = .call callee args) (he : ¬ image.program.IsTarget e)
    {s : State κ} (hs : s.stack.Quiet image) :
    Simulates (call image ev e callee args) (Direct.call image dev callee args) s
      (Gives image e) := by
  have hops : image.program.operands e = args := by simp [Program.operands, hk, ExprKind.operands]
  have hargs := hev.arguments hp (e := e) (fun c op rhs => by simp [hk]) args (hops ▸ hp.nodup e)
    (fun a ha => hops ▸ ha) hs
  refine simulates_bind hargs fun _ values t ht => simulates_focusOn ?_
  obtain ⟨htq, hvalues, -⟩ := ht
  refine hev.callWith hk he (htq.modifyTop htq.top) ?_
  rw [CallStack.top_modifyTop]
  exact hvalues

omit hp in
/-- An assignment evaluates its right side before the parts of its target. -/
theorem Faithful.assignment {e lhs rhs : ExprId} {op : BinaryOp} (hp : image.program.Tree)
    (hk : (image.program.expr e).kind = .binary op lhs rhs) (hop : op.isAssignment = true)
    {s : State κ} (hs : s.stack.Quiet image) :
    Simulates (do
        ev.expr rhs
        ev.target lhs
        focusOn (.expr e)
        binary image e op lhs rhs)
      (do
        let r ← dev.expr rhs
        let target ← dev.target lhs
        return some (← Direct.assign image e op lhs rhs r target))
      s (Gives image e) := by
  have hl : lhs ∈ image.program.operands e := Program.mem_operands hk List.mem_cons_self
  have hr : rhs ∈ image.program.operands e :=
    Program.mem_operands hk (List.mem_cons_of_mem _ List.mem_cons_self)
  have hne : lhs ≠ rhs := by
    have hnodup := hp.nodup e
    simpa [Program.operands, hk, ExprKind.operands] using hnodup
  have hnot : ¬ image.program.IsTarget rhs := hp.not_isTarget hr fun op' rhs' _ h => by
    rw [hk] at h
    cases h
    exact hne rfl
  have hb : image.Bindable e := fun h => by simp [Image.Valueless, hk] at h
  have hlhs : image.Bindable lhs := fun _ => ⟨e, op, rhs, hop, hk⟩
  refine simulates_bind (hev.expr hnot hs) fun _ r t ht => ?_
  -- the two sides share no node, so locating the target leaves the value on the right alone
  have htarget := (hev.target lhs ht.1).ensuring (hev.frames.target lhs t)
  refine simulates_bind htarget fun _ place u hu => simulates_focusOn ?_
  obtain ⟨⟨huq, hplace⟩, heffect⟩ := hu
  have hrhs : u.stack.top.expr? rhs = r :=
    (heffect.exprs rhs (hp.not_contains_sibling hl hr hne)).trans ht.2
  refine (simulates_assign (huq.focusOn _) hb hlhs hop ?_ (hplace.of_expr?_eq fun c _ => ?_)
    fun c hc => ?_).some
  · exact (u.stack.expr?_focusOn _ _).trans hrhs
  · exact u.stack.expr?_focusOn _ _
  · have hc' : c.index < (image.program.stripParens lhs).index := hp.lt hc
    have hstrip : (image.program.stripParens lhs).index ≤ lhs.index :=
      hp.stripParensWithin_index_le _
    have hle : lhs.index < e.index := hp.lt hl
    constructor <;> rintro rfl <;> omega

/-- Operands of other binary operations are evaluated from left to right. -/
theorem Faithful.binary {e lhs rhs : ExprId} {op : BinaryOp}
    (hk : (image.program.expr e).kind = .binary op lhs rhs) (hop : op.isAssignment = false)
    {s : State κ} (hs : s.stack.Quiet image) :
    Simulates (do
        ev.expr lhs
        ev.expr rhs
        focusOn (.expr e)
        Run.binary image e op lhs rhs)
      (do
        let l ← dev.expr lhs
        let r ← dev.expr rhs
        return some (← Direct.binary image e op lhs rhs l r))
      s (Gives image e) := by
  have hl : lhs ∈ image.program.operands e := Program.mem_operands hk List.mem_cons_self
  have hr : rhs ∈ image.program.operands e :=
    Program.mem_operands hk (List.mem_cons_of_mem _ List.mem_cons_self)
  -- the operands are different nodes, so the value of the left one survives the right one
  have hne : lhs ≠ rhs := by
    have hnodup := hp.nodup e
    simpa [Program.operands, hk, ExprKind.operands] using hnodup
  have hnot : ∀ c op' rhs', op'.isAssignment = true →
      (image.program.expr e).kind ≠ .binary op' c rhs' := fun c op' rhs' h hk' => by
    rw [hk] at hk'
    cases hk'
    rw [hop] at h
    cases h
  have hb : image.Bindable e := fun h => by simp [Image.Valueless, hk] at h
  refine simulates_bind (hev.operand hp hl (hnot lhs) hs) fun _ l t ht => ?_
  refine simulates_bind (hev.operand hp hr (hnot rhs) ht.1) fun _ r u hu => simulates_focusOn ?_
  have hlhs : u.stack.top.expr? lhs = l := (hu.2.2 lhs hl hne).trans ht.2.1
  exact (simulates_binary (hu.1.focusOn _) hb hop ((u.stack.expr?_focusOn _ _).trans hlhs)
    ((u.stack.expr?_focusOn _ _).trans hu.2.1)).some

omit [Console κ] in
/-- The base of an element is evaluated before the index; both are bound in what follows. -/
theorem Faithful.subscriptParts {α β : Type} {e base index : ExprId}
    (hk : (image.program.expr e).kind = .subscript base index) {s : State κ}
    (hs : s.stack.Quiet image)
    {f : Unit → Run κ α} {g : Option Int32 → Option Int32 → Direct.Exec κ β}
    {Q : α → β → State κ → Prop}
    (hf : ∀ t : State κ, t.stack.Quiet image →
      Simulates (f ()) (g (t.stack.top.expr? base) (t.stack.top.expr? index)) t Q) :
    Simulates (ev.expr base >>= fun _ => ev.expr index >>= f)
      (dev.expr base >>= fun b => dev.expr index >>= fun i => g b i) s Q := by
  have hbase : base ∈ image.program.operands e := Program.mem_operands hk List.mem_cons_self
  have hindex : index ∈ image.program.operands e :=
    Program.mem_operands hk (List.mem_cons_of_mem _ List.mem_cons_self)
  have hne : base ≠ index := by
    have hnodup := hp.nodup e
    simpa [Program.operands, hk, ExprKind.operands] using hnodup
  refine simulates_bind (hev.operand hp hbase (by simp [hk]) hs) fun _ b t ht => ?_
  refine simulates_bind (hev.operand hp hindex (by simp [hk]) ht.1) fun _ i u hu => ?_
  obtain rfl : u.stack.top.expr? base = b := (hu.2.2 base hbase hne).trans ht.2.1
  obtain rfl : u.stack.top.expr? index = i := hu.2.1
  exact hf u hu.1

theorem Faithful.exprStep {e : ExprId} (he : ¬ image.program.IsTarget e) {s : State κ}
    (hs : s.stack.Quiet image) :
    Simulates (exprStep image ev e) (Direct.exprStep image dev e) s (Gives image e) := by
  refine simulates_focusOn ?_
  replace hs : (s.stack.modifyTop (·.focusOn (.expr e))).Quiet image := hs.focusOn _
  generalize hu : ({ s with stack := s.stack.modifyTop (·.focusOn (.expr e)) } : State κ) = u
  replace hs : u.stack.Quiet image := hu ▸ hs
  have hoperand : ∀ c, c ∈ image.program.operands e →
      (∀ op rhs, (image.program.expr e).kind ≠ .binary op c rhs) →
      Simulates (ev.expr c) (dev.expr c) u (Gives image c) := fun c hc hk =>
    hev.expr (hp.not_isTarget hc fun op rhs _ => hk op rhs) hs
  have hbindable : (¬ image.Valueless e) → image.Bindable e := fun h h' => absurd h' h
  unfold Direct.exprStep
  cases hk : (image.program.expr e).kind with
  | intLiteral value =>
    exact simulates_bindExpr_some hs (hbindable (by simp [Image.Valueless, hk])) value
  | declRef d => exact (simulates_reference hs (hbindable (by simp [Image.Valueless, hk])) d).some
  | sizeOf type => exact (simulates_sizeOf hs (hbindable (by simp [Image.Valueless, hk])) type).some
  | call callee args => exact hev.call hp hk he hs
  | paren inner =>
    have hinner : inner ∈ image.program.operands e := Program.mem_operands hk List.mem_cons_self
    refine simulates_bind (hoperand inner hinner (by simp [hk])) fun _ v t ht => ?_
    exact ((simulates_valueOf ht.2).bindExpr ht.1 (hbindable (by simp [Image.Valueless, hk]))).some
  | cast operand =>
    have hmem : operand ∈ image.program.operands e := Program.mem_operands hk List.mem_cons_self
    refine simulates_bind (hoperand operand hmem (by simp [hk])) fun _ v t ht => ?_
    unfold cast
    -- a conversion to `void` has no value, and none was left there by anything else
    by_cases hvoid : (image.typeOf e).isVoid = true
    · rw [if_pos hvoid, if_pos hvoid]
      have hvalueless : image.Valueless e := by simpa only [Image.Valueless, hk] using hvoid
      exact simulates_pure ⟨ht.1, ht.1.expr?_eq_none fun h => he (h hvalueless)⟩
    · rw [if_neg hvoid, if_neg hvoid]
      have hb := hbindable (by simpa only [Image.Valueless, hk] using hvoid)
      exact ((simulates_valueOf ht.2).bindExpr ht.1 hb).some
  | unary op operand =>
    have hmem : operand ∈ image.program.operands e := Program.mem_operands hk List.mem_cons_self
    refine simulates_bind (hoperand operand hmem (by simp [hk])) fun _ v t ht =>
      simulates_focusOn ?_
    exact (simulates_unary (ht.1.focusOn _) (hbindable (by simp [Image.Valueless, hk])) op
      ((t.stack.expr?_focusOn _ _).trans ht.2)).some
  | subscript base index =>
    refine hev.subscriptParts hp hk hs fun t ht => simulates_focusOn ?_
    let focused : State κ := { t with stack := t.stack.modifyTop (·.focusOn (.expr e)) }
    have h := (simulates_subscript (s := focused) (ht.focusOn (.expr e))
      (hbindable (by simp [Image.Valueless, hk])) (t.stack.expr?_focusOn (.expr e) base)
      (t.stack.expr?_focusOn (.expr e) index)).some
    simpa only [bind_assoc] using h
  | binary op lhs rhs =>
    cases hop : op.isAssignment with
    | true =>
      dsimp only
      rw [if_pos hop, if_pos hop]
      exact hev.assignment hp hk hop hs
    | false =>
      dsimp only
      rw [if_neg (by simp [hop]), if_neg (by simp [hop])]
      exact hev.binary hp hk hop hs

omit [Console κ] in
theorem Faithful.targetStep (target : ExprId) {s : State κ} (hs : s.stack.Quiet image) :
    Simulates (targetStep image ev target) (Direct.targetStep image dev target) s fun _ place t =>
      t.stack.Quiet image ∧ Located image (image.program.stripParens target) t place := by
  have hself : (∀ inner, (image.program.expr target).kind ≠ .paren inner) →
      image.program.stripParens target = target := Program.stripParens_eq_self
  unfold Run.targetStep Direct.targetStep
  cases hk : (image.program.expr target).kind with
  | paren inner =>
    -- both locate what is inside the parentheses
    rw [hp.stripParens_paren hk]
    exact hev.target inner hs
  | declRef d =>
    rw [hself (by simp [hk])]
    exact simulates_pure ⟨hs, hk⟩
  | subscript base index =>
    rw [hself (by simp [hk])]
    have h := hev.subscriptParts hp hk hs (f := pure) 
      (g := fun b i => pure (Direct.Target.element base index b i))
      (Q := fun _ place t => t.stack.Quiet image ∧ Located image target t place) fun t ht =>
        simulates_pure ⟨ht, hk, rfl, rfl⟩
    simpa only [bind_pure] using h
  | unary op operand =>
    rw [hself (by simp [hk])]
    have hmem : operand ∈ image.program.operands target :=
      Program.mem_operands hk List.mem_cons_self
    cases op with
    | deref =>
      refine Simulates.map (hev.expr (hp.not_isTarget hmem (by simp [hk])) hs) fun _ v t ht => ?_
      exact ⟨ht.1, hk, ht.2⟩
    | neg | plus | not | bitNot | preInc | preDec | postInc | postDec | addressOf =>
      exact simulates_pure ⟨hs, by simp [Located, hk]⟩
  | intLiteral _ | binary _ _ _ | call _ _ | cast _ | sizeOf _ =>
    rw [hself (by simp [hk])]
    exact simulates_pure ⟨hs, by simp [Located, hk]⟩

omit [Console κ] hp in
/-- A root that is evaluated is bound, so its value can be asked for. -/
theorem Faithful.root {e : ExprId} (he : image.program.IsRoot e) {s : State κ}
    (hs : s.stack.Quiet image) : Simulates (ev.expr e) (dev.expr e) s (Gives image e) :=
  hev.expr he.not_isTarget hs

omit [Console κ] hp in
theorem Faithful.declStep (hinit : ∀ {d e}, (image.program.decl d).init? = some e →
    image.program.IsRoot e) (d : DeclId) {s : State κ} (hs : s.stack.Quiet image) :
    Simulates (declStep image ev d) (Direct.declStep image dev d) s fun _ _ t =>
      t.stack.Quiet image := by
  unfold Run.declStep Direct.declStep
  cases hk : (image.program.decl d).kind with
  | function _ _ _ => exact simulates_initialise hs d (by simp [Decl.init?, hk])
  | «variable» type init storage =>
    cases init with
    | none => exact simulates_initialise hs d (by simp [Decl.init?, hk])
    | some init =>
      have hd : (image.program.decl d).init? = some init := by simp [Decl.init?, hk]
      refine simulates_bind (hev.root (hinit hd) hs) fun _ v t ht => ?_
      refine simulates_initialise ht.1 d fun e he => ?_
      obtain rfl : init = e := Option.some.inj (hd.symm.trans he)
      exact ht.2

omit [Console κ] hp in
theorem Faithful.conditionHolds {c : ExprId} (hc : image.program.IsRoot c) {s : State κ}
    (hs : s.stack.Quiet image) :
    Simulates (conditionHolds image ev c) (Direct.conditionHolds dev c) s
      (Alike fun t => t.stack.Quiet image) := by
  refine simulates_bind (hev.root hc hs) fun _ v t ht => ?_
  refine simulates_bind (simulates_valueOf ht.2) fun value _ u hu => ?_
  obtain ⟨rfl, rfl⟩ := hu
  exact simulates_pure ⟨rfl, ht.1⟩

omit [Console κ] hp in
theorem Faithful.loopContinues {condition : Option ExprId}
    (hc : ∀ c ∈ condition, image.program.IsRoot c) {s : State κ} (hs : s.stack.Quiet image) :
    Simulates (loopContinues image ev condition) (Direct.loopContinues dev condition) s
      (Alike fun t => t.stack.Quiet image) := by
  cases condition with
  | none => exact simulates_pure ⟨rfl, hs⟩
  | some c => exact hev.conditionHolds (hc c rfl) hs

omit [Console κ] hp in
theorem Faithful.forRound (body : StmtId) {increment : Option ExprId}
    (hi : ∀ e ∈ increment, image.program.IsRoot e) {s : State κ} (hs : s.stack.Quiet image) :
    Simulates (forRound ev body increment) (Direct.forRound dev body increment) s
      (Alike fun t => t.stack.Quiet image) := by
  refine simulates_bind (hev.stmt body hs) fun flow _ t ht => ?_
  obtain ⟨rfl, ht⟩ := ht
  cases flow with
  | returned value => exact simulates_pure ⟨rfl, ht⟩
  | normal =>
    cases increment with
    | none => exact simulates_pure ⟨rfl, ht⟩
    | some e =>
      exact simulates_bind (hev.root (hi e rfl) ht) fun _ _ u hu => simulates_pure ⟨rfl, hu.1⟩

omit [Console κ] hp in
theorem Faithful.returnValue {value : Option ExprId} (hv : ∀ e ∈ value, image.program.IsRoot e)
    {s : State κ} (hs : s.stack.Quiet image) :
    Simulates (returnValue image ev value) (Direct.returnValue image dev value) s
      (Alike fun t => t.stack.Quiet image) := by
  cases value with
  | none => exact simulates_pure ⟨rfl, hs⟩
  | some e =>
    refine simulates_bind (hev.root (hv e rfl) hs) fun _ v t ht => simulates_get_bind ?_
    have hvalue : Simulates (valueOf image e) (Direct.valueOf e v) t
        (Alike fun t => t.stack.Quiet image) :=
      (simulates_valueOf ht.2).mono fun _ _ u hu => ⟨hu.1, hu.2 ▸ ht.1⟩
    rw [show t.forget.top.function = t.stack.top.function by rw [State.top_forget]; rfl]
    cases t.stack.top.function with
    | none => exact hvalue
    | some function =>
      dsimp only
      split
      · refine simulates_bind (simulates_checkConversion _ e) fun _ _ u hu => ?_
        obtain ⟨-, rfl⟩ := hu
        exact hvalue
      · exact hvalue

omit [Console κ] hp in
theorem Faithful.stmtStep (hstmts : ∀ {id e}, e ∈ (image.program.stmt id).kind.exprs →
      image.program.IsRoot e) (rounds : Nat) (id : StmtId) {s : State κ}
        (hs : s.stack.Quiet image) :
    Simulates (stmtStep image ev rounds id) (Direct.stmtStep image dev rounds id) s
      (Alike fun t => t.stack.Quiet image) := by
  refine simulates_focusOn ?_
  generalize hu : ({ s with stack := s.stack.modifyTop (·.focusOn (.stmt id)) } : State κ) = u
  replace hs : u.stack.Quiet image := hu ▸ hs.focusOn _
  have hroot : ∀ e ∈ (image.program.stmt id).kind.exprs, image.program.IsRoot e :=
    fun _ he => hstmts he
  unfold Direct.stmtStep
  cases hk : (image.program.stmt id).kind with
  | block body => exact simulates_untilReturn body (fun stmt t ht => hev.stmt stmt ht) hs
  | declare decls =>
    refine simulates_bind (simulates_forM decls (fun d _ t ht => hev.decl d ht) hs)
      fun _ _ t ht => ?_
    exact simulates_pure ⟨rfl, ht⟩
  | expr e =>
    refine simulates_bind (hev.root (hroot e (by simp [hk, StmtKind.exprs])) hs) fun _ _ t ht => ?_
    exact simulates_pure ⟨rfl, ht.1⟩
  | ifElse condition thenBranch elseBranch =>
    have hc : image.program.IsRoot condition := hroot condition (by simp [hk, StmtKind.exprs])
    refine simulates_bind (hev.conditionHolds hc hs) fun holds _ t ht => ?_
    obtain ⟨rfl, ht⟩ := ht
    cases holds with
    | true => exact hev.stmt thenBranch ht
    | false =>
      cases elseBranch with
      | none => exact simulates_pure ⟨rfl, ht⟩
      | some branch => exact hev.stmt branch ht
  | whileLoop condition body =>
    have hc : image.program.IsRoot condition := hroot condition (by simp [hk, StmtKind.exprs])
    exact simulates_whileHolds (fun t ht => hev.conditionHolds hc ht) (fun t ht => hev.stmt body ht)
      rounds hs
  | forLoop init condition increment body =>
    have hc : ∀ c ∈ condition, image.program.IsRoot c := fun c hc =>
      hroot c (by simpa [hk, StmtKind.exprs] using .inl hc)
    have hi : ∀ e ∈ increment, image.program.IsRoot e := fun e he =>
      hroot e (by simpa [hk, StmtKind.exprs] using .inr he)
    -- every round leaves the frames quiet, as the next one needs them
    have hloop : ∀ t : State κ, t.stack.Quiet image →
        Simulates (whileHolds (Run.loopContinues image ev condition)
          (Run.forRound ev body increment) rounds)
          (Direct.whileHolds (Direct.loopContinues dev condition)
            (Direct.forRound dev body increment)
            rounds) t (Alike fun t => t.stack.Quiet image) := fun t ht =>
      simulates_whileHolds (fun u hu => hev.loopContinues hc hu) (fun u hu =>
        hev.forRound body hi hu) rounds ht
    cases init with
    | none => exact hloop u hs
    | some init => exact simulates_bind (hev.stmt init hs) fun _ _ t ht => hloop t ht.2
  | ret value =>
    have hv : ∀ e ∈ value, image.program.IsRoot e := fun e he =>
      hroot e (by simpa [hk, StmtKind.exprs] using he)
    refine simulates_bind (hev.returnValue hv hs) fun value _ t ht => ?_
    obtain ⟨rfl, ht⟩ := ht
    exact simulates_pure ⟨rfl, ht⟩
  | empty => exact simulates_pure ⟨rfl, hs⟩

omit hp hev in
theorem faithful_evaluator (h : image.program.WellFormed) (fuel : Nat) :
    Faithful image (evaluator (κ := κ) image fuel) (Direct.evaluator image fuel) := by
  induction fuel with
  | zero =>
    exact ⟨frameLocal_evaluator image 0, fun _ _ => simulates_throw rfl,
      fun _ _ _ => simulates_throw rfl, fun _ _ _ => simulates_throw rfl, fun _ _ _ =>
        simulates_throw rfl⟩
  | succ fuel ih =>
    exact {
      frames := frameLocal_evaluator image (fuel + 1)
      expr := fun he hs => ih.exprStep h.tree he hs
      target := fun e _ hs => ih.targetStep h.tree e hs
      decl := fun d _ hs => ih.declStep h.inits d hs
      stmt := fun id _ hs => ih.stmtStep h.stmts fuel id hs }

/-! ## Runs -/

omit [Console κ] hp hev in
theorem simulates_enterMain {s : State κ} (hs : s.stack.Quiet image) :
    Simulates (enterMain image) (Direct.enterMain image) s (Alike fun t =>
      t.stack.Quiet image) := by
  unfold enterMain Direct.enterMain
  cases image.entry with
  | none => exact simulates_throw rfl
  | some entry =>
    dsimp only
    cases (image.program.decl entry).kind with
    | «variable» _ _ _ => exact simulates_fault
    | function _ params body =>
      cases body with
      | none => exact simulates_fault
      | some body =>
        refine simulates_bind (simulates_openFrame entry body _ hs) fun _ _ t ht => ?_
        exact simulates_pure ⟨rfl, ht⟩

omit hp hev in
theorem simulates_run (h : image.program.WellFormed) (fuel : Nat) {s : State κ}
    (hs : s.stack.Quiet image) :
    Simulates (run image fuel) (Direct.run image fuel) s (Alike fun t => t.stack.Quiet image) := by
  have hev : Faithful (κ := κ) image _ _ := faithful_evaluator h fuel
  refine simulates_bind (simulates_forM (I := fun t =>
    t.stack.Quiet image) _ (fun item _ t ht => ?_) hs) fun _ _ t ht => ?_
  · cases item with
    | «variable» d => exact hev.decl d ht
    | function _ => exact simulates_pure ht
  refine simulates_bind (simulates_enterMain ht) fun body _ u hu => ?_
  obtain ⟨rfl, hu⟩ := hu
  refine simulates_bind (hev.stmt body hu) fun flow _ v hv => ?_
  obtain ⟨rfl, hv⟩ := hv
  exact simulates_bind (simulates_closeCall hv) fun _ _ _ hw => simulates_pure ⟨rfl, hw⟩

omit [Console κ] hp hev in
/-- How a computation ended, without tables and places. -/
def forgetOutcome {α : Type} :
    EStateM.Result Halt (State κ) α → EStateM.Result Direct.Halt (Direct.State κ) α
  | .ok a t => .ok a t.forget
  | .error h t => .error h.forget t.forget

omit [Console κ] hp hev in
theorem Simulates.forgetOutcome_eq {α : Type} {x : Run κ α} {y : Direct.Exec κ α} {s : State κ}
    {I : State κ → Prop} (h : Simulates x y s (Alike I)) : forgetOutcome (x s) = y s.forget := by
  unfold Simulates at h
  split at h
  · next hx hy =>
    obtain ⟨rfl, rfl, -⟩ := h
    rw [hx, hy, forgetOutcome]
  · next hx hy =>
    obtain ⟨rfl, rfl⟩ := h
    rw [hx, hy, forgetOutcome]
  · exact h.elim

omit hp hev in
/-- A run from the beginning does what the direct evaluator does, whether it ends with a value or
halts. Nor does a statement depend on what is left in the tables when it is executed, as long as
expressions without values have none, which holds from the beginning on. -/
theorem run_eq_direct {source : String} {p : Program} (h : Program.parse source = .ok p)
    (config : Config) (fuel : Nat) :
    (∀ console : κ,
      forgetOutcome (run (Image.load p config) fuel (.initial (Image.load p config) console)) =
      Direct.run (Image.load p config) fuel (.initial (Image.load p config) console)) ∧
    ∀ s t : State κ, s.stack.Quiet (Image.load p config) → t.stack.Quiet (Image.load p config) →
      s.forget = t.forget → ∀ id,
        forgetOutcome ((evaluator (Image.load p config) fuel).stmt id s) =
          forgetOutcome ((evaluator (Image.load p config) fuel).stmt id t) := by
  have hw : p.WellFormed := (Program.resolved_of_parse h).wellFormed
  have hev : Faithful (κ := κ) (Image.load p config) (evaluator _ fuel) (Direct.evaluator _ fuel) :=
    faithful_evaluator hw fuel
  constructor
  · intro console
    have hquiet : (State.initial (Image.load p config) console).stack.Quiet (Image.load p config) :=
      ⟨Frame.quiet_empty none, nofun⟩
    have hrun : Simulates (run (Image.load p config) fuel) (Direct.run (Image.load p config) fuel)
        (.initial (Image.load p config) console) _ := simulates_run hw fuel hquiet
    exact hrun.forgetOutcome_eq
  · intro s t hs ht hst id
    rw [(hev.stmt id hs).forgetOutcome_eq, (hev.stmt id ht).forgetOutcome_eq, hst]

omit hp hev in
/-- The same call is evaluated again inside itself, and in every round of a loop. -/
theorem run_eq_direct_of_recursion :
    ∃ p, Program.parse
        "int f(int n) { if (n == 0) return 1; return n * f(n - 1); }
         int main() { int i = 0; while (i < 5) i = i + f(i); return i; }" = .ok p ∧
      ∀ console : Scripted,
        forgetOutcome (run (Image.load p {}) 1000 (.initial (Image.load p {}) console)) =
          Direct.run (Image.load p {}) 1000 (.initial (Image.load p {}) console) := by
  refine Exists.imp (fun p hp => ⟨hp, ?_⟩) ⟨_, Program.parse_eq_ok (by decide +kernel)⟩
  exact (run_eq_direct hp {} 1000).1

end Run

end MiniC
