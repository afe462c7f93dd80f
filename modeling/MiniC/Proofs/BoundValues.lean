import MiniC.Proofs.EvaluationContract
import MiniC.Proofs.Fuel

/-!
# Values are bound before they are read

Parents read the values of their operands back from the table of the top frame. An expression that
has been evaluated has a value there, and keeps one as long as the frame lasts, unless it is one of
those that never get any (`Image.Valueless`): a call of a provided function without a result, or a
conversion to `void`. So an evaluator that insists on this whenever an expression was evaluated, and
again when the operands of an expression are about to be read (`Run.attentive`), carries out every
run as the evaluator does, and a run can only halt for want of the value of an expression that has
none.
-/

set_option autoImplicit false

namespace MiniC

instance (image : Image) (e : ExprId) : Decidable (image.Valueless e) :=
  match h : (image.program.expr e).kind with
  | .call callee _ =>
    decidable_of_iff (image.builtin? callee = some .print ∨ image.builtin? callee = some .free) (by
      simp only [Image.Valueless, h])
  | .cast _ => decidable_of_iff ((image.typeOf e).isVoid = true) (by simp only [Image.Valueless, h])
  | .intLiteral _ | .declRef _ | .unary .. | .binary .. | .subscript .. | .paren _ | .sizeOf _ =>
    .isFalse (by simp only [Image.Valueless, h, not_false_iff])

namespace Run

variable {κ : Type} [Console κ] (image : Image)

/-- Whether the value of an expression can be read in the top frame, unless the expression has
none. -/
def isReadable (e : ExprId) (s : State κ) : Bool :=
  decide (image.Valueless e) || (s.stack.top.expr? e).isSome

/-- Goes on if the values of some expressions can be read, and otherwise stops as told. -/
def requireReadable (stop : Halt × State κ) (es : List ExprId) : Run κ Unit :=
  require (fun s => es.all (isReadable image · s)) stop

/-- Evaluates an expression, and stops as told unless the values it asks for can be read once its
operands are evaluated, and its own value can be read in the end. -/
def attentiveStep (stop : Halt × State κ) (ev : Evaluator κ) (e : ExprId) : Run κ Unit := do
  focusOn (.expr e)
  evalOperands image ev e
  requireReadable image stop (image.program.asked e)
  conclude image ev e
  requireReadable image stop [e]

/-- The evaluator that stops as told where a value cannot be read that should be there. -/
def attentive (stop : Halt × State κ) : Nat → Evaluator κ
  | 0 => evaluator image 0
  | fuel + 1 =>
    let ev := attentive stop fuel
    { expr := fun e => attentiveStep image stop ev e
      target := fun target => targetStep image ev target
      decl := fun d => declStep image ev d
      stmt := fun id => stmtStep image ev fuel id }

end Run

namespace Contract

open Run

variable {κ : Type} {image : Image} {e : ExprId} {s t : State κ}

/-- Expressions have values from their evaluation on, and a run halts for want of a value only where
there cannot be one. -/
def binding (κ : Type) (image : Image) : Contract κ where
  inv _ := True
  evaluated e s := isReadable image e s = true
  halt h _ := ∀ e loc, h = .error (.fault (.memory (.unboundExpression e)) loc) → image.Valueless e

theorem isReadable_iff : isReadable image e s = true ↔ image.Valueless e ∨
    (s.stack.top.expr? e).isSome = true := by
  simp [isReadable]

/-- Values may be added to the table of the top frame, but none is taken away. -/
theorem later_binding (h : ∀ e, (s.stack.top.expr? e).isSome = true →
    (t.stack.top.expr? e).isSome = true) :
    (binding κ image).Later s t :=
  ⟨trivial, fun e he => isReadable_iff.2 ((isReadable_iff.1 he).imp_right (h e))⟩

theorem isSome_bindExpr (stack : CallStack) (e c : ExprId) (value : Int32)
    (h : (stack.top.expr? c).isSome = true) :
    ((stack.modifyTop (·.bindExpr e value)).top.expr? c).isSome = true := by
  rw [CallStack.top_modifyTop, Frame.expr?_bindExpr]
  split
  · rfl
  · exact h

theorem performs_binding (image : Image) (e : ExprId) : (binding κ image).Performs image e where
  focusOn _ _ := later_binding fun e he => by simpa using he
  value {s e} _ he hnone c loc heq := by
    obtain ⟨rfl, -⟩ : e = c ∧ image.locationIn s.stack = loc := by simpa using heq
    exact (isReadable_iff.1 he).resolve_right (by simp [hnone])
  fault {s cause} loc hcause _ e loc' heq := by
    obtain ⟨rfl, -⟩ : cause = .memory (.unboundExpression e) ∧ loc = loc' := by simpa using heq
    cases hcause
  bindExpr {s} value _ := by
    refine ⟨later_binding fun c hc => isSome_bindExpr s.stack e c value hc,
      isReadable_iff.2 (.inr ?_)⟩
    simp [Frame.expr?_bindExpr]
  bindTarget {s lhs _} value _ _ := later_binding fun c hc => isSome_bindExpr s.stack lhs c value hc
  assignDecl {s d} value _ _ := by
    have heffect : CallStack.ExprEffect (fun _ => False) s.stack _ := exprLocal_assignDecl d value s
    exact later_binding fun c hc => by rwa [heffect.exprs c not_false]
  outside _ hstack _ := later_binding fun c hc => by rwa [hstack]
  unbound _ _ _ _ := nofun
  array _ _ _ _ _ _ _ _ := nofun
  valueless hnone _ := isReadable_iff.2 (.inl hnone)

/-- Insisting on what is known changes nothing. -/
theorem fulfils_requireReadable [Console κ] {given es : List ExprId} {stop : Halt × State κ}
    (h : ∀ e ∈ es, e ∈ given) :
    (binding κ image).Fulfils given [] (pure ()) (requireReadable image stop es) := by
  intro s _ hknown
  refine ⟨?_, later_binding fun _ he => he, nofun⟩
  unfold requireReadable require
  rw [if_pos]
  · rfl
  · exact List.all_eq_true.2 fun e he => hknown e (h e he)

end Contract

namespace Run

open Contract

variable {κ : Type} [Console κ] {image : Image} {stop : Halt × State κ}
    {ev : Evaluator κ} {fuel : Nat}

/-- The values that an expression asks for can be read, and so can its own. -/
theorem fulfils_attentiveStep (h : (binding κ image).FulfilsAll image (evaluator image fuel) ev)
    (e : ExprId) :
    (binding κ image).Fulfils [] [e] (exprStep image (evaluator image fuel) e)
      (attentiveStep image stop ev e) := by
  have hsteps (ev : Evaluator κ) : exprStep image ev e = (do
      focusOn (.expr e)
      evalOperands image ev e
      pure ()
      conclude image ev e
      pure ()) := by
    rw [exprStep_eq]
    simp only [bind_pure_unit]
  have hinsist (es : List ExprId) :
      (binding κ image).Fulfils es [] (pure ()) (requireReadable image stop es) :=
    fulfils_requireReadable fun _ he => he
  have hconclude : (binding κ image).Fulfils (image.program.asked e) [e]
      (conclude image (evaluator image fuel) e) (conclude image ev e) := by
    refine fulfils_conclude (performs_binding image e) fun callee args _ params body _ _ _ => ?_
    -- a call works in a frame of its own and leaves the values in that of the caller as they are
    refine (performs_binding image e).fulfils_body (frameLocal_evaluator (κ := κ) image fuel)
      (D := fun _ => binding κ image) callee (fun _ _ _ _ => ⟨trivial, h.stmt body⟩)
      (fun s u _ _ hcaller => later_binding fun c hc => ?_) fun _ _ _ h => h
    rwa [hcaller.exprs c not_false]
  rw [hsteps]
  refine ((performs_binding image e).fulfils_focusOn _).andThen fun _ => ?_
  refine (h.operands e).evalOperands.bind fun _ => ?_
  rw [List.nil_append]
  refine (hinsist _).andThen fun _ => hconclude.bind fun _ => ?_
  exact (hinsist [e]).keep.mono (by simp) fun _ he => he

theorem fulfilsAll_attentive (hp : image.program.Tree) (fuel : Nat) :
    (binding κ image).FulfilsAll image (evaluator image fuel) (attentive image stop fuel) := by
  have hfuel (s : State κ) : (binding κ image).halt .outOfFuel s := fun e loc heq => by cases heq
  induction fuel with
  | zero => exact fulfilsAll_outOfFuel fun s _ => hfuel s
  | succ fuel ih =>
    have hadmits : (binding κ image).Admits image := (performs_binding image default).toAdmits
    refine ⟨fulfils_attentiveStep ih, fun e => (ih.operands e).targetStep hp, fun d => ?_,
      fun id => fulfils_stmtStep hadmits (ih.parts id) fuel fun _ s _ => hfuel s⟩
    refine fulfils_declStep hadmits (fun init _ => ih.expr init) fun s t _ ht =>
      later_binding fun e he => ?_
    cases ht with
    | function => exact he
    | array | value | zero => simpa using he

/-! ## Runs -/

/-- Values are bound before they are read: in every program that was read, whenever an expression
was evaluated and whenever its value is about to be read, the top frame has a value for it, unless
it is a call of a provided function without a result or a conversion to `void`; and a run that halts
for want of the value of an expression, whatever came before it, names one of these. -/
theorem values_bound_when_read {source : String} {p : Program} (h : Program.parse source = .ok p)
    (config : Config) (fuel : Nat) (s : State κ) :
    (∀ stop, runWith (Image.load p config) (attentive (Image.load p config) stop fuel) s =
      run (Image.load p config) fuel s) ∧
    ∀ e loc t, run (Image.load p config) fuel s =
        .error (.error (.fault (.memory (.unboundExpression e)) loc)) t →
          (Image.load p config).Valueless e := by
  have hp : (Image.load p config).program.Tree := (Program.resolved_of_parse h).wellFormed.tree
  have hrun (stop : Halt × State κ) :
      runWith (Image.load p config) (attentive (Image.load p config) stop fuel) s =
        run (Image.load p config) fuel s ∧
      Ensures (run (Image.load p config) fuel) s (fun _ _ => True)
        (binding κ (Image.load p config)).halt := by
    have hbinds : (binding κ (Image.load p config)).FulfilsAll (Image.load p config)
        (evaluator (Image.load p config) fuel) (attentive (Image.load p config) stop fuel) :=
      fulfilsAll_attentive hp fuel
    -- the entry function needs no values, so its body runs under the contract like any other
    have hmain (t : State κ) : Ensures (enterMain (Image.load p config)) t
        (fun body _ => True ∧ (binding κ (Image.load p config)).Fulfils [] []
          ((evaluator (Image.load p config) fuel).stmt body)
          ((attentive (Image.load p config) stop fuel).stmt body))
        (binding κ (Image.load p config)).halt := by
      refine (ensures_enterMain (Image.load p config) t).mono (fun body _ _ =>
        ⟨trivial, hbinds.stmt body⟩) ?_
      rintro h _ ⟨-, rfl | ⟨_, _, rfl⟩⟩ <;> exact fun _ _ heq => by cases heq
    obtain ⟨heq, hends⟩ := Contract.runWith (D := binding κ _) (s := s) trivial hbinds.decl
      (fun t _ => hmain t) (fun _ _ h => h) fun _ _ h => h
    exact ⟨heq, hends.mono (fun _ _ _ => trivial) fun _ _ h => h⟩
  -- what the run with checks does is what the run does, so the contract is about the run itself
  refine ⟨fun stop => (hrun stop).1, fun e loc t hfail => ?_⟩
  have hends := (hrun (.outOfFuel, s)).2
  rw [Ensures, hfail] at hends
  exact hends e loc rfl

/-- The sum asks for a value that the call of `PRINT` does not have. -/
theorem values_bound_when_read_of_printed_sum :
    ∃ p, Program.parse
      "void PRINT(int n); int main() { int a[2]; a[0] = 1; return PRINT(a[0]) + 1; }" = .ok p ∧
      let image := Image.load p {}
      let start := State.initial image (Scripted.ofInput [])
      halt? (run image 100 start) =
        some (.error (.fault (.memory (.unboundExpression ⟨8⟩)) ⟨1, 72⟩)) ∧
      (∀ stop, runWith image (attentive image stop 100) start = run image 100 start) ∧
      ∀ e loc t, run image 100 start =
        .error (.error (.fault (.memory (.unboundExpression e)) loc)) t → image.Valueless e := by
  obtain ⟨p, hp, hhalt⟩ : ∃ p,
      Program.parse
        "void PRINT(int n); int main() { int a[2]; a[0] = 1; return PRINT(a[0]) + 1; }" = .ok p ∧
        halt? (run (Image.load p {}) 100 (.initial (Image.load p {}) (Scripted.ofInput []))) =
          some (.error (.fault (.memory (.unboundExpression ⟨8⟩)) ⟨1, 72⟩)) :=
    Program.exists_of_parse (by decide +kernel)
  exact ⟨p, hp, hhalt, values_bound_when_read hp {} 100 _⟩

end Run

end MiniC
