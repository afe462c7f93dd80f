import MiniC.Proofs.EvaluationContract
import MiniC.Proofs.Fuel
import MiniC.Proofs.ProgramStructure

/-!
# Programs without loops come to an end

Nodes come after the nodes inside them, so the nesting of one function body is bounded by the size
of the program. A call opens a frame only up to the limit on the depth of calls. Where no statement
is a loop (`Program.LoopFree`) an amount of fuel that is the product of the two is therefore never
used up (`Run.EndsAt`), and every run has an outcome (`Run.run_ends_of_loopFree`).
-/

set_option autoImplicit false

namespace MiniC

/-! ## Bounds -/

namespace Program

variable {p : Program} {tokens : List Token}

/-- No statement of the program repeats its parts. -/
def LoopFree (p : Program) : Prop :=
  ∀ k < p.stmts.size, (p.stmt ⟨k⟩).kind.isLoop = false

instance : Decidable p.LoopFree := inferInstanceAs (Decidable (∀ k < _, _ = _))

theorem LoopFree.isLoop (h : p.LoopFree) (id : StmtId) : (p.stmt id).kind.isLoop = false := by
  by_cases hlt : id.index < p.stmts.size
  · exact h id.index hlt
  · simp [stmt, Array.getD, hlt, default, StmtKind.isLoop]

/-- A bound on how deeply the nodes of one function body nest. -/
def nesting (p : Program) : Nat := p.exprs.size + p.stmts.size + 1

theorem Linked.body_lt (h : p.Linked tokens) {f : DeclId} {returnType : CType}
    {params : List DeclId}
    {body : StmtId} (hf : (p.decl f).kind = .function returnType params (some body)) :
    body.index < p.stmts.size := by
  have hfunction : (p.decl f).isFunction = true := by rw [Decl.isFunction, hf]
  have hmem : p.decl f ∈ p.decls.toList := by
    have hlt := lt_size_of_isFunction hfunction
    have hget : p.decl f = p.decls[f.index] := by simp [decl, Array.getD, hlt]
    rw [hget]
    exact Array.getElem_mem_toList hlt
  have hpart : Part.stmt body ∈ (p.decl f).parts := by simp [Decl.parts, hf]
  have hreference : Part.stmt body ∈ p.references := by
    unfold references
    simp only [List.mem_append, List.mem_flatMap]
    exact .inl (.inr ⟨_, hmem, hpart⟩)
  exact h.has hreference

end Program

/-- Fuel that suffices for all calls that can still be opened at some depth. -/
def Image.callFuel (image : Image) (depth : Nat) : Nat :=
  (image.config.maxCallDepth + 1 - depth) * image.program.nesting

/-- The calls that a call opens need less fuel than it does, by the nesting of one body. -/
theorem Image.callFuel_succ (image : Image) {depth : Nat} (h : depth ≤ image.config.maxCallDepth) :
    image.callFuel (depth + 1) + image.program.nesting = image.callFuel depth := by
  have hleft : image.config.maxCallDepth + 1 - depth =
      (image.config.maxCallDepth + 1 - (depth + 1)) + 1 := by
    omega
  rw [callFuel, callFuel, hleft, Nat.add_mul, Nat.one_mul]

/-! ## Computations that end -/

namespace Contract

open Run

variable {κ : Type}

/-- Everything ends at the depth at which it began and without using up the fuel. -/
def ending (κ : Type) (depth : Nat) : Contract κ where
  inv s := s.stack.depth = depth
  evaluated _ _ := True
  halt h _ := h ≠ .outOfFuel

variable {depth : Nat}

theorem later_ending {s t : State κ} (h : t.stack.depth = depth) : (ending κ depth).Later s t :=
  ⟨h, fun _ _ => trivial⟩

theorem performs_ending (image : Image) (e : ExprId) : (ending κ depth).Performs image e where
  focusOn _ hs := later_ending ((CallStack.depth_modifyTop _ _).trans hs)
  value _ _ _ := nofun
  fault _ _ _ := nofun
  bindExpr _ hs := ⟨later_ending ((CallStack.depth_modifyTop _ _).trans hs), trivial⟩
  bindTarget _ _ hs := later_ending ((CallStack.depth_modifyTop _ _).trans hs)
  assignDecl {s d} value _ hs := by
    refine later_ending ?_
    split
    · exact (CallStack.depth_modifyTop _ _).trans hs
    · exact hs
  outside hs hstack _ := later_ending ((congrArg CallStack.depth hstack).trans hs)
  unbound _ _ := nofun
  array _ _ _ _ _ _ := nofun
  valueless _ _ := trivial

end Contract

namespace Run

open Contract

variable {κ : Type}

theorem depth_pop (stack : CallStack) (h : 1 < stack.depth) :
    stack.pop.2.depth + 1 = stack.depth := by
  rcases stack with ⟨_ | ⟨frame, callers⟩, global⟩
  · exact absurd h (Nat.lt_irrefl 1)
  · rfl

variable [Console κ] (image : Image)

/-- With more fuel than the calls below and the nodes inside can use up, everything ends. -/
structure EndsAt (depth fuel : Nat) : Prop where
  expr : ∀ e, image.callFuel depth + e.index < fuel →
    (ending κ depth).Fulfils [] [e] ((evaluator image fuel).expr e) ((evaluator image fuel).expr e)
  target : ∀ e, image.callFuel depth + e.index < fuel →
    (ending κ depth).Fulfils [] (image.program.expr (image.program.stripParens e)).kind.locators
      ((evaluator image fuel).target e) ((evaluator image fuel).target e)
  decl : ∀ d, image.callFuel depth + image.program.exprs.size < fuel →
    (ending κ depth).Fulfils [] [] ((evaluator image fuel).decl d) ((evaluator image fuel).decl d)
  stmt : ∀ id, image.callFuel depth + image.program.exprs.size + 1 + id.index < fuel →
    (ending κ depth).Fulfils [] [] ((evaluator image fuel).stmt id) ((evaluator image fuel).stmt id)

variable {image} {tokens : List Token} {depth fuel : Nat}

/-- A call enters a body one level deeper, as far as the limit allows. -/
theorem EndsAt.fulfils_body (h : EndsAt (κ := κ) image (depth + 1) fuel)
    (hp : image.program.Linked tokens)
    (hfuel : image.callFuel depth ≤ fuel) {callee : DeclId} {args : List ExprId}
    {returnType : CType}
    {params : List DeclId} {body : StmtId}
    (hd : (image.program.decl callee).kind = .function returnType params (some body)) (e : ExprId) :
    (ending κ depth).Fulfils args [e]
      (do
        enterBody image callee params body args
        leaveCall e (← (evaluator image fuel).stmt body).value)
      (do
        enterBody image callee params body args
        leaveCall e (← (evaluator image fuel).stmt body).value) := by
  refine (performs_ending image e).fulfils_body (frameLocal_evaluator image fuel)
    (D := fun _ => ending κ (depth + 1)) callee (fun s values hs hpassed => ?_)
      (fun s u hs hu _ => ?_)
    fun _ _ _ h => h
  · refine ⟨congrArg (· + 1) hs, h.stmt body ?_⟩
    have hdepth : depth ≤ image.config.maxCallDepth := hs ▸ hpassed.depth
    -- the body is entered with less to do than the call had
    have hlt := hp.body_lt hd
    have hcalls := image.callFuel_succ hdepth
    unfold Program.nesting at hcalls
    omega
  · have hdeep : u.stack.depth = depth + 1 := hu
    have hone : 1 ≤ depth := hs ▸ Nat.succ_le_succ (Nat.zero_le _)
    have hpop := depth_pop u.stack (by omega)
    have hleft : u.stack.pop.2.depth = depth := by omega
    exact later_ending hleft

/-- Operands come before the expression and need less fuel. -/
theorem EndsAt.operands (h : EndsAt (κ := κ) image depth fuel)
    (hp : image.program.Linked tokens) {e : ExprId}
    (hfuel : image.callFuel depth + e.index < fuel + 1) :
    (ending κ depth).Operands image (evaluator image fuel) (evaluator image fuel) e where
  expr c hc := h.expr c (by have := hp.operands hc; omega)
  target c hc := h.target c (by have := hp.operands hc; omega)

theorem endsAt_evaluator (hp : image.program.Linked tokens) (hw : image.program.WellFormed)
    (hfree : image.program.LoopFree) (depth fuel : Nat) : EndsAt (κ := κ) image depth fuel := by
  -- a call needs the statement for the next depth, with less fuel
  induction fuel generalizing depth with
  | zero => exact ⟨nofun, nofun, nofun, nofun⟩
  | succ fuel ih =>
    have hperforms (e : ExprId) : (ending κ depth).Performs image e := performs_ending image e
    have hadmits : (ending κ depth).Admits image := (hperforms default).toAdmits
    refine ⟨fun e he => ?_, fun e he => ?_, fun d hd => ?_, fun id hid => ?_⟩
    · refine fulfils_exprStep ((ih depth).operands hp he) (hperforms e) ?_
      intro callee args returnType params body _ _ hfunction
      exact (ih (depth + 1)).fulfils_body hp (by omega) hfunction e
    · exact ((ih depth).operands hp he).targetStep hw.tree
    · refine fulfils_declStep hadmits (fun init hinit => ?_) fun s t hs ht => ?_
      · have hlt := (hw.inits (Option.mem_def.1 hinit)).lt
        exact (ih depth).expr init (by omega)
      · refine later_ending ?_
        cases ht with
        | function => exact hs
        | array | value | zero => exact (CallStack.depth_modifyTop _ _).trans hs
    · refine fulfils_stmtStep hadmits
        ⟨fun e he => ?_, fun d _ => ?_, fun i hi => ?_⟩ fuel fun hloop => ?_
      · have hlt := (hw.roots he).lt
        exact (ih depth).expr e (by omega)
      · exact (ih depth).decl d (by omega)
      · have hlt := hp.inner hi
        exact (ih depth).stmt i (by omega)
      · rw [hfree.isLoop id] at hloop
        cases hloop

/-! ## Runs -/

/-- A run uses up at most the fuel for the calls that can be opened and for one more body. -/
theorem ensures_run (hp : image.program.Linked tokens) (hw : image.program.WellFormed)
    (hfree : image.program.LoopFree) {s : State κ}
    (hfuel : image.callFuel s.stack.depth + image.program.nesting ≤ fuel) :
    Ensures (run image fuel) s (fun _ _ => True) fun h _ => h ≠ .outOfFuel := by
  have hends (depth : Nat) : EndsAt (κ := κ) image depth fuel :=
    endsAt_evaluator hp hw hfree depth fuel
  have hnesting : image.program.nesting = image.program.exprs.size + image.program.stmts.size + 1 :=
    rfl
  refine (Contract.runWith (C := ending κ s.stack.depth)
    (D := ending κ (s.stack.depth + 1)) (s := s) rfl
    (fun d => (hends _).decl d (by omega)) (fun t ht => ?_) (fun _ _ h => h) fun _ _ h => h).2.mono
    (fun _ _ _ => trivial) fun _ _ h => h
  refine (ensures_enterMain image t).mono ?_ ?_
  · rintro body _ ⟨entry, returnType, params, -, hk, rfl⟩
    refine ⟨congrArg (· + 1) ht, (hends _).stmt body ?_⟩
    have hlt := hp.body_lt hk
    have hle : image.callFuel (s.stack.depth + 1) ≤ image.callFuel s.stack.depth :=
      Nat.mul_le_mul_right _ (by omega)
    omega
  · rintro h _ ⟨-, rfl | ⟨_, _, rfl⟩⟩ <;> exact nofun

/-- A program without loops comes to an end, whatever it reads: from every state and under every
configuration each run has an outcome, with a value or an error, and an amount of fuel that depends
on the limit on the depth of calls and on the size of the program alone is enough for it. -/
theorem run_ends_of_loopFree {source : String} {p : Program} (h : Program.parse source = .ok p)
    (hfree : p.LoopFree) (config : Config) (s : State κ) :
    ∃ r, Ends (Image.load p config) s r ∧
      ∀ fuel, (config.maxCallDepth + 1) * p.nesting ≤ fuel →
        run (Image.load p config) fuel s = r := by
  obtain ⟨stream, -, hreachable⟩ := Program.reachable_of_parse h
  have hp : (Image.load p config).program.Linked stream.tokens :=
    Program.linked_of_sound hreachable.sound
  let enough := (config.maxCallDepth + 1) * p.nesting
  have hdone : halt? (run (Image.load p config) enough s) ≠ some .outOfFuel := by
    have hfuel : (Image.load p config).callFuel s.stack.depth + p.nesting ≤ enough := by
      -- the frame of the file counts as well, so one call less than the limit can still be opened
      have hdepth : 1 ≤ s.stack.depth := Nat.succ_le_succ (Nat.zero_le _)
      calc (config.maxCallDepth + 1 - s.stack.depth) * p.nesting + p.nesting
          ≤ config.maxCallDepth * p.nesting + p.nesting :=
            Nat.add_le_add_right (Nat.mul_le_mul_right _ (by omega)) _
        _ = (config.maxCallDepth + 1) * p.nesting := (Nat.succ_mul _ _).symm
    have hends := ensures_run hp (Program.resolved_of_parse h).wellFormed hfree hfuel
    unfold Ensures at hends
    cases hr : run (Image.load p config) enough s with
    | ok value t => exact nofun
    | error halt t =>
      rw [hr] at hends
      exact fun heq => hends (Option.some.inj heq)
  refine ⟨_, ⟨⟨enough, rfl⟩, hdone⟩, fun fuel hfuel => ?_⟩
  obtain ⟨spare, rfl⟩ := Nat.exists_eq_add_of_le hfuel
  exact run_add_spare (Image.load p config) hdone spare

/-- Two functions that call each other for ever, from the initialiser of a variable of the file. -/
theorem run_ends_of_mutual_recursion :
    ∃ p, Program.parse
        "int f(int n); int g(int n) { return f(n + 1); } int f(int n) { return g(n + 1); }
         int x = f(0); int main() { return x; }" = .ok p ∧ p.LoopFree ∧
      ∃ r, Ends (Image.load p {}) (State.initial (Image.load p {}) (Scripted.ofInput [])) r ∧
        ∀ fuel, 10001 * p.nesting ≤ fuel →
          run (Image.load p {}) fuel
            (State.initial (Image.load p {}) (Scripted.ofInput [])) = r := by
  obtain ⟨p, hp, hfree⟩ : ∃ p, Program.parse
      "int f(int n); int g(int n) { return f(n + 1); } int f(int n) { return g(n + 1); }
         int x = f(0); int main() { return x; }" = .ok p ∧ p.LoopFree :=
    Program.exists_of_parse (by decide +kernel)
  exact ⟨p, hp, hfree, run_ends_of_loopFree hp hfree {} _⟩

end Run

end MiniC
