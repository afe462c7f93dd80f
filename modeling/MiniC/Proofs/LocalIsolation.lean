import MiniC.Proofs.Assertion
import MiniC.Proofs.HeldVariables

/-!
# Local variables stay in the frames of their calls

An assignment to a name writes to the frame of the file if the frame of the call does not have the
variable. Where a local variable is assigned to before it was introduced, its value outlives the
call. That takes an initialiser that assigns to its own variable, or a declaration that is the
branch of an `if` or the body of a `while` and was not executed; in programs without these
(`Program.Tidy`) every variable in scope is held by the frame of the call (`CallStack.Held`), and
the frame of the file stays clean.
-/

set_option autoImplicit false

namespace MiniC

/-! ## Tidy programs -/

namespace Program

variable {p : Program} {V : List DeclId} {e q : ExprId} {d : DeclId}

/-- No initialiser of a local variable assigns to the variable, and no branch of `if` and no body of
`while` is a declaration. -/
structure Tidy (p : Program) : Prop where
  initialisers : ∀ {d init q}, (p.decl d).init? = some init → p.Contains init q →
    p.assigned? q = some d → p.IsGlobal d
  branches : p.BranchesDeclareNothing

/-- Local variables without initialisers leave nothing to check but the branches. -/
theorem tidy_of_local_inits_eq_none
    (hinit : ∀ k < p.decls.size, p.IsGlobal ⟨k⟩ ∨ (p.decl ⟨k⟩).init? = none)
    (hbranches : p.BranchesDeclareNothing) : p.Tidy := by
  refine ⟨fun {d init q} hi _ _ => ?_, hbranches⟩
  by_cases hlt : d.index < p.decls.size
  · exact (hinit d.index hlt).resolve_right fun hnone => by
      rw [hnone] at hi
      cases hi
  · simp [decl, Array.getD, hlt, default, Decl.init?] at hi

/-- What an expression in scope assigns to is in scope or a variable of the file. -/
theorem InScope.assigned (h : p.InScope V e) (hq : p.Contains e q) (hd : p.assigned? q = some d) :
    d ∈ V ∨ p.IsGlobal d := by
  obtain ⟨lhs, rhs, type, init, storage, hk, htarget, hdecl, -⟩ := assigned?_eq_some_iff.1 hd
  have hlhs : lhs ∈ p.operands q := mem_operands hk List.mem_cons_self
  refine (h (hq.trans (.operand hlhs (contains_stripParensWithin _))) htarget).imp_right
    fun hfile => ?_
  refine isGlobal_iff.2 ⟨hfile.lt, ?_, hfile.isFileLevel⟩
  rw [Decl.isFunction, hdecl]

theorem Tidy.orderly (h : p.Tidy) : p.Orderly p.assigned? :=
  ⟨InScope.assigned, h.initialisers, h.branches⟩

end Program

namespace Run

variable {κ α : Type} {image : Image} {d : DeclId} {s : State κ}

/-! ## Assertions that never fail -/

theorem between_held_eq {p : Program} {stop : Halt × State κ}
    {given : Option DeclId} {x y : Run κ α} (h : y s = x s)
    (hx : Ensures x s (fun _ t => ∀ d ∈ given, p.IsGlobal d ∨ t.stack.holds d = true) Anything) :
    between (Assertion.held p) stop given y s = x s := by
  change (y >>= done (Assertion.held p) stop given) s = x s
  rw [bind_apply, h]
  cases hresult : x s with
  | error _ _ => rfl
  | ok a t =>
    have hgiven := hx.of_ok hresult
    dsimp only
    rw [done_apply, if_pos]
    cases given with
    | none => rfl
    | some d => simpa [Assertion.held] using hgiven d rfl

theorem unhindered_asserting [Console κ] (hp : image.program.Resolved) (htidy : image.program.Tidy)
    (stop : Halt × State κ) (fuel : Nat) :
    Unhindered image image.program.assigned? (evaluator image fuel)
      (asserting image (Assertion.held image.program) stop fuel) := by
  induction fuel with
  | zero =>
    exact ⟨htidy.orderly, frameLocal_evaluator image 0,
      introduces_evaluator htidy.branches 0, fun _ => rfl, fun _ => rfl, fun _ _ =>
        rfl, fun _ _ => rfl⟩
  | succ fuel ih =>
    refine ⟨htidy.orderly, frameLocal_evaluator image (fuel + 1),
      introduces_evaluator htidy.branches (fuel + 1), fun {e s} hs => ?_, fun hs =>
        ?_, fun {d s} hd hs => ?_, fun hid hs => ?_⟩
    · -- an assignment that is permitted is to a variable of the file or to one that is held
      refine between_held_eq (ih.exprStep hp hs) ((ih.frames.exprStep e s).mono (fun _ t ht => ?_)
        fun _ _ _ => trivial)
      exact fun d hd => (hs e d (.self e) hd).imp_right ht.holds
    · exact between_held_eq (ih.targetStep hs) (ensures_of_forall fun _ _ => nofun)
    · -- what a declaration introduces is of the file, or held from then on
      refine between_held_eq (ih.declStep hs) ?_
      unfold Program.introduced?
      cases hf : (image.program.decl d).isFunction with
      | true => exact ensures_of_forall fun _ _ => nofun
      | false =>
        rcases hd with hd | hd
        · refine ensures_of_forall fun _ _ => ?_
          rintro _ ⟨⟩
          exact .inl hd
        · refine (ih.frames.ensures_declStep_holds hf hd).mono (fun _ t ht => ?_)
            fun _ _ _ => trivial
          rintro _ ⟨⟩
          exact .inr ht
    · exact between_held_eq (ih.stmtStep fuel hid hs) (ensures_of_forall fun _ _ => nofun)

/-! ## Runs -/

/-- In a tidy program every variable that gets a value is one of the file or held by the call. -/
theorem asserts_held [Console κ] (hp : image.program.Resolved)
    (htidy : image.program.Tidy) (fuel : Nat)
    (s : State κ) : Asserts image (Assertion.held image.program) fuel s := by
  intro stop
  exact (unhindered_asserting hp htidy stop fuel).runWith hp s

/-- What is read of a local variable in a clean state was written to the frame of the latest
call. -/
theorem holds_of_valueOfDecl {p : Program} (hs : s.Clean p) (hd : ¬ p.IsGlobal d) {value : Int32}
    {t : State κ} (h : valueOfDecl image d s = .ok value t) :
    s.stack.holds d = true ∧ s.stack.top.decl? d = some value := by
  have hglobal : s.stack.global.decl? d = none := by
    cases hg : s.stack.global.decl? d with
    | none => rfl
    | some v => exact absurd (hs d (by rw [hg]; rfl)) hd
  have hvalue : s.stack.top.decl? d = some value := by
    cases htop : s.stack.top.decl? d with
    | none =>
      rw [valueOfDecl_of_none image (by rw [htop, hglobal, Option.none_or])] at h
      cases h
    | some v =>
      rw [valueOfDecl_of_some image (by rw [htop, Option.some_or])] at h
      cases h
      rfl
  refine ⟨CallStack.holds_iff.2 ⟨fun hnil => ?_, by rw [hvalue]; rfl⟩, hvalue⟩
  rw [CallStack.top_of_calls_eq_nil hnil, hglobal] at hvalue
  cases hvalue

/-- The frame of the file is clean throughout a run exactly if every variable that gets a value in
it is one of the file or held by the frame of the latest call; no local variable is then read that
this call did not write. It is so in every run of a tidy program, also one that follows other runs,
whatever their ends. -/
theorem locals_stay_in_calls [Console κ] {source : String} {p : Program}
    (h : Program.parse source = .ok p) (config : Config) :
    (∀ fuel (s : State κ), s.Clean p →
      (Asserts (Image.load p config) (Assertion.clean p) fuel s ↔
        Asserts (Image.load p config) (Assertion.held p) fuel s)) ∧
    (∀ (s t : State κ) d value, s.Clean p → ¬ p.IsGlobal d →
      valueOfDecl (Image.load p config) d s = .ok value t → s.stack.top.decl? d = some value ∧
        s.stack.holds d = true) ∧
    (∀ console : κ, (State.initial (Image.load p config) console).Clean p) ∧
    (p.Tidy → ∀ fuel (s : State κ), s.Clean p →
      Asserts (Image.load p config) (Assertion.clean p) fuel s ∧
        (endState (run (Image.load p config) fuel s)).Clean p) := by
  have hiff : ∀ fuel (s : State κ), s.Clean p →
      (Asserts (Image.load p config) (Assertion.clean p) fuel s ↔
        (endState (run (Image.load p config) fuel s)).Clean p) :=
    fun _ _ hs => asserts_iff_clean (Assertion.exact_clean p) hs
  refine ⟨fun fuel s hs => ?_, fun s t d value hs hd hread => ?_,
    State.clean_initial (Image.load p config), fun htidy fuel s hs => ?_⟩
  · -- either assertion holds if and only if the file is clean at the end
    rw [hiff fuel s hs, asserts_iff_clean (Assertion.exact_held p) hs]
  · exact (holds_of_valueOfDecl hs hd hread).symm
  · have hheld : Asserts (Image.load p config) (Assertion.held p) fuel s :=
      @asserts_held κ (Image.load p config) _ (Program.resolved_of_parse h) htidy fuel s
    have hend := (asserts_iff_clean (Assertion.exact_held p) hs).1 hheld
    exact ⟨(hiff fuel s hs).2 hend, hend⟩

/-- Local variables without initialisers, declared in blocks only. -/
theorem locals_stay_in_calls_of_assigned_local :
    ∃ p, Program.parse
        "int f(int n) { int r; if (n == 0) r = 1; else r = n * f(n - 1); return r; }
         int main() { int i; i = f(4); return i; }" = .ok p ∧ p.Tidy ∧
      let image := Image.load p {}
      let start := State.initial image (Scripted.ofInput [])
      Asserts image (Assertion.clean p) 1000 start ∧ (endState (run image 1000 start)).Clean p := by
  have htidy : ∃ p, Program.parse
      "int f(int n) { int r; if (n == 0) r = 1; else r = n * f(n - 1); return r; }
         int main() { int i; i = f(4); return i; }" = .ok p ∧ p.Tidy :=
    ⟨_, Program.parse_eq_ok (by decide +kernel),
      Program.tidy_of_local_inits_eq_none (by decide +kernel) (by decide +kernel)⟩
  refine htidy.imp fun p hp => ⟨hp.1, hp.2, ?_⟩
  have hlocals := locals_stay_in_calls (κ := Scripted) hp.1 {}
  exact hlocals.2.2.2 hp.2 1000 _ (hlocals.2.2.1 _)

theorem not_asserts_of_not_clean [Console κ] {p : Program} {config : Config}
    {fuel : Nat} {console : κ}
    (h : ¬ (endState
      (run (Image.load p config) fuel (.initial (Image.load p config) console))).Clean p) :
    ¬ Asserts (Image.load p config) (Assertion.clean p) fuel
      (.initial (Image.load p config) console) :=
  mt (asserts_iff_clean (Assertion.exact_clean p)
    (State.clean_initial (Image.load p config) console)).1 h

/-- A local variable that is assigned to before its declaration is done is bound in the frame of the
file, and so is one whose declaration is not executed; the next call of the function finds its
value. -/
theorem local_outlives_call :
    (∃ p, Program.parse "int main() { int x = (x = 5); return 0; }" = .ok p ∧
      ¬ Asserts (Image.load p {}) (Assertion.clean p) 100
        (State.initial (Image.load p {}) (Scripted.ofInput []))) ∧
    ∃ p, Program.parse
        "int f(int w) { if (0) int x; if (w) x = 7; return x; } int main() { f(1); return f(0); }" =
          .ok p ∧
      result? (run (Image.load p {}) 100 (State.initial (Image.load p {}) (Scripted.ofInput []))) =
        some 7 := by
  refine ⟨⟨_, Program.parse_eq_ok (by decide +kernel),
    not_asserts_of_not_clean (by decide +kernel)⟩,
    ⟨_, Program.parse_eq_ok (by decide +kernel), by decide +kernel⟩⟩

end Run

end MiniC
