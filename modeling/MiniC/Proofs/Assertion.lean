import MiniC.Proofs.FileFrame

/-!
# Assertions during runs

An evaluator can be made to assert something of the state whenever a node is begun or done, and to
stop as it is told where this fails (`Run.asserting`). Assertions hold throughout a run
(`Run.Asserts`) if the run is the same with them, however a failing assertion would stop it.

Two assertions turn out to say the same: that the frame of the file is clean all the time
(`Assertion.clean`), and that whenever a variable is introduced or assigned to, it is one of the
file or the frame of the latest call holds it (`Assertion.held`).
-/

set_option autoImplicit false

namespace MiniC

/-! ## Assertions -/

/-- What is asserted of the states of a run. -/
structure Assertion (κ : Type) where
  /-- Asserted whenever a node is begun or done. -/
  always : State κ → Bool
  /-- Asserted when a variable was introduced or assigned to. -/
  given : DeclId → State κ → Bool

namespace Assertion

variable {κ : Type}

/-- The frame of the file is clean. -/
def clean (p : Program) : Assertion κ := ⟨fun s => decide (s.Clean p), fun _ _ => true⟩

/-- Variables that get values are those of the file and those that the frame of the latest call
holds. -/
def held (p : Program) : Assertion κ :=
  ⟨fun _ => true, fun d s => decide (p.IsGlobal d) || s.stack.holds d⟩

/-- In clean states the assertion holds, and where it holds after a variable got a value, the state
is still clean. -/
structure Exact (p : Program) (A : Assertion κ) : Prop where
  always : ∀ {s : State κ}, s.Clean p → A.always s = true
  given : ∀ {d : DeclId} {s t : State κ}, s.Clean p → s.Gives d t → t.Clean p → A.given d t = true
  clean : ∀ {d : DeclId} {s t : State κ}, s.Clean p → s.Gives d t → A.always t = true →
    A.given d t = true → t.Clean p

/-- That the frame of the file is clean can be asserted exactly. -/
theorem exact_clean (p : Program) : (clean p : Assertion κ).Exact p where
  always hs := decide_eq_true hs
  given _ _ _ := rfl
  clean _ _ h _ := of_decide_eq_true h

/-- That the variables written are held is what keeps the frame of the file clean. -/
theorem exact_held (p : Program) : (held p : Assertion κ).Exact p where
  always _ := rfl
  given hs hg ht := by simpa [held] using (Run.clean_iff_of_gives hg hs).1 ht
  clean hs hg _ h := (Run.clean_iff_of_gives hg hs).2 (by simpa [held] using h)

end Assertion

/-- The variable that a declaration introduces; a function introduces none. -/
def Program.introduced? (p : Program) (d : DeclId) : Option DeclId :=
  if (p.decl d).isFunction then none else some d

namespace Run

variable {κ α β : Type}

/-- Goes on from a state that is as required, and otherwise stops as told. -/
def require (ok : State κ → Bool) (stop : Halt × State κ) : Run κ Unit := fun s =>
  if ok s then .ok () s else .error stop.1 stop.2

/-- Asserts what holds when a node is done, which may have given a variable a value. -/
def done (A : Assertion κ) (stop : Halt × State κ) (given : Option DeclId) (result : α) :
    Run κ α := do
  require (fun s => A.always s && given.all (A.given · s)) stop
  return result

theorem done_apply (A : Assertion κ) (stop : Halt × State κ) (given : Option DeclId)
    (a : α) (s : State κ) :
    done A stop given a s =
      if (A.always s && given.all (A.given · s)) = true then .ok a s else .error stop.1 stop.2 := by
  unfold done
  rw [bind_apply, require]
  by_cases h : (A.always s && given.all (A.given · s)) = true
  · rw [if_pos h, if_pos h]
    rfl
  · rw [if_neg h, if_neg h]

/-- Carries out a computation between assertions. -/
def between (A : Assertion κ) (stop : Halt × State κ) (given : Option DeclId) (x : Run κ α) :
    Run κ α := do
  require A.always stop
  let result ← x
  done A stop given result

/-- The evaluator with assertions. -/
def asserting [Console κ] (image : Image) (A : Assertion κ) (stop : Halt × State κ) :
    Nat → Evaluator κ
  | 0 => evaluator image 0
  | fuel + 1 =>
    let ev := asserting image A stop fuel
    { expr := fun e => between A stop (image.program.assigned? e) (exprStep image ev e)
      target := fun target => between A stop none (targetStep image ev target)
      decl := fun d => between A stop (image.program.introduced? d) (declStep image ev d)
      stmt := fun id => between A stop none (stmtStep image ev fuel id) }

/-- The assertions hold throughout a run. -/
def Asserts [Console κ] (image : Image) (A : Assertion κ) (fuel : Nat) (s : State κ) : Prop :=
  ∀ stop, runWith image (asserting image A stop fuel) s = run image fuel s

/-- The state in which a computation ended. -/
def endState : EStateM.Result Halt (State κ) α → State κ
  | .ok _ t => t
  | .error _ t => t

/-- The result of a computation that had one. -/
def result? : EStateM.Result Halt (State κ) α → Option α
  | .ok a _ => some a
  | .error _ _ => none

/-! ## Computations with and without assertions -/

/-- The second computation is the first with assertions. What is bound in the frame of the file
stays bound, so both end alike unless the first leaves the frame unclean; and the second keeps it
clean. -/
structure Tracks (p : Program) (stop : Halt × State κ) (x y : Run κ α) : Prop where
  stays : ∀ {s}, ¬ s.Clean p → ¬ (endState (x s)).Clean p
  alike : ∀ s, y s = x s ∨ ¬ (endState (x s)).Clean p
  keeps : stop.2.Clean p → ∀ {s}, s.Clean p → (endState (y s)).Clean p

variable {p : Program} {stop : Halt × State κ} {x y : Run κ α}

/-- A computation that does not touch the frame of the file tracks itself. -/
theorem tracks_of_keepsFile (hx : KeepsFile x) : Tracks p stop x x := by
  have hsame : ∀ s, SameFile s (endState (x s)) := by
    intro s
    have h := hx s
    unfold Ensures at h
    cases hs : x s with
    | ok a t =>
      rw [hs] at h
      exact h
    | error halt t =>
      rw [hs] at h
      exact h
  exact ⟨fun {s} hs ht => hs (ht.of_decls_eq (hsame s).symm), fun _ => .inl rfl,
    fun _ {s} hs => hs.of_decls_eq (hsame s)⟩

theorem tracks_pure (a : α) : Tracks p stop (pure a) (pure a) :=
  tracks_of_keepsFile (fileEffects.readOnly (.pure a))

/-- Computations may be tracked one after the other. -/
theorem Tracks.bind {f g : α → Run κ β} (hxy : Tracks p stop x y)
    (hfg : ∀ a, Tracks p stop (f a) (g a)) : Tracks p stop (x >>= f) (y >>= g) := by
  constructor
  · intro s hs
    have hx := hxy.stays hs
    rw [bind_apply]
    cases h : x s with
    | ok a t =>
      rw [h] at hx
      exact (hfg a).stays hx
    | error _ _ =>
      rw [h] at hx
      exact hx
  · intro s
    rw [bind_apply, bind_apply]
    rcases hxy.alike s with halike | hunclean
    · rw [halike]
      cases x s with
      | ok a t => exact (hfg a).alike t
      | error _ _ => exact .inl rfl
    -- once the state is unclean, the second part leaves it so
    · refine .inr ?_
      cases h : x s with
      | ok a t =>
        rw [h] at hunclean
        exact (hfg a).stays hunclean
      | error _ _ =>
        rw [h] at hunclean
        exact hunclean
  · intro hstop s hs
    have hy := hxy.keeps hstop hs
    rw [bind_apply]
    cases h : y s with
    | ok a t =>
      rw [h] at hy
      exact (hfg a).keeps hstop hy
    | error _ _ =>
      rw [h] at hy
      exact hy

/-- What holds in clean states may be required. -/
theorem tracks_require {ok : State κ → Bool} (hok : ∀ {s : State κ}, s.Clean p → ok s = true) :
    Tracks p stop (pure ()) (require ok stop) := by
  constructor
  · exact fun hs => hs
  · intro s
    unfold require
    by_cases hs : s.Clean p
    · rw [if_pos (hok hs)]
      exact .inl rfl
    · exact .inr hs
  · intro hstop s hs
    unfold require
    rw [if_pos (hok hs)]
    exact hs

/-- To be tracked is kept by all ways of putting computations together. -/
theorem tracks_composes : Composes fun _ x y => Tracks p stop (κ := κ) x y :=
  ⟨tracks_pure, Tracks.bind⟩

variable {A : Assertion κ} (hA : A.Exact p)
include hA

/-- Nothing new is asserted where no variable got a value. -/
theorem tracks_done (a : α) : Tracks p stop (pure a) (done A stop none a) := by
  have hok : ∀ {s : State κ}, s.Clean p → (A.always s && Option.all (A.given · s) none) = true :=
    fun hs => by rw [hA.always hs]; rfl
  exact (tracks_require hok).bind fun _ => tracks_pure a

/-- A computation that gives a variable a value is followed by the assertion for it. -/
theorem tracks_given {d : DeclId} (hx : GivesVariable d x) :
    Tracks p stop x (x >>= done A stop (some d)) := by
  have hstays : ∀ {s : State κ}, ¬ s.Clean p → ¬ (endState (x s)).Clean p := by
    intro s hs
    have h := hx s
    unfold Ensures at h
    cases hresult : x s with
    | ok a t =>
      rw [hresult] at h
      exact not_clean_of_gives h hs
    | error halt t =>
      rw [hresult] at h
      exact fun ht => hs (ht.of_decls_eq (Eq.symm h))
  -- an assertion fails only where the end is unclean, and from an unclean start every end is
  refine ⟨hstays, fun s => ?_, fun hstop {s} hs => ?_⟩
  · by_cases hs : s.Clean p
    · have h := hx s
      unfold Ensures at h
      rw [bind_apply]
      cases hresult : x s with
      | ok a t =>
        rw [hresult] at h
        by_cases ht : t.Clean p
        · dsimp only
          rw [done_apply, if_pos (by simp [hA.always ht, hA.given hs h ht])]
          exact .inl rfl
        · exact .inr ht
      | error halt t => exact .inl rfl
    · exact .inr (hstays hs)
  · have h := hx s
    unfold Ensures at h
    rw [bind_apply]
    cases hresult : x s with
    | ok a t =>
      rw [hresult] at h
      dsimp only
      rw [done_apply]
      split
      · next hok =>
        obtain ⟨halways, hgiven⟩ : A.always t = true ∧ A.given d t = true := by simpa using hok
        exact hA.clean hs h halways hgiven
      · exact hstop
    | error halt t =>
      rw [hresult] at h
      exact hs.of_decls_eq h

/-- What is asserted before follows from the state being clean. -/
theorem Tracks.between {given : Option DeclId} (h : Tracks p stop x (y >>= done A stop given)) :
    Tracks p stop x (between A stop given y) :=
  (tracks_require hA.always).bind fun _ => h

theorem Tracks.done (h : Tracks p stop x y) : Tracks p stop x (y >>= done A stop none) := by
  rw [← bind_pure x]
  exact h.bind fun a => tracks_done hA a

/-! ## Evaluators with and without assertions -/

omit hA

/-- An evaluator, and the same with assertions. -/
abbrev Tracked (p : Program) (stop : Halt × State κ) (ev ev' : Evaluator κ) : Prop :=
  Related (fun _ x y => Tracks p stop x y) ev ev'

variable [Console κ] {image : Image} {ev ev' : Evaluator κ} (hev : Tracked p stop ev ev')
include hev

omit [Console κ] in
/-- The operands of an expression are tracked one by one. -/
theorem Tracked.evalOperands (e : ExprId) :
    Tracks p stop (evalOperands image ev e) (evalOperands image ev' e) :=
  tracks_composes.evalOperands rfl (fun o _ => hev.expr o) fun o _ => hev.target o

/-- A call is tracked through its body. -/
theorem Tracked.finishCall (e : ExprId) (callee : DeclId) (args : List ExprId) :
    Tracks p stop (finishCall image ev e callee args) (finishCall image ev' e callee args) := by
  have c : NodeEffects (κ := κ) _ _ _ := fileEffects
  refine (tracks_of_keepsFile (c.within_focusOn _)).bind fun _ => ?_
  refine (tracks_of_keepsFile (keepsFile_enterCall image e callee args)).bind fun entered => ?_
  cases entered with
  | none => exact tracks_pure ()
  | some body =>
    dsimp only
    rw [onOwnStack_eq, onOwnStack_eq]
    refine (hev.stmt body).bind fun flow => tracks_of_keepsFile ?_
    exact c.bind keepsFile_pop fun _ => c.within_bindExpr trivial flow.value

/-- An expression that is no assignment to a name. -/
theorem Tracked.conclude_of_assigned?_eq_none {e : ExprId} (he : image.program.assigned? e = none) :
    Tracks p stop (conclude image ev e) (conclude image ev' e) := by
  have c : NodeEffects (κ := κ) _ _ _ := fileEffects
  have hfocused {x : Run κ Unit} (hx : KeepsFile x) :
      Tracks p stop (do focusOn (.expr e); x) (do focusOn (.expr e); x) :=
    tracks_of_keepsFile (c.bind (c.within_focusOn _) fun _ => hx)
  unfold Run.conclude
  cases hk : (image.program.expr e).kind with
  | intLiteral value => exact tracks_of_keepsFile (c.within_bindExpr trivial value)
  | declRef d => exact tracks_of_keepsFile (c.reference image trivial d)
  | sizeOf type => exact tracks_of_keepsFile (c.sizeOf image trivial type)
  | call callee args => exact hev.finishCall e callee args
  | paren inner =>
    exact tracks_of_keepsFile (c.after_read (readOnly_valueOf image inner) fun value =>
      c.within_bindExpr trivial value)
  | unary op operand => exact hfocused (c.unary image trivial op operand)
  | subscript base index => exact hfocused (c.subscript image trivial base index)
  | cast operand => exact tracks_of_keepsFile (c.cast image trivial operand)
  | binary op lhs rhs =>
    exact hfocused (c.binary image trivial (fun d _ hd => by rw [he] at hd; cases hd) hk trivial)

include hA

/-- An expression is tracked, with an assertion of the variable that it assigns to. -/
theorem Tracked.exprStep (e : ExprId) :
    Tracks p stop (exprStep image ev e)
      (exprStep image ev' e >>= done A stop (image.program.assigned? e)) := by
  have c : NodeEffects (κ := κ) _ _ _ := fileEffects
  have hfocus : Tracks p stop (focusOn (.expr e) : Run κ Unit) (focusOn (.expr e)) :=
    tracks_of_keepsFile (c.within_focusOn _)
  cases he : image.program.assigned? e with
  | none =>
    have hplain :=
      tracks_composes.exprStep hfocus (hev.evalOperands e) (hev.conclude_of_assigned?_eq_none he)
    exact hplain.done hA
  | some d =>
    -- the assignment itself gives the variable its value, after the operands
    obtain ⟨lhs, rhs, _, _, _, hk, -⟩ := Program.assigned?_eq_some_iff.1 he
    have hconclude (ev : Evaluator κ) :
        conclude image ev e = (do focusOn (.expr e); assign image e lhs rhs) := by
      unfold Run.conclude
      rw [hk]
      rfl
    rw [exprStep_eq, exprStep_eq, hconclude, hconclude]
    simp only [bind_assoc]
    refine hfocus.bind fun _ => (hev.evalOperands e).bind fun _ => hfocus.bind fun _ => ?_
    exact tracks_given hA (givesVariable_assign image hk he)

omit [Console κ] hA in
theorem Tracked.targetStep (target : ExprId) :
    Tracks p stop (targetStep image ev target) (targetStep image ev' target) :=
  tracks_composes.targetStep rfl (fun o _ => hev.expr o) fun o _ => hev.target o

omit [Console κ] in
/-- A declaration is tracked, with an assertion of the variable that it introduces. -/
theorem Tracked.declStep (d : DeclId) :
    Tracks p stop (declStep image ev d)
      (declStep image ev' d >>= done A stop (image.program.introduced? d)) := by
  unfold Run.declStep Program.introduced? Decl.isFunction
  cases hk : (image.program.decl d).kind with
  | function _ _ _ => exact (tracks_of_keepsFile (keepsFile_initialise image hk)).done hA
  | «variable» type init storage =>
    have hgiven : Tracks p stop (initialise image d : Run κ Unit)
        (initialise image d >>= done A stop (some d)) :=
          tracks_given hA (givesVariable_initialise image hk)
    cases init with
    | none => exact hgiven
    | some init =>
      simp only [bind_assoc]
      exact (hev.expr init).bind fun _ => hgiven

omit [Console κ] hA in
/-- A statement is tracked through its parts. -/
theorem Tracked.stmtStep (rounds : Nat) (id : StmtId) :
    Tracks p stop (stmtStep image ev rounds id) (stmtStep image ev' rounds id) := by
  have hread {α : Type} {x : Run κ α} (hx : ReadOnly x) : Tracks p stop x x :=
    tracks_of_keepsFile (fileEffects.readOnly hx)
  refine tracks_composes.stmtStep rfl
      (tracks_of_keepsFile (fileEffects.within_focusOn _)) ?_ fun _ =>
    tracks_composes.loops (tracks_of_keepsFile (.throw fileEffects.toEffects _)) rounds
  exact tracks_composes.stmtParts hev (fun e => hread (readOnly_valueOf image e))
    (fun e => hread (readOnly_readReturned image e)) _

omit hev in
/-- The evaluator with assertions tracks the one without. -/
theorem tracked_asserting (fuel : Nat) :
    Tracked p stop (evaluator image fuel) (asserting image A stop fuel : Evaluator κ) := by
  induction fuel with
  | zero =>
    have hthrow : ∀ {α : Type}, Tracks p stop (throw .outOfFuel : Run κ α) (throw .outOfFuel) :=
      tracks_of_keepsFile (.throw fileEffects.toEffects _)
    exact ⟨fun _ => hthrow, fun _ => hthrow, fun _ => hthrow, fun _ => hthrow⟩
  | succ fuel ih =>
    exact {
      expr := fun e => (ih.exprStep hA e).between hA
      target := fun target => ((ih.targetStep target).done hA).between hA
      decl := fun d => (ih.declStep hA d).between hA
      stmt := fun id => ((ih.stmtStep fuel id).done hA).between hA }

/-! ## Runs -/

omit [Console κ] hA in
/-- A run with assertions tracks the one without. -/
theorem Tracked.runWith : Tracks p stop (runWith image ev) (runWith image ev') :=
  tracks_composes.runWith rfl hev (tracks_of_keepsFile (keepsFile_enterMain image))
    (tracks_of_keepsFile keepsFile_pop)

omit hev in
/-- The assertions hold throughout a run if they do at its end. -/
theorem asserts_iff_clean {fuel : Nat} {s : State κ} (hs : s.Clean p) :
    Asserts image A fuel s ↔ (endState (run image fuel s)).Clean p := by
  have htracks :
      ∀ stop, Tracks p stop (run image fuel) (Run.runWith image (asserting image A stop fuel)) :=
    fun stop => Tracked.runWith (tracked_asserting hA fuel)
  constructor
  · intro h
    -- a failing assertion would stop in the state that the run began with, which is clean
    have hkeeps := (htracks (.outOfFuel, s)).keeps hs hs
    rwa [h] at hkeeps
  · intro h stop
    exact ((htracks stop).alike s).resolve_right fun hunclean => hunclean h

end Run

end MiniC
