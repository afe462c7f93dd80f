import MiniC.Proofs.Assertion
import MiniC.Proofs.HeldVariables
import MiniC.Proofs.UnboundVariables

/-!
# Definite binding

A local variable has a value whenever it is read or assigned to, provided that every declaration in
scope was executed and none reads the variable that it introduces (`Program.IntroducesFirst`). It is
enough to look at the expressions that name a variable: an evaluator that stops unless the variable
is one of the file or held by the frame of the latest call, before and after such an expression is
evaluated or located as the target of an assignment (`Run.guarded`), carries out every run as the
evaluator does. A run can then only halt for want of a value where it reads a variable of the file.
-/

set_option autoImplicit false

namespace MiniC

/-! ## Names of variables -/

/-- The declaration that a name refers to. -/
def ExprKind.reference? : ExprKind → Option DeclId
  | .declRef d => some d
  | _ => none

theorem ExprKind.reference?_eq_some_iff {kind : ExprKind} {d : DeclId} :
    kind.reference? = some d ↔ kind = .declRef d := by
  cases kind <;> simp [reference?]

namespace Program

variable {p : Program} {V : List DeclId} {e q : ExprId} {d : DeclId}

/-- The variable that an expression names, under any parentheses. -/
def named? (p : Program) (e : ExprId) : Option DeclId :=
  (p.expr (p.stripParens e)).kind.reference?.filter fun d => !(p.decl d).isFunction

theorem named?_eq_some_iff : p.named? e = some d ↔
    (p.expr (p.stripParens e)).kind = .declRef d ∧ (p.decl d).isFunction = false := by
  simp [named?, Option.filter_eq_some_iff, ExprKind.reference?_eq_some_iff]

theorem named?_of_declRef (hk : (p.expr e).kind = .declRef d) (hf : (p.decl d).isFunction = false) :
    p.named? e = some d := by
  have hstrip : p.stripParens e = e := by
    unfold stripParens
    cases p.exprs.size with
    | zero => rfl
    | succ bound => rw [stripParensWithin, hk]
  exact named?_eq_some_iff.2 ⟨by rw [hstrip, hk], hf⟩

/-- No initialiser of a local variable mentions the variable, and no branch of `if` and no body of
`while` is a declaration. -/
structure IntroducesFirst (p : Program) : Prop where
  initialisers : ∀ {d init q}, (p.decl d).init? = some init → p.Contains init q →
    (p.expr q).kind = .declRef d → p.IsGlobal d
  branches : p.BranchesDeclareNothing

theorem IntroducesFirst.orderly (h : p.IntroducesFirst) : p.Orderly p.named? where
  scope he hq hd := by
    obtain ⟨hk, hf⟩ := named?_eq_some_iff.1 hd
    refine (he (hq.trans (contains_stripParensWithin _)) hk).imp_right fun hfile => ?_
    exact isGlobal_iff.2 ⟨hfile.lt, hf, hfile.isFileLevel⟩
  initialisers hinit hq hd :=
    h.initialisers hinit (hq.trans (contains_stripParensWithin _)) (named?_eq_some_iff.1 hd).1
  branches := h.branches

/-- No expression up to the initialiser of a local variable names the variable. -/
def NamesAfterInitialisers (p : Program) : Prop :=
  ∀ k < p.decls.size, p.IsGlobal ⟨k⟩ ∨ ∀ init ∈ (p.decl ⟨k⟩).init?, ∀ i < init.index + 1,
    (p.expr ⟨i⟩).kind.reference? ≠ some ⟨k⟩

instance : Decidable p.NamesAfterInitialisers :=
  inferInstanceAs (Decidable (∀ k < _, _ ∨ ∀ init ∈ Decl.init? _, ∀ i < _, _))

/-- Nothing inside an expression comes after it in its program. -/
theorem introducesFirst_of_namesAfterInitialisers (hp : p.WellFormed)
    (hnames : p.NamesAfterInitialisers)
    (hbranches : p.BranchesDeclareNothing) : p.IntroducesFirst := by
  refine ⟨fun {d init q} hi hq hk => ?_, hbranches⟩
  by_cases hlt : d.index < p.decls.size
  · refine (hnames d.index hlt).resolve_right fun hnone => ?_
    exact hnone init hi q.index (Nat.lt_succ_of_le (hp.tree.index_le hq))
      (ExprKind.reference?_eq_some_iff.2 hk)
  · simp [decl, Array.getD, hlt, default, Decl.init?] at hi

end Program

namespace Run

variable {κ α : Type} {image : Image} {d : DeclId} {s : State κ}

/-! ## Guarded evaluation -/

/-- The variable, where there is one, is one of the file or held by the frame of the latest call. -/
def bound (p : Program) (named : Option DeclId) (s : State κ) : Bool :=
  named.all fun d => decide (p.IsGlobal d) || s.stack.holds d

/-- Carries out a computation for an expression, and stops as told unless the variable that the
expression names is bound before and after it. -/
def whileBound (image : Image) (stop : Halt × State κ) (e : ExprId) (x : Run κ Unit) :
    Run κ Unit := do
  require (bound image.program (image.program.named? e)) stop
  x
  require (bound image.program (image.program.named? e)) stop

/-- The evaluator that stops as told where a variable is named that is not bound. -/
def guarded [Console κ] (image : Image) (stop : Halt × State κ) : Nat → Evaluator κ
  | 0 => evaluator image 0
  | fuel + 1 =>
    let ev := guarded image stop fuel
    { expr := fun e => whileBound image stop e (exprStep image ev e)
      target := fun target => whileBound image stop target (targetStep image ev target)
      decl := fun d => declStep image ev d
      stmt := fun id => stmtStep image ev fuel id }

variable {stop : Halt × State κ}

theorem whileBound_apply (image : Image) (stop : Halt × State κ) (e : ExprId) (x : Run κ Unit)
    (s : State κ) :
    whileBound image stop e x s =
      if bound image.program (image.program.named? e) s = true then
        (x >>= fun _ => require (bound image.program (image.program.named? e)) stop) s
      else .error stop.1 stop.2 := by
  unfold whileBound
  rw [bind_apply, require]
  by_cases h : bound image.program (image.program.named? e) s = true
  · rw [if_pos h, if_pos h]
  · rw [if_neg h, if_neg h]

theorem whileBound_eq {e : ExprId} {x y : Run κ Unit} (h : y s = x s)
    (hs : bound image.program (image.program.named? e) s = true)
    (hx : Ensures x s (fun _ t => bound image.program (image.program.named? e) t = true) Anything) :
    whileBound image stop e y s = x s := by
  rw [whileBound_apply, if_pos hs, bind_apply, h]
  cases hresult : x s with
  | error _ _ => rfl
  | ok a t =>
    dsimp only
    rw [require, if_pos (hx.of_ok hresult)]

/-- Where everything inside an expression is bound, so is the variable that the expression names,
and it stays bound. -/
theorem bound_of_permits {e : ExprId} (h : image.program.Permits image.program.named? s.stack e) :
    bound image.program (image.program.named? e) s = true := by
  unfold bound
  cases hd : image.program.named? e with
  | none => rfl
  | some d => simpa using h e d (.self e) hd

theorem unhindered_guarded [Console κ] (hp : image.program.Resolved)
    (hfirst : image.program.IntroducesFirst) (stop : Halt × State κ) (fuel : Nat) :
    Unhindered image image.program.named? (evaluator image fuel) (guarded image stop fuel) := by
  induction fuel with
  | zero =>
    exact ⟨hfirst.orderly, frameLocal_evaluator image 0,
      introduces_evaluator hfirst.branches 0, fun _ => rfl, fun _ => rfl, fun _ _ =>
        rfl, fun _ _ => rfl⟩
  | succ fuel ih =>
    refine ⟨hfirst.orderly, frameLocal_evaluator image (fuel + 1),
      introduces_evaluator hfirst.branches (fuel + 1), fun {e s} hs => ?_, fun {e s} hs => ?_,
      fun _ hinit => ih.declStep hinit, fun hid hs => ih.stmtStep fuel hid hs⟩
    · refine whileBound_eq (ih.exprStep hp hs) (bound_of_permits hs) ?_
      refine (ih.frames.exprStep e s).mono (fun _ t ht => ?_) fun _ _ _ => trivial
      exact bound_of_permits (hs.effect ht.toEffect)
    · refine whileBound_eq (ih.targetStep hs) (bound_of_permits hs) ?_
      refine (ih.frames.targetStep e s).mono (fun _ t ht => ?_) fun _ _ _ => trivial
      exact bound_of_permits (hs.effect ht.toEffect)

/-! ## Variables without a value -/

/-- A computation that halts for want of a variable's value is reading a variable of the file. -/
def ReadsFile (p : Program) (h : Halt) (t : State κ) : Prop :=
  ∀ name loc, h = .error (.fault (.unboundDeclaration name) loc) →
    ∃ e d, t.stack.top.focus = some (.expr e) ∧ (p.expr e).kind = .declRef d ∧
      (p.expr e).loc = loc ∧ (p.decl d).name = name ∧ p.IsGlobal d

theorem readsFile_of_unbound?_eq_none {p : Program} {h : Halt} {t : State κ}
    (hh : h.unbound? = none) :
    ReadsFile p h t := by
  rintro name loc rfl
  cases hh

/-- A variable that is held by the frame of the latest call has a value there. -/
theorem ensures_valueOfDecl {e : ExprId} (hk : (image.program.expr e).kind = .declRef d)
    (hfocus : s.stack.top.focus = some (.expr e)) (hs : bound image.program (some d) s = true) :
    Ensures (valueOfDecl image d) s (fun _ _ => True) (ReadsFile image.program) := by
  unfold Ensures
  cases hvalue : (s.stack.top.decl? d).or (s.stack.global.decl? d) with
  | some value =>
    rw [valueOfDecl_of_some image hvalue]
    trivial
  | none =>
    rw [valueOfDecl_of_none image hvalue]
    rintro name loc heq
    obtain ⟨rfl, rfl⟩ : (image.program.decl d).name = name ∧ image.locationIn s.stack = loc := by
      simpa using heq
    obtain ⟨htop, -⟩ := Option.or_eq_none_iff.1 hvalue
    refine ⟨e, d, hfocus, hk, ?_, rfl, ?_⟩
    · rw [Image.locationIn, hfocus]
    · have hheld : s.stack.holds d ≠ true := fun h => by
        have hd := (CallStack.holds_iff.1 h).2
        rw [htop] at hd
        cases hd
      simpa [bound, hheld] using hs

theorem ensures_require {ok : State κ → Bool} (hstop : stop.1.unbound? = none) :
    Ensures (require ok stop) s (fun _ t => t = s ∧ ok s = true) (ReadsFile image.program) := by
  unfold Ensures require
  by_cases h : ok s = true
  · rw [if_pos h]
    exact ⟨rfl, h⟩
  · rw [if_neg h]
    exact readsFile_of_unbound?_eq_none hstop

theorem raises_require {ok : State κ → Bool} (hstop : stop.1.unbound? = none) :
    Raises (ReadsFile image.program) (require ok stop) :=
  fun _ => (ensures_require hstop).mono (fun _ _ _ => trivial) fun _ _ h => h

theorem raises_whileBound {e : ExprId} {x : Run κ Unit} (hx : Raises (ReadsFile image.program) x)
    (hstop : stop.1.unbound? = none) :
    Raises (ReadsFile image.program) (whileBound image stop e x) :=
  (raises_require hstop).bind fun _ => hx.bind fun _ => raises_require hstop

/-- The evaluation of a name, where the variable is bound. -/
theorem ensures_exprStep_name [Console κ] {ev : Evaluator κ} {e : ExprId}
    (hk : (image.program.expr e).kind = .declRef d)
    (hs : bound image.program (image.program.named? e) s = true) :
    Ensures (exprStep image ev e) s (fun _ _ => True) (ReadsFile image.program) := by
  have hE : ∀ {h : Halt} {t : State κ}, h.unbound? = none → ReadsFile image.program h t :=
    readsFile_of_unbound?_eq_none
  unfold exprStep
  rw [ensures_bind, focusOn, ensures_modifyStack, hk]
  dsimp only
  unfold reference
  dsimp only
  cases hd : (image.program.decl d).kind with
  | function _ _ _ =>
    dsimp only
    split
    · trivial
    · exact Raises.report hE image e _ _
  | «variable» type init storage =>
    -- a name is read in the top frame or in that of the file, and is bound in one of them
    have hname : image.program.named? e = some d :=
      Program.named?_of_declRef hk (by rw [Decl.isFunction, hd])
    rw [hname] at hs
    dsimp only
    split
    · rw [ensures_bind]
      refine (ensures_valueOfDecl hk ?_ ?_).mono (fun _ _ _ => trivial) fun _ _ h => h
      · rw [CallStack.top_modifyTop]
        rfl
      · have heffect : CallStack.ExprEffect (fun _ => False) s.stack _ :=
          CallStack.exprEffect_focusOn s.stack (.expr e)
        simp only [bound, Option.all_some, Bool.or_eq_true] at hs ⊢
        exact hs.imp_right heffect.toEffect.holds
    · exact Raises.report hE image e _ _

theorem raisesAll_guarded [Console κ] (hstop : stop.1.unbound? = none) (fuel : Nat) :
    RaisesAll (ReadsFile image.program) (guarded (κ := κ) image stop fuel) := by
  have hE : ∀ {h : Halt} {t : State κ}, h.unbound? = none → ReadsFile image.program h t :=
    readsFile_of_unbound?_eq_none
  induction fuel with
  | zero => exact ⟨fun _ _ => hE rfl, fun _ _ => hE rfl, fun _ _ => hE rfl, fun _ _ => hE rfl⟩
  | succ fuel ih =>
    refine ⟨fun e => ?_, fun target => raises_whileBound (ih.targetStep image target) hstop,
      fun d => ih.declStep hE image d, fun id => ih.stmtStep hE image fuel id⟩
    cases hr : (image.program.expr e).kind.reference? with
    | none =>
      refine raises_whileBound (ih.exprStep hE image fun d hk => ?_) hstop
      rw [ExprKind.reference?_eq_some_iff.2 hk] at hr
      cases hr
    -- a name is looked for only where the check before it has passed
    | some d =>
      have hk : (image.program.expr e).kind = .declRef d := ExprKind.reference?_eq_some_iff.1 hr
      intro s
      change Ensures (whileBound image stop e _) s _ _
      unfold whileBound
      rw [ensures_bind]
      refine (ensures_require hstop).mono ?_ fun _ _ h => h
      rintro _ _ ⟨rfl, hs⟩
      rw [ensures_bind]
      exact (ensures_exprStep_name hk hs).mono (fun _ t _ => raises_require hstop t) fun _ _ h => h

/-! ## Runs -/

/-- In a parsed program in which no branch of `if` and no body of a loop is a declaration and no
initialiser of a local variable mentions the variable, every variable is one of the file or held by
the frame of the latest call whenever it is read or assigned to, and no run, whatever came before
it, halts for want of a value of a local variable or a parameter. -/
theorem variables_bound_when_named [Console κ] {source : String} {p : Program}
    (h : Program.parse source = .ok p) (hfirst : p.IntroducesFirst) (config : Config) (fuel : Nat)
    (s : State κ) :
    (∀ stop, runWith (Image.load p config) (guarded (Image.load p config) stop fuel) s =
      run (Image.load p config) fuel s) ∧
    ∀ name loc t, run (Image.load p config) fuel s =
        .error (.error (.fault (.unboundDeclaration name) loc)) t →
      ∃ e d, t.stack.top.focus = some (.expr e) ∧ (p.expr e).kind = .declRef d ∧
        (p.expr e).loc = loc ∧ (p.decl d).name = name ∧ p.IsGlobal d := by
  have hp : (Image.load p config).program.Resolved := Program.resolved_of_parse h
  have hguarded :
    ∀ stop, runWith (Image.load p config) (guarded (Image.load p config) stop fuel) s =
      run (Image.load p config) fuel s := fun stop =>
    (unhindered_guarded hp hfirst stop fuel).runWith hp s
  refine ⟨hguarded, fun name loc t hrun => ?_⟩
  have hraises : Raises (ReadsFile p) (runWith (Image.load p config)
      (guarded (Image.load p config) (.outOfFuel, s) fuel)) :=
    (raisesAll_guarded rfl fuel).runWith readsFile_of_unbound?_eq_none (Image.load p config)
  have hend := hraises s
  rw [Ensures, hguarded, hrun] at hend
  exact hend name loc rfl

/-- Local variables with initialisers in nested blocks, in a loop and in a function that calls
itself. -/
theorem variables_bound_when_named_of_nested_calls :
    ∃ p, Program.parse
        "int f(int n) { int r = 1; if (n > 0) { int m = n - 1; r = n * f(m); } return r; }
         int main() { for (;;) { int v = f(3); return v; } }" = .ok p ∧ p.IntroducesFirst ∧
      let image := Image.load p {}
      let start := State.initial image (Scripted.ofInput [])
      (∀ stop, runWith image (guarded image stop 100) start = run image 100 start) ∧
      ∀ name loc t, run image 100 start =
        .error (.error (.fault (.unboundDeclaration name) loc)) t →
        ∃ e d, t.stack.top.focus = some (.expr e) ∧ (p.expr e).kind = .declRef d ∧
          (p.expr e).loc = loc ∧ (p.decl d).name = name ∧ p.IsGlobal d := by
  obtain ⟨p, hp, hnames, hbranches⟩ : ∃ p, Program.parse
      "int f(int n) { int r = 1; if (n > 0) { int m = n - 1; r = n * f(m); } return r; }
         int main() { for (;;) { int v = f(3); return v; } }" = .ok p ∧
        p.NamesAfterInitialisers ∧ p.BranchesDeclareNothing :=
    Program.exists_of_parse (by decide +kernel)
  have hfirst : p.IntroducesFirst := Program.introducesFirst_of_namesAfterInitialisers
    (Program.resolved_of_parse hp).wellFormed hnames hbranches
  exact ⟨p, hp, hfirst, variables_bound_when_named hp hfirst {} 100 _⟩

end Run

end MiniC
