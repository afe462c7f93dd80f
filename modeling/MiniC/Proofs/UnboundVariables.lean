import MiniC.Proofs.EvaluationContract

/-!
# Where variables without a value are met

A run halts for a variable without a value (`Halt.unbound?`) only where it evaluates a name.
`Run.Raises E x` says that every halt of the computation `x` satisfies `E`. This is a contract that
asks for nothing else (`Contract.raising`); if `E` admits all halts for other reasons, whatever is
made of evaluations that fulfil it (`Run.RaisesAll`) does so too, unless it evaluates a name itself.
-/

set_option autoImplicit false

namespace MiniC

namespace Halt

/-- The name of the variable whose lack of a value a computation halts for. -/
def unbound? : Halt → Option String
  | .error (.fault (.unboundDeclaration name) _) => some name
  | _ => none

/-- Only a look for a value can fail to find one. -/
theorem unbound?_of_isLookup {cause : RuntimeFault} (h : cause.isLookup = false) (loc : Location) :
    (error (.fault cause loc)).unbound? = none := by
  cases cause with
  | unboundDeclaration name => cases h
  | _ => rfl

end Halt

namespace Contract

variable {κ : Type} {E : Halt → State κ → Prop} {s t : State κ} {image : Image} {e : ExprId}

/-- Nothing but the halts is looked at. -/
def raising (E : Halt → State κ → Prop) : Contract κ where
  inv _ := True
  evaluated _ _ := True
  halt := E

theorem later_raising : (raising E).Later s t := ⟨trivial, fun _ _ => trivial⟩

/-- Whatever is no lack of a value may be raised. -/
theorem admits_raising (hE : ∀ {h : Halt} {t : State κ}, h.unbound? = none →
    E h t) (image : Image) :
    (raising E).Admits image where
  focusOn _ _ := later_raising
  value _ _ _ := hE rfl
  fault loc hcause _ := hE (Halt.unbound?_of_isLookup hcause loc)

/-- What is done for an expression that is no name. -/
theorem performs_raising (hE : ∀ {h : Halt} {t : State κ}, h.unbound? = none → E h t)
    (he : ∀ d, (image.program.expr e).kind ≠ .declRef d) : (raising E).Performs image e where
  toAdmits := admits_raising hE image
  bindExpr _ _ := ⟨later_raising, trivial⟩
  bindTarget _ _ _ := later_raising
  assignDecl _ _ _ := later_raising
  outside _ _ _ := later_raising
  unbound hk _ := absurd hk (he _)
  array _ _ _ _ _ _ := hE rfl
  valueless _ _ := trivial

end Contract

namespace Run

open Contract

variable {κ α β : Type} {E : Halt → State κ → Prop}

/-- Every halt of the computation, from whatever state, satisfies `E`. -/
def Raises (E : Halt → State κ → Prop) (x : Run κ α) : Prop :=
  ∀ s, Ensures x s (fun _ _ => True) E

namespace Raises

variable {x : Run κ α} {given gained : List ExprId}

/-- A property of halts is a contract without conditions. -/
theorem fulfils (h : Raises E x) : (raising E).Fulfils given gained x x :=
  fun s _ _ => ⟨rfl, (h s).mono (fun _ _ _ => ⟨later_raising, fun _ _ => trivial⟩) fun _ _ h => h⟩

theorem of_fulfils (h : (raising E).Fulfils [] gained x x) : Raises E x :=
  fun s => (h s trivial nofun).2.mono (fun _ _ _ => trivial) fun _ _ h => h

/-- Computations may follow one another. -/
theorem bind {f : α → Run κ β} (hx : Raises E x) (hf : ∀ a, Raises E (f a)) :
    Raises E (x >>= f) := by
  intro s
  rw [ensures_bind]
  exact (hx s).mono (fun a t _ => hf a t) fun _ _ h => h

/-- To raise such halts only is kept by all ways of putting computations together. -/
theorem composes : Composes (Alone fun _ (x : Run κ _) => Raises E x) := ⟨fun _ _ => trivial, bind⟩

/-- A report does not look for a variable. -/
theorem report [Console κ] (hE : ∀ {h : Halt} {t : State κ}, h.unbound? = none →
    E h t) (image : Image)
    (e : ExprId) (construct : Unsupported) : Raises E (report image e construct : Run κ Unit) := by
  unfold Run.report
  dsimp only
  split
  · exact fun _ => hE rfl
  · exact fun _ => trivial

end Raises

/-! ## Evaluation -/

/-- Every halt of an evaluator satisfies `E`. -/
structure RaisesAll (E : Halt → State κ → Prop) (ev : Evaluator κ) : Prop where
  expr : ∀ e, Raises E (ev.expr e)
  target : ∀ e, Raises E (ev.target e)
  decl : ∀ d, Raises E (ev.decl d)
  stmt : ∀ id, Raises E (ev.stmt id)

namespace RaisesAll

variable {ev : Evaluator κ} (hev : RaisesAll E ev)
include hev

/-- Locating a target raises what its parts raise. -/
theorem targetStep (image : Image) (target : ExprId) : Raises E (targetStep image ev target) :=
  Raises.composes.alone (Raises.composes.targetStep rfl (fun o _ => hev.expr o) fun o _ =>
    hev.target o)

variable (hE : ∀ {h : Halt} {t : State κ}, h.unbound? = none → E h t) (image : Image)
include hE

/-- What is evaluated is no name. -/
theorem exprStep [Console κ] {e : ExprId} (he : ∀ d, (image.program.expr e).kind ≠ .declRef d) :
    Raises E (exprStep image ev e) := by
  have hoperands : (raising E).Operands image ev ev e :=
    ⟨fun c _ => (hev.expr c).fulfils, fun c _ => (hev.target c).fulfils⟩
  refine .of_fulfils (fulfils_exprStep hoperands (performs_raising hE he) ?_)
  intro callee args _ params body _ _ _
  have henter : Raises E (enterBody image callee params body args) := fun s =>
    (Contract.ensures_enterBody (admits_raising hE image) trivial (fun _ _ =>
      trivial) callee params body).mono (fun _ _ _ => trivial) fun _ _ h => h
  have hleave (value : Int32) : Raises E (leaveCall e value : Run κ Unit) := fun _ => trivial
  exact (henter.bind fun _ => (hev.stmt body).bind fun flow => hleave flow.value).fulfils

/-- A declaration raises what its initialiser raises. -/
theorem declStep (d : DeclId) : Raises E (declStep image ev d) :=
  .of_fulfils (fulfils_declStep (admits_raising hE image) (fun init _ => (hev.expr init).fulfils)
    fun _ _ _ _ => later_raising)

/-- A statement raises what its parts raise. -/
theorem stmtStep (rounds : Nat) (id : StmtId) : Raises E (stmtStep image ev rounds id) :=
  .of_fulfils (fulfils_stmtStep (admits_raising hE image)
    ⟨fun e _ => (hev.expr e).fulfils, fun d _ => (hev.decl d).fulfils, fun i _ =>
      (hev.stmt i).fulfils⟩
    rounds fun _ _ _ => hE rfl)

/-- A run raises what its nodes raise. -/
theorem runWith : Raises E (runWith image ev) := by
  intro s
  have hmain (t : State κ) : Ensures (enterMain image) t
      (fun body _ => True ∧ (raising E).Fulfils [] [] (ev.stmt body) (ev.stmt body)) E := by
    refine (ensures_enterMain image t).mono (fun body _ _ => ⟨trivial, (hev.stmt body).fulfils⟩) ?_
    rintro h _ ⟨-, rfl | ⟨_, _, rfl⟩⟩ <;> exact hE rfl
  have hrun := Contract.runWith (C := raising E) (D := raising E) (s := s) trivial
    (fun d => (hev.decl d).fulfils) (fun t _ => hmain t) (fun _ _ h => h) fun _ _ h => h
  exact hrun.2.mono (fun _ _ _ => trivial) fun _ _ h => h

end RaisesAll

end Run

end MiniC
