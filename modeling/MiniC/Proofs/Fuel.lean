import MiniC.Proofs.CutRuns

/-!
# Fuel

A run that does not run out of fuel is the same with more of it (`Run.run_add_spare`). So an image
has at most one outcome from a state (`Run.Ends`), which is the one of every run with enough fuel.
-/

set_option autoImplicit false

namespace MiniC

namespace Cut

variable {κ : Type} [Console κ]

/-- A run against the same run with more fuel: they differ only where the first ran out of it. -/
def fuel : Cut κ where
  related s t := s = t
  stopped halt _ _ := halt = .outOfFuel
  stack := by
    rintro s _ rfl
    rfl
  arrays := by
    rintro s _ rfl
    rfl
  withStack := by
    rintro s _ rfl stack
    rfl
  withArrays := by
    rintro s _ rfl arrays
    rfl
  later h _ := h

open Run in
/-- What only adds to the state follows itself. -/
theorem follows_fuel {α : Type} {x : Run κ α} (hx : Adds x) : Follows fuel x x := by
  constructor
  · rintro s _ rfl
    cases x s with
    | ok a t => exact .ok rfl
    | error halt t => exact .error rfl
  · exact hx

theorem fuel_fits (image : Image) : (fuel (κ := κ)).Fits image image.config where
  report e construct := follows_fuel (Run.adds_report image e construct)
  load address := follows_fuel (Run.reportless_load image _).adds
  store address value := follows_fuel (Run.reportless_store image _ value).adds
  get e := follows_fuel (Run.reportless_callGet image e).adds
  print arg := follows_fuel (Run.reportless_callPrint image arg).adds
  malloc e arg := follows_fuel (Run.reportless_callMalloc image e arg).adds
  depth h := by
    apply Run.Follows.of_get
    · intro s t hstack _
      rw [hstack]
    · intro s
      exact .ite ((Run.follows_faultHere image _).bind fun _ => h) h

end Cut

namespace Run

variable {κ : Type}

/-- Why a computation halted, if it did. -/
def halt? {α : Type} : EStateM.Result Halt (State κ) α → Option Halt
  | .ok _ _ => none
  | .error halt _ => some halt

theorem exists_of_halt? {α : Type} {r : EStateM.Result Halt (State κ) α} {halt : Halt}
    (h : halt? r = some halt) : ∃ t, r = .error halt t := by
  cases r with
  | ok a t => cases h
  | error halt' t =>
    cases h
    exact ⟨t, rfl⟩

theorem exists_of_result? {α : Type} {r : EStateM.Result Halt (State κ) α} {a : α}
    (h : result? r = some a) : ∃ t, r = .ok a t := by
  cases r with
  | ok a' t =>
    cases h
    exact ⟨t, rfl⟩
  | error halt t => cases h

theorem halt?_of_result {α : Type} {r : EStateM.Result Halt (State κ) α} {a : α}
    (h : result? r = some a) :
    halt? r = none := by
  cases r with
  | ok a s => rfl
  | error halt s => cases h

variable [Console κ] (image : Image)

theorem followed_without_fuel {c : Cut κ} : Followed c (evaluator image 0) (evaluator image 0) :=
  ⟨fun _ => .throw _, fun _ => .throw _, fun _ => .throw _, fun _ => .throw _⟩

/-- With any fuel, evaluation follows itself and in particular only adds. -/
theorem followed_self (fuel : Nat) :
    Followed (κ := κ) Cut.fuel (evaluator image fuel) (evaluator image fuel) :=
  followed_evaluator (Cut.fuel_fits image) (fun h => absurd h (Nat.lt_irrefl 0))
    (followed_without_fuel image) fuel

/-- Every evaluator follows the one without fuel, if running out of it is a way to be stopped. -/
theorem followed_of_spares {c : Cut κ} {spare : Nat} (hspare : c.Spares spare) :
    Followed c (evaluator image 0) (evaluator image spare) where
  expr e := follows_outOfFuel hspare ((followed_self image spare).expr e).adds (by rintro rfl; rfl)
  target e :=
    follows_outOfFuel hspare ((followed_self image spare).target e).adds (by rintro rfl; rfl)
  decl d := follows_outOfFuel hspare ((followed_self image spare).decl d).adds (by rintro rfl; rfl)
  stmt id :=
    follows_outOfFuel hspare ((followed_self image spare).stmt id).adds (by rintro rfl; rfl)

/-- Where a cut fits, a run under the second configuration with some more fuel follows that under
the first. -/
theorem follows_run {image : Image} {config : Config} {c : Cut κ} (fits : c.Fits image config)
    {spare : Nat} (hspare : c.Spares spare) (fuel : Nat) :
    Follows c (run image fuel) (run (image.withConfig config) (fuel + spare)) :=
  fits.operates.runWith
    (followed_evaluator fits hspare (followed_of_spares (image.withConfig config) hspare) fuel)

/-- What follows a computation that does not run out of fuel is the same. -/
theorem eq_of_follows {α : Type} {x y : Run κ α} (h : Follows Cut.fuel x y) {s : State κ}
    (hfuel : halt? (x s) ≠ some .outOfFuel) : y s = x s := by
  have hmatched := h.matched (Eq.refl s)
  generalize x s = r, y s = r' at hfuel hmatched
  cases hmatched with
  | ok hstate => exact congrArg _ (Eq.symm hstate)
  | error hstate => exact congrArg _ (Eq.symm hstate)
  | stopped hhalt =>
    cases hhalt
    exact absurd rfl hfuel

/-- A run that does not run out of fuel is the same with more of it. -/
theorem run_add_spare {fuel : Nat} {s : State κ}
    (hr : halt? (run image fuel s) ≠ some .outOfFuel) (spare : Nat) :
    run image (fuel + spare) s = run image fuel s := by
  have hspare : (Cut.fuel (κ := κ)).Spares spare := fun _ _ _ _ => rfl
  exact eq_of_follows (follows_run (Cut.fuel_fits image) hspare fuel) hr

/-- The state in which the first run of an image with some fuel ends, where there is nothing to
read. -/
def endOfRun (image : Image) (fuel : Nat) : State Scripted :=
  endState (run image fuel (.initial image (Scripted.ofInput [])))

/-! ## Outcomes -/

/-- From a state, a run of the image with enough fuel ends like this. -/
structure Ends (s : State κ) (r : EStateM.Result Halt (State κ) Int32) : Prop where
  run : ∃ fuel, run image fuel s = r
  done : halt? r ≠ some .outOfFuel

variable {image} {s : State κ} {r r' : EStateM.Result Halt (State κ) Int32}

/-- Whatever ends, ends in this way with more fuel too. -/
theorem Ends.of_add (h : Ends image s r) : ∃ fuel, ∀ spare, Run.run image (fuel + spare) s = r := by
  obtain ⟨⟨fuel, hfuel⟩, hdone⟩ := h
  exists fuel
  intro spare
  rw [← hfuel]
  apply run_add_spare
  rw [hfuel]
  exact hdone

theorem Ends.unique (h : Ends image s r) (h' : Ends image s r') : r = r' := by
  obtain ⟨fuel, hfuel⟩ := h.of_add
  obtain ⟨fuel', hfuel'⟩ := h'.of_add
  rw [← hfuel fuel', ← hfuel' fuel, Nat.add_comm]

end Run

end MiniC
