import MiniC.Proofs.Fuel

/-!
# Strict runs

A strict run is the run that is not strict, cut at the first report (`Run.strict_run_eq_cut`):
without a report the two are the same, and otherwise the strict one fails with the construct and the
place that the other one reported first, and has put out no more than it.
-/

set_option autoImplicit false

namespace MiniC

namespace Cut

variable {κ : Type} [Console κ]

/-- A strict run against one that goes on after reports: they are the same as long as nothing is
reported, and the first report stops the strict one. -/
def strict : Cut κ where
  related s t := s = t ∧ s.diagnostics = #[]
  stopped halt s t := ∃ d : Diagnostic, halt = .error (.fault (.unsupported d.construct) d.loc) ∧
    t.diagnostics[0]? = some d ∧ Console.Later s.console t.console
  stack := by
    rintro s _ ⟨rfl, _⟩
    rfl
  arrays := by
    rintro s _ ⟨rfl, _⟩
    rfl
  withStack := by
    rintro s _ ⟨rfl, h⟩ stack
    exact ⟨rfl, h⟩
  withArrays := by
    rintro s _ ⟨rfl, h⟩ arrays
    exact ⟨rfl, h⟩
  later := by
    rintro halt s t u ⟨d, rfl, hd, hc⟩ htu
    refine ⟨d, rfl, ?_, hc.trans htu.console⟩
    -- the diagnostics that are there stay the first ones
    obtain ⟨rest, hrest⟩ := htu.diagnostics
    rw [← Array.getElem?_toList] at hd ⊢
    rw [← hrest, List.getElem?_append_left (List.getElem?_eq_some_iff.1 hd).1, hd]

open Run in
/-- What reports nothing follows itself. -/
theorem follows_strict {α : Type} {x : Run κ α} (hx : Reportless x) : Follows strict x x := by
  constructor
  · rintro s _ ⟨rfl, hs⟩
    have h := hx s
    unfold Ensures at h
    cases hr : x s with
    | ok a t =>
      rw [hr] at h
      exact .ok ⟨rfl, h.diagnostics.trans hs⟩
    | error halt t =>
      rw [hr] at h
      exact .error ⟨rfl, h.diagnostics.trans hs⟩
  · exact hx.adds

open Run in
/-- A report stops the strict run, and is the first diagnostic of the other one. -/
theorem strict_report {image : Image} (hstrict : image.config.strict = true) {config : Config}
    (hconfig : config.strict = false) (e : ExprId) (construct : Unsupported) :
    Follows (strict (κ := κ)) (report image e construct)
      (report (image.withConfig config) e construct) := by
  constructor
  · -- under strict settings the report is the end, with the same kind and place
    rintro s _ ⟨rfl, hs⟩
    have hx : report image e construct s =
        .error (.error (.fault (.unsupported construct) (image.program.expr e).loc)) s := by
      simp only [report, hstrict, if_true]
      rfl
    have hy : endState (report (image.withConfig config) e construct s) =
        { s with
          stack := s.stack.modifyTop (·.bindExpr e 0)
          diagnostics := s.diagnostics.push ⟨construct, (image.program.expr e).loc⟩
          console := Console.notify ⟨construct, (image.program.expr e).loc⟩ s.console } := by
      simp only [report, Image.withConfig_config, hconfig, Bool.false_eq_true, if_false]
      rfl
    rw [hx]
    apply Matched.stopped
    rw [hy]
    refine ⟨⟨construct, (image.program.expr e).loc⟩, rfl, ?_, .notify _ (.refl _)⟩
    rw [hs]
    rfl
  · exact adds_report _ e construct

theorem strict_fits {image : Image} (hstrict : image.config.strict = true) :
    (strict (κ := κ)).Fits image { image.config with strict := false } where
  report e construct := strict_report hstrict rfl e construct
  load address := follows_strict (Run.reportless_load image _)
  store address value := follows_strict (Run.reportless_store image _ value)
  get e := follows_strict (Run.reportless_callGet image e)
  print arg := follows_strict (Run.reportless_callPrint image arg)
  malloc e arg := follows_strict (Run.reportless_callMalloc image e arg)
  depth h := by
    apply Run.Follows.of_get
    · intro s t hstack _
      rw [hstack]
    · intro s
      exact .ite ((Run.follows_faultHere image _).bind fun _ => h) h

end Cut

namespace Run

/-- A strict run of a program is the run that is not strict, cut at the first report. With any fuel,
where the latter run reports nothing, both have the same outcome, in the same state; where it
reports something, the strict run fails with the first of its diagnostics, and its output is a
prefix of the other's. -/
theorem strict_run_eq_cut (p : Program) (config : Config) (input : List Int32) (fuel : Nat) :
    let outcome (strict : Bool) : EStateM.Result Halt (State Scripted) Int32 :=
      run (Image.load p { config with strict }) fuel
        (.initial (Image.load p { config with strict }) (.ofInput input))
    match (endState (outcome false)).diagnostics[0]? with
    | none => outcome true = outcome false
    | some d => ∃ t : State Scripted,
        outcome true = .error (.error (.fault (.unsupported d.construct) d.loc)) t ∧
          t.console.output.toList <+: (endState (outcome false)).console.output.toList := by
  intro outcome
  have hfollows :
    Follows (Cut.strict (κ := Scripted)) (run (Image.load p { config with strict := true }) fuel)
      (run (Image.load p { config with strict := false }) (fuel + 0)) :=
    follows_run (Cut.strict_fits rfl) (fun h => absurd h (Nat.lt_irrefl 0)) fuel
  have hmatched : Matched Cut.strict (outcome true) (outcome false) := hfollows.matched ⟨rfl, rfl⟩
  -- what is left is about two ends that match
  generalize outcome true = r, outcome false = r' at hmatched
  cases hmatched with
  | @ok a s t h =>
    obtain ⟨rfl, hd⟩ := h
    simp only [endState, hd, List.getElem?_toArray, List.getElem?_nil]
  | @error halt s t h =>
    obtain ⟨rfl, hd⟩ := h
    simp only [endState, hd, List.getElem?_toArray, List.getElem?_nil]
  | @stopped halt s _ h =>
    obtain ⟨d, rfl, hd, hc⟩ := h
    rw [hd]
    exact ⟨s, rfl, Scripted.output_isPrefix hc⟩

end Run

end MiniC
