import MiniC.Proofs.AlikeEvaluation
import MiniC.Proofs.Limits
import MiniC.Proofs.Transparency

/-!
# Runs of programs that differ in parentheses

A run of a program and a run of the same with other parentheses tell the same (`Run.TellSame`): the
value or the kind of error, the output, and the constructs without a meaning that were met, in this
order.
-/

set_option autoImplicit false

namespace MiniC.Run

open MiniC.Parenthesised

/-- The reasons to halt are of the same kind; where a value is missing, it may be that of another
expression. -/
inductive SameKind : Halt → Halt → Prop
  | fault (cause : RuntimeFault) (loc loc' : Location) :
    SameKind (.error (.fault cause loc)) (.error (.fault cause loc'))
  | unboundExpression (e e' : ExprId) (loc loc' : Location) :
    SameKind (.error (.fault (.memory (.unboundExpression e)) loc))
      (.error (.fault (.memory (.unboundExpression e')) loc'))
  | noEntryFunction : SameKind (.error .noEntryFunction) (.error .noEntryFunction)

/-- The runs ended with the same value or the same kind of error, the same output and the same kinds
of diagnostics in the same order. -/
structure TellSame (r r' : EStateM.Result Halt (State Scripted) Int32) : Prop where
  result : result? r' = result? r
  halt : Option.Rel SameKind (halt? r) (halt? r')
  output : (endState r').console.output = (endState r).console.output
  diagnostics :
    (endState r').diagnostics.map Diagnostic.construct =
      (endState r).diagnostics.map Diagnostic.construct

theorem SameKind.symm {h h' : Halt} (hk : SameKind h h') : SameKind h' h := by
  cases hk with
  | fault cause loc loc' => exact .fault cause loc' loc
  | unboundExpression e e' loc loc' => exact .unboundExpression e' e loc' loc
  | noEntryFunction => exact .noEntryFunction

/-- It does not matter which run is the first one. -/
theorem TellSame.symm {r r' : EStateM.Result Halt (State Scripted) Int32} (h : TellSame r r') :
    TellSame r' r where
  result := h.result.symm
  halt := by
    have hhalt := h.halt
    generalize halt? r = k, halt? r' = k' at hhalt
    cases hhalt with
    | none => exact .none
    | some hk => exact .some hk.symm
  output := h.output.symm
  diagnostics := h.diagnostics.symm

/-- Forgetting places makes no halt into one for want of fuel. -/
theorem eq_outOfFuel_of_forget {h : Halt} (hh : h.forget = .outOfFuel) : h = .outOfFuel := by
  obtain ⟨_ | _⟩ | _ := h
  · cases hh
  · cases hh
  · rfl

/-- A fault without its place was a fault at some place. -/
theorem exists_fault_of_forget {h : Halt} {cause : RuntimeFault} (hh : h.forget = .fault cause) :
    ∃ loc, h = .error (.fault cause loc) := by
  obtain ⟨⟨_, loc⟩ | _⟩ | _ := h
  · cases hh
    exact ⟨loc, rfl⟩
  · cases hh
  · cases hh

theorem eq_noEntryFunction_of_forget {h : Halt} (hh : h.forget = .noEntryFunction) :
    h = .error .noEntryFunction := by
  obtain ⟨_ | _⟩ | _ := h
  · cases hh
  · rfl
  · cases hh

/-- Halts that are alike without their places are of the same kind. -/
theorem sameKind_of_forget {h h' : Halt} (hh : h.forget.Alike h'.forget) (hdone : h ≠ .outOfFuel) :
    SameKind h h' := by
  generalize hk : h.forget = k, hk' : h'.forget = k' at hh
  cases hh with
  | same k =>
    cases k with
    | fault cause =>
      obtain ⟨loc, rfl⟩ := exists_fault_of_forget hk
      obtain ⟨loc', rfl⟩ := exists_fault_of_forget hk'
      exact .fault cause loc loc'
    | noEntryFunction =>
      rw [eq_noEntryFunction_of_forget hk, eq_noEntryFunction_of_forget hk']
      exact .noEntryFunction
    | outOfFuel => exact absurd (eq_outOfFuel_of_forget hk) hdone
  | unbound e e' =>
    obtain ⟨loc, rfl⟩ := exists_fault_of_forget hk
    obtain ⟨loc', rfl⟩ := exists_fault_of_forget hk'
    exact .unboundExpression e e' loc loc'

/-- States that are alike have the same output. -/
theorem output_eq_of_alike {s s' : State Scripted} (hs : s.forget.Alike s'.forget) :
    s'.console.output = s.console.output := by
  have hconsole : s'.forget.console = s.forget.console := by rw [hs.same]
  exact congrArg Scripted.output hconsole

/-- Runs that match without their places tell the same. -/
theorem tellSame_of_matching {r r' : EStateM.Result Halt (State Scripted) Int32}
    (h : Direct.Matching Eq (forgetOutcome r) (forgetOutcome r'))
    (hdone : halt? r ≠ some .outOfFuel) :
    TellSame r r' := by
  cases r with
  | ok value s =>
    cases r' with
    | ok value' s' =>
      cases h with
      | ok heq hs => exact ⟨congrArg some heq.symm, .none, output_eq_of_alike hs, hs.constructs⟩
    | error halt' s' => cases h
  -- where both halt, the kinds of their reasons are the same, as the fuel was enough
  | error halt s =>
    have hdone : halt ≠ .outOfFuel := fun heq => hdone (congrArg some heq)
    change Direct.Matching Eq (.error halt.forget s.forget) (forgetOutcome r') at h
    generalize hk : halt.forget = k at h
    cases r' with
    | ok value' s' =>
      cases h with
      | outOfFuel _ => exact absurd (eq_outOfFuel_of_forget hk) hdone
    | error halt' s' =>
      cases h with
      | error hh hs =>
        exact ⟨rfl, .some (sameKind_of_forget (hk ▸ hh) hdone),
          output_eq_of_alike hs, hs.constructs⟩
      | outOfFuel _ => exact absurd (eq_outOfFuel_of_forget hk) hdone

/-- A run without its tables and places is one of the direct evaluator. -/
theorem forgetOutcome_run {p : Program} (hp : p.WellFormed) (config : Config)
    (input : List Int32) (fuel : Nat) :
    forgetOutcome
      (run (Image.load p config) fuel (.initial (Image.load p config) (Scripted.ofInput input))) =
      Direct.run (Image.load p config) fuel
        (.initial (Image.load p config) (Scripted.ofInput input)) := by
  have hquiet : (State.initial (Image.load p config) (Scripted.ofInput input)).stack.Quiet
      (Image.load p config) :=
    ⟨Frame.quiet_empty none, nofun⟩
  have hrun :
      Simulates (run (Image.load p config) fuel) (Direct.run (Image.load p config) fuel) _ _ :=
    simulates_run hp fuel hquiet
  exact hrun.forgetOutcome_eq

/-- If a program that is the same except for parentheses has an outcome, so has the program, and the
outcomes tell the same. -/
theorem exists_runsTo {p p' : Program} (hp : p.WellFormed) (hp' : p'.WellFormed)
    (h : ProgramAlike .run p p')
    {config : Config} {input : List Int32} {r : EStateM.Result Halt (State Scripted) Int32}
    (hr : RunsTo p config input r) : ∃ r', RunsTo p' config input r' ∧ TellSame r r' := by
  obtain ⟨⟨fuel, hfuel⟩, hdone⟩ := hr
  have hmatch := Direct.agree_run (Direct.imageAlike_load h config) (Nat.le_refl (2 * fuel))
    (.initial (Image.load p config) (.ofInput input))
      (.initial (Image.load p' config) (.ofInput input)) (.refl _)
  rw [← forgetOutcome_run hp, ← forgetOutcome_run hp', hfuel] at hmatch
  have hsame := tellSame_of_matching hmatch hdone
  refine ⟨_, ⟨⟨2 * fuel, rfl⟩, fun hout => ?_⟩, hsame⟩
  have hhalt := hsame.halt
  rw [hout] at hhalt
  generalize halt? r = k at hhalt
  cases hhalt with
  | some hk => cases hk

/-- For every configuration and input, the runs of both programs end, and tell the same, or neither
ends. -/
def RunAlike (p p' : Program) : Prop :=
  ∀ config input,
    (∀ r, RunsTo p config input r → ∃ r', RunsTo p' config input r' ∧ TellSame r r') ∧
      ∀ r', RunsTo p' config input r' → ∃ r, RunsTo p config input r ∧ TellSame r r'

/-- Programs that are the same except for parentheses have runs that tell the same. -/
theorem runAlike {p p' : Program} (hp : p.WellFormed) (hp' : p'.WellFormed)
    (h : ProgramAlike .run p p') :
    RunAlike p p' := by
  refine fun config input => ⟨fun r hr => exists_runsTo hp hp' h hr, fun r' hr' => ?_⟩
  obtain ⟨r, hr, hsame⟩ := exists_runsTo hp' hp h.symm hr'
  exact ⟨r, hr, hsame.symm⟩

end MiniC.Run
