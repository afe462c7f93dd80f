import MiniC.Proofs.PointedRuns
import MiniC.Proofs.WellFormed

/-!
# Where a run reports

A run reports diagnostics and faults for places of the program. Whatever a frame works on is an
expression of the program, which is the scene that all of them belong to (`Image.everywhere`). So
all places that are reported are those of expressions, with one exception: a run that enters a
function without a body reports the place of its declaration (`Run.reports_run`).
-/

set_option autoImplicit false

namespace MiniC

/-! ## Places of expressions -/

namespace Program

/-- An expression of the program lies at a place. -/
def HasExprAt (p : Program) (loc : Location) : Prop :=
  ∃ e : ExprId, e.index < p.exprs.size ∧ (p.expr e).loc = loc

variable {p : Program}

theorem Contains.lt_size {e q : ExprId} (h : p.Contains e q) (hp : p.Tree)
    (he : e.index < p.exprs.size) :
    q.index < p.exprs.size := by
  induction h with
  | self => exact he
  | operand hc _ ih => exact ih (Nat.lt_trans (hp.lt hc) he)

theorem StmtContains.lt_size {id : StmtId} {q : ExprId} (h : p.StmtContains id q)
    (hp : p.WellFormed) :
    q.index < p.exprs.size := by
  induction h with
  | root hroot he => exact he.lt_size hp.tree (hp.roots hroot).lt
  | inner _ _ ih => exact ih

end Program

/-- What a halt reports is reported for an expression of the program. -/
def Halt.AtExpr (p : Program) : Halt → Prop
  | .error (.fault _ loc) => p.HasExprAt loc
  | .error .noEntryFunction => True
  | .outOfFuel => True

/-- The diagnostics were reported for expressions of the program. -/
def State.DiagnosticsAtExprs {κ : Type} (p : Program) (s : State κ) : Prop :=
  ∀ d ∈ s.diagnostics, p.HasExprAt d.loc

/-- What has no meaning is an expression of the program. -/
theorem Image.Meaningless.lt_size {image : Image} {e : ExprId} {construct : Unsupported}
    (h : image.Meaningless e construct) : e.index < image.program.exprs.size := by
  refine Decidable.byContradiction fun hsize => ?_
  have hdefault : image.program.expr e = default := by simp [Program.expr, Array.getD, hsize]
  cases h with
  | construct hc =>
    rw [unsupported?, hdefault] at hc
    cases hc
  | reference hk _ _ =>
    rw [hdefault] at hk
    cases hk

/-- The scene that all expressions of the program belong to, in whatever frame, with diagnostics for
expressions. -/
def Image.everywhere (image : Image) (hp : image.program.WellFormed) : image.Scene where
  encloses _ e := e.index < image.program.exprs.size
  kept d := image.program.HasExprAt d.loc
  operand he hc := Nat.lt_trans (hp.tree.lt hc) he
  body _ he := he.lt_size hp
  report h := ⟨_, h.lt_size, rfl⟩

namespace Run

/-- All diagnostics of a run, and its fault if there is one, are reported for expressions of the
program, unless the function to be entered has no body. -/
theorem reports_run {κ : Type} [Console κ] (image : Image) (hp : image.program.WellFormed)
    (fuel : Nat) {s : State κ} (hs : s.DiagnosticsAtExprs image.program) :
    Ensures (run image fuel) s (fun _ t => t.DiagnosticsAtExprs image.program)
      fun h t => t.DiagnosticsAtExprs image.program ∧
        (h.AtExpr image.program ∨ EntryLacksBody image h) := by
  have hplaced : s.Placed (image.everywhere hp) s.stack.site := ⟨hs, rfl⟩
  refine (ensures_run_points _ hplaced (fun d _ init hinit => (hp.inits hinit).lt) fuel).mono
    (fun _ _ h => h) ?_
  rintro h t ⟨ht, ⟨rfl, -⟩ | hlacks | ⟨-, rfl | ⟨e, he, -, hblamed⟩⟩⟩
  · exact ⟨ht, .inl trivial⟩
  · exact ⟨ht, .inr hlacks⟩
  · exact ⟨ht, .inl trivial⟩
  · refine ⟨ht, .inl ?_⟩
    cases h with
    | outOfFuel => trivial
    | error err =>
      cases err with
      | noEntryFunction => trivial
      | fault cause loc =>
        obtain ⟨⟨d, hd, hloc⟩, -⟩ := hblamed
        exact ⟨d, hd.lt_size hp.tree he, hloc⟩

end Run

end MiniC
