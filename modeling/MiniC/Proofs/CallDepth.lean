import MiniC.Proofs.ArrayIds
import MiniC.Proofs.GlobalInitialisation

/-!
# The depth of calls

The limit on the depth of calls is exact (`Run.call_depth_exact`). A call opens a frame just if
fewer frames of calls are there than the limit says, and no moment of a first run has more of them.
The entry function is entered without a check, so one frame there is even where the limit is zero.

The contract `Contract.depth` fixes the number of frames between the nodes of one call, and bounds
it where a computation halts. A call moves from one number to the next, after its check
(`Contract.Passed`).
-/

set_option autoImplicit false

namespace MiniC

/-- At most the given number of frames of calls are there. -/
def Assertion.depthAtMost {κ : Type} (bound : Nat) : Assertion κ :=
  ⟨fun s => decide (s.stack.calls.length ≤ bound), fun _ _ => true⟩

/-- The number of frames that a run may have: the limit, or one for the entry function. -/
def Config.mostCalls (config : Config) : Nat := max 1 config.maxCallDepth

namespace Contract

open Run

variable {κ : Type}

/-- The nodes of a call are carried out at a depth, and no halt is deeper than the bound. -/
def depth (κ : Type) (bound : Nat) (k : Nat) : Contract κ where
  inv s := s.stack.calls.length = k ∧ k ≤ bound
  evaluated _ _ := True
  halt _ s := s.stack.calls.length ≤ bound

namespace Depth

variable {image : Image} {bound k : Nat} {s t : State κ}

theorem length_le (hs : (depth κ bound k).inv s) : s.stack.calls.length ≤ bound := by
  obtain ⟨hlength, hk⟩ := hs
  exact hlength.trans_le hk

theorem later (hs : (depth κ bound k).inv s)
    (hlength : t.stack.calls.length = s.stack.calls.length) :
    (depth κ bound k).Later s t := ⟨⟨hlength.trans hs.1, hs.2⟩, fun _ _ => trivial⟩

theorem length_calls_modifyTop (stack : CallStack) (f : Frame → Frame) :
    (stack.modifyTop f).calls.length = stack.calls.length := Nat.succ.inj (stack.depth_modifyTop f)

theorem later_modifyTop (hs : (depth κ bound k).inv s) (f : Frame → Frame) :
    (depth κ bound k).Later s { s with stack := s.stack.modifyTop f } :=
      later hs (length_calls_modifyTop _ f)

theorem admits : (depth κ bound k).Admits image where
  focusOn _ hs := later_modifyTop hs _
  value hs _ _ := length_le hs
  fault _ _ hs := length_le hs

theorem performs (e : ExprId) : (depth κ bound k).Performs image e where
  toAdmits := admits
  bindExpr value hs := ⟨later_modifyTop hs _, trivial⟩
  bindTarget value _ hs := later_modifyTop hs _
  assignDecl value _ hs := by
    apply later hs
    dsimp only
    split
    · exact length_calls_modifyTop _ _
    · rfl
  outside hs hstack _ := later hs (by rw [hstack])
  unbound _ hs := length_le hs
  array _ _ hs _ _ _ := length_le hs
  valueless _ _ := trivial

theorem later_of_introduced {d : DeclId} (hs : (depth κ bound k).inv s)
    (h : Introduced image d s t) :
    (depth κ bound k).Later s t := by
  cases h with
  | function _ => exact .refl hs
  | array _ _ | value _ _ _ _ | zero _ _ => exact later hs (length_calls_modifyTop _ _)

end Depth

end Contract

namespace Run

open Contract

variable {κ : Type} [Console κ] {image : Image} {stop : Halt × State κ}

/-! ## No moment is too deep -/

theorem fulfilsAll_asserting_depth (ht : image.program.Tree) (fuel k : Nat) :
    (depth κ image.config.mostCalls k).FulfilsAll image (evaluator image fuel)
      (asserting image (.depthAtMost image.config.mostCalls) stop fuel) := by
  have hbetween {α : Type} {k : Nat} {gained : List ExprId} {x y : Run κ α} {d : Option DeclId}
      (hxy : (depth κ image.config.mostCalls k).Fulfils [] gained x y) :
      (depth κ image.config.mostCalls k).Fulfils [] gained x
        (between (.depthAtMost image.config.mostCalls) stop d y) :=
    hxy.between (fun _ hs => decide_eq_true (Depth.length_le hs)) (fun _ _ => rfl) stop d
  induction fuel generalizing k with
  | zero => exact fulfilsAll_outOfFuel fun _ hs => Depth.length_le hs
  | succ fuel ih =>
    refine ⟨fun e => hbetween ?_, fun e => hbetween ?_, fun d => hbetween ?_, fun id => hbetween ?_⟩
    · apply fulfils_exprStep ((ih k).operands e) (Depth.performs e)
      intro callee args returnType params body _ _ _
      -- the body is one deeper than the call, which was checked
      refine (Depth.performs e).fulfils_body (frameLocal_evaluator image fuel)
        (D := fun _ => depth κ image.config.mostCalls (k + 1)) callee ?_ ?_ fun _ _ _ h => h
      · rintro s values ⟨rfl, -⟩ hpassed
        have hdeeper : s.stack.calls.length + 1 ≤ image.config.mostCalls :=
          Nat.le_trans hpassed.depth (Nat.le_max_right 1 _)
        exact ⟨⟨rfl, hdeeper⟩, (ih _).stmt body⟩
      · rintro s u hs - heffect
        exact Depth.later hs (Nat.succ.inj heffect.depth)
    · exact ((ih k).operands e).targetStep ht
    · exact fulfils_declStep Depth.admits (fun init _ => (ih k).expr init) fun _ _ hs =>
        Depth.later_of_introduced hs
    · exact fulfils_stmtStep Depth.admits ((ih k).parts id) fuel fun _ _ hs => Depth.length_le hs

omit [Console κ] in
/-- The entry function is entered from the frame of the file. -/
theorem ensures_enterMain_depth (bound : Nat) (hbound : 1 ≤ bound) {t : State κ}
    (ht : (depth κ bound 0).inv t) :
    Ensures (enterMain image) t (fun _ u => (depth κ bound 1).inv u) (depth κ bound 0).halt := by
  apply (Contract.ensures_enterMain image t).mono
  · rintro body _ ⟨entry, returnType, params, -, -, rfl⟩
    exact ⟨congrArg (· + 1) ht.1, hbound⟩
  · rintro _ _ ⟨rfl, -⟩
    exact Depth.length_le ht

theorem runWith_of_depth {ev : Evaluator κ} {fuel : Nat} {s : State κ} (hs : s.stack.calls = [])
    (h : ∀ k, (depth κ image.config.mostCalls k).FulfilsAll image (evaluator image fuel) ev) :
    runWith image ev s = run image fuel s ∧
      (endState (run image fuel s)).stack.calls.length ≤ image.config.mostCalls := by
  have hone : 1 ≤ image.config.mostCalls := Nat.le_max_left 1 _
  have hstart : (depth κ image.config.mostCalls 0).inv s := ⟨by rw [hs]; rfl, Nat.zero_le _⟩
  obtain ⟨heq, hends⟩ := Contract.runWith hstart (h 0).decl
    (fun t ht => (ensures_enterMain_depth _ hone ht).mono (fun body u hu =>
      ⟨hu, (h 1).stmt body⟩) fun _ _ h => h)
    (fun _ _ h => h) fun _ _ h => h
  refine ⟨heq, ?_⟩
  change Ensures (run image fuel) s _ _ at hends
  unfold Ensures at hends
  cases hresult : run image fuel s with
  | error halt t =>
    rw [hresult] at hends
    exact hends
  | ok value t =>
    rw [hresult] at hends
    -- after a result the frame of the entry function is gone
    obtain ⟨u, hu, rfl⟩ := hends
    have hpop : u.stack.pop.2.calls.length ≤ u.stack.calls.length := by
      rcases u.stack with ⟨_ | ⟨frame, callers⟩, global⟩
      · exact Nat.le_refl _
      · exact Nat.le_succ _
    exact Nat.le_trans hpop (Depth.length_le hu)

/-! ## A call against the limit -/

omit [Console κ] in
theorem checkConversions_apply {pairs : List (DeclId × ExprId)}
    (h : ∀ pair ∈ pairs, isForbiddenConversion (image.program.decl pair.1).type
      (image.typeOf pair.2) = false)
    (s : State κ) :
    (pairs.forM fun (param, arg) => checkConversion image (image.program.decl param).type arg) s =
      .ok () s := by
  induction pairs with
  | nil => rfl
  | cons pair pairs ih =>
    rw [List.forall_mem_cons] at h
    change (checkConversion image (image.program.decl pair.1).type pair.2 >>= fun _ =>
      pairs.forM _) s = _
    have hpair : checkConversion image (image.program.decl pair.1).type pair.2 s = .ok () s := by
      change (if isForbiddenConversion _ (image.typeOf pair.2) then _ else _ : Run κ Unit) s = _
      rw [if_neg (Bool.eq_false_iff.1 h.1)]
      rfl
    rw [bind_apply, hpair]
    exact ih h.2

omit [Console κ] in
theorem values_apply {args : List ExprId} {values : List Int32} {s : State κ}
    (h : args.map s.stack.top.expr? = values.map some) :
    args.mapM (valueOf image) s = .ok values s := by
  induction args generalizing values with
  | nil =>
    obtain rfl : values = [] := by simpa using h.symm
    rfl
  | cons arg args ih =>
    cases values with
    | nil => simp at h
    | cons value values =>
      obtain ⟨hvalue, hvalues⟩ := List.cons.inj h
      rw [List.mapM_cons, bind_apply, valueOf_of_expr? image hvalue]
      dsimp only
      rw [bind_apply, ih hvalues]
      rfl

omit [Console κ] in
/-- A call whose arguments are in order opens a frame unless as many as the limit says are open. -/
theorem enterBody_apply {callee : DeclId} {args : List ExprId} {params : List DeclId} {s : State κ}
    {values : List Int32} (harity : params.length = args.length)
    (hconversions : ∀ pair ∈ params.zip args,
      isForbiddenConversion (image.program.decl pair.1).type (image.typeOf pair.2) = false)
    (hvalues : args.map s.stack.top.expr? = values.map some) (body : StmtId) :
    enterBody image callee params body args s =
      if image.config.maxCallDepth ≤ s.stack.calls.length then
        .error
          (.error (.fault (.recursionLimit image.config.maxCallDepth) (image.locationIn s.stack))) s
      else .ok () { s with stack := { s.stack with
        calls := .opened callee body (params.zip values) :: s.stack.calls } } := by
  unfold enterBody checkArity
  rw [if_neg (not_not_intro harity), pure_bind, bind_apply, checkConversions_apply hconversions]
  dsimp only
  rw [bind_apply, values_apply hvalues]
  dsimp only
  rw [bind_apply, get_apply]
  dsimp only
  -- the depth counts the frame of the file, which the limit does not
  by_cases hdeep : image.config.maxCallDepth ≤ s.stack.calls.length
  · have hchecked : image.config.maxCallDepth < s.stack.depth := Nat.lt_succ_of_le hdeep
    rw [if_pos hdeep, if_pos hchecked]
    rfl
  · have hchecked : ¬ image.config.maxCallDepth < s.stack.depth := mt Nat.le_of_lt_succ hdeep
    rw [if_neg hdeep, if_neg hchecked, openFrame_apply]

theorem enterCall_apply {e : ExprId} {callee : DeclId} {args : List ExprId} {returnType : CType}
    {params : List DeclId} {body : StmtId} {s : State κ} {values : List Int32}
    (hbuiltin : image.builtin? callee = none)
    (hkind : (image.program.decl callee).kind = .function returnType params (some body))
    (harity : params.length = args.length)
    (hconversions : ∀ pair ∈ params.zip args,
      isForbiddenConversion (image.program.decl pair.1).type (image.typeOf pair.2) = false)
    (hvalues : args.map s.stack.top.expr? = values.map some) :
    enterCall image e callee args s =
      if image.config.maxCallDepth ≤ s.stack.calls.length then
        .error
          (.error (.fault (.recursionLimit image.config.maxCallDepth) (image.locationIn s.stack))) s
      else .ok (some body) { s with stack := { s.stack with
        calls := .opened callee body (params.zip values) :: s.stack.calls } } := by
  unfold enterCall
  rw [hbuiltin]
  dsimp only
  rw [hkind]
  dsimp only
  rw [bind_apply, enterBody_apply harity hconversions hvalues]
  by_cases hdeep : image.config.maxCallDepth ≤ s.stack.calls.length
  · rw [if_pos hdeep, if_pos hdeep]
  · rw [if_neg hdeep, if_neg hdeep]
    rfl

/-! ## The limit is exact -/

/-- The limit on the depth of calls is exact. In the first run of a program, whenever a node is
begun or done and at the end, the frames of calls are at most as many as the limit says, or one for
the entry function. There are none where a variable of the file is introduced, and one where the
body of the entry function is begun. A call of a function with a body, whose arguments are as many
as the parameters, may go there and have values, is refused just if at least as many frames of calls
are open as the limit says; otherwise its frame is opened. -/
theorem call_depth_exact {source : String} {p : Program}
    (h : Program.parse source = .ok p) (config : Config) (console : κ) (fuel : Nat) :
    let image := Image.load p config
    let start := State.initial image console
    Asserts image (.depthAtMost config.mostCalls) fuel start ∧
    (endState (run image fuel start)).stack.calls.length ≤ config.mostCalls ∧
    (∀ before d after t, p.items.toList = before ++ .variable d :: after →
      before.forM (introduce (evaluator image fuel)) start = .ok () t → t.stack.calls.length = 0) ∧
    (∀ body t, startWith image (evaluator image fuel) start = .ok body t →
      t.stack.calls.length = 1) ∧
    ∀ (e : ExprId) (callee : DeclId) (args : List ExprId) (returnType : CType)
      (params : List DeclId) (body : StmtId)
      (s : State κ) (values : List Int32), image.builtin? callee = none →
      (p.decl callee).kind = .function returnType params (some body) → params.length = args.length →
      (∀ pair ∈ params.zip args, isForbiddenConversion (p.decl pair.1).type
        (image.typeOf pair.2) = false) →
      args.map s.stack.top.expr? = values.map some →
      enterCall image e callee args s =
        if config.maxCallDepth ≤ s.stack.calls.length then
          .error
            (.error (.fault (.recursionLimit config.maxCallDepth) (image.locationIn s.stack))) s
        else .ok (some body) { s with stack := { s.stack with
          calls := .opened callee body (params.zip values) :: s.stack.calls } } := by
  intro image start
  have ht : image.program.Tree := (Program.resolved_of_parse h).wellFormed.tree
  -- a contract for every number of frames, since nested evaluations begin with more of them
  have hkeeps (stop : Halt × State κ) (k : Nat) :
    (depth κ image.config.mostCalls k).FulfilsAll image
      (evaluator image fuel) (asserting image (.depthAtMost image.config.mostCalls) stop fuel) :=
    fulfilsAll_asserting_depth ht fuel k
  have hnone : start.stack.calls = [] := rfl
  refine ⟨fun stop => ?_, ?_, fun before d after t _ hbefore => ?_, fun body t hstart => ?_, ?_⟩
  · exact (runWith_of_depth hnone (hkeeps stop)).1
  · exact (runWith_of_depth hnone (hkeeps (.outOfFuel, start))).2
  · exact Nat.succ.inj (effect_of_forM_introduce hbefore).depth
  · obtain ⟨⟨⟩, u, hitems, henter⟩ := exists_of_bind_eq_ok hstart
    have hu : u.stack.calls.length = 0 := Nat.succ.inj (effect_of_forM_introduce hitems).depth
    exact ((ensures_enterMain_depth 1 (Nat.le_refl 1) ⟨hu, Nat.zero_le 1⟩).of_ok henter).1
  · intro e callee args returnType params body s values hbuiltin hkind harity hconversions hvalues
    exact enterCall_apply hbuiltin hkind harity hconversions hvalues

/-- With a limit of two, `f` calls itself once where no other function is open, but not inside
`main`: there the frames of `main` and of the first call are two already. A third one fits where the
limit is three. -/
theorem call_depth_exact_of_recursion :
    ∃ p, Program.parse
        "int f(int n) { if (n) return f(n - 1); return 7; } int g = f(1); int main() { return g + f(1); }" = .ok p ∧
      let image := Image.load p { maxCallDepth := 2 }
      let start := State.initial image (Scripted.ofInput [])
      let t := endState (run image 60 start)
      halt? (run image 60 start) = some (.error (.fault (.recursionLimit 2) ⟨1, 30⟩)) ∧
      Asserts image (.depthAtMost 2) 60 start ∧ t.stack.calls.length ≤ 2 ∧
      enterCall image ⟨4⟩ ⟨1⟩ [⟨3⟩] t =
        .error (.error (.fault (.recursionLimit 2) (image.locationIn t.stack))) t ∧
      ∃ body u, enterCall (Image.load p { maxCallDepth := 3 }) ⟨4⟩ ⟨1⟩ [⟨3⟩] t = .ok (some body) u ∧
        u.stack.calls.length = 3 := by
  obtain ⟨p, hp, hhalt, hlength, hbuiltin, hbuiltin', hkind, hconversions, hvalues⟩ :
    ∃ p, Program.parse
        "int f(int n) { if (n) return f(n - 1); return 7; } int g = f(1); int main() { return g + f(1); }" = .ok p ∧
      halt? (run (Image.load p { maxCallDepth := 2 }) 60
        (.initial (Image.load p { maxCallDepth := 2 }) (Scripted.ofInput []))) =
          some (.error (.fault (.recursionLimit 2) ⟨1, 30⟩)) ∧
      (endState (run (Image.load p { maxCallDepth := 2 }) 60
        (.initial (Image.load p { maxCallDepth := 2 }) (Scripted.ofInput [])))).stack.calls.length =
          2 ∧
      (Image.load p { maxCallDepth := 2 }).builtin? ⟨1⟩ = none ∧
      (Image.load p { maxCallDepth := 3 }).builtin? ⟨1⟩ = none ∧
      (p.decl ⟨1⟩).kind = .function .int [⟨0⟩] (some ⟨3⟩) ∧
      (∀ pair ∈ [(⟨0⟩ : DeclId)].zip [(⟨3⟩ : ExprId)],
        isForbiddenConversion (p.decl pair.1).type (p.expr pair.2).type = false) ∧
      [(⟨3⟩ : ExprId)].map (endState (run (Image.load p { maxCallDepth := 2 }) 60
        (.initial (Image.load p { maxCallDepth := 2 }) (Scripted.ofInput [])))).stack.top.expr? =
          [0].map some :=
    Program.exists_of_parse (by decide +kernel)
  obtain ⟨hasserts, hend, -, -, hcall⟩ :=
    call_depth_exact hp { maxCallDepth := 2 } (Scripted.ofInput []) 60
  obtain ⟨-, -, -, -, hcall'⟩ := call_depth_exact hp { maxCallDepth := 3 } (Scripted.ofInput []) 60
  have hsecond := hcall ⟨4⟩ ⟨1⟩ [⟨3⟩] .int [⟨0⟩] ⟨3⟩ _ [0] hbuiltin hkind rfl hconversions hvalues
  have hthird := hcall' ⟨4⟩ ⟨1⟩ [⟨3⟩] .int [⟨0⟩] ⟨3⟩ _ [0] hbuiltin' hkind rfl hconversions hvalues
  rw [if_pos (Nat.le_of_eq hlength.symm)] at hsecond
  rw [if_neg (by rw [hlength]; decide)] at hthird
  exact ⟨p, hp, hhalt, hasserts, hend, hsecond, ⟨3⟩, _, hthird, congrArg (· + 1) hlength⟩

end Run

end MiniC
