import MiniC.Proofs.Assertion
import MiniC.Proofs.Fuel
import MiniC.Proofs.OperationContract

/-!
# Conversions between arrays and pointers

An array's value is its id and a pointer's value is an address of the heap, so neither may go where
the other is expected. A value flows to a typed slot in four ways: as an argument, as the
initialiser of a variable, by an assignment and by a return (`Image.flows`, `Image.initFlows`,
`Image.returnFlows`). An evaluator that halts before anything is done with a misplaced value
(`Run.rejecting`) carries out every run as the evaluator does, unless it looks at the arguments of a
provided function: such a call only counts them.
-/

set_option autoImplicit false

namespace MiniC

/-! ## Flows of values -/

namespace Image

variable (image : Image)

/-- Whether an expression calls a provided function. -/
def callsBuiltin (e : ExprId) : Bool :=
  match (image.program.expr e).kind with
  | .call callee _ => (image.builtin? callee).isSome
  | _ => false

/-- How many arguments a call has to have; none will do if the function is not there. -/
def arity? (callee : DeclId) : Option Nat :=
  match image.builtin? callee with
  | some b => some b.arity
  | none =>
    match (image.program.decl callee).kind with
    | .function _ params (some _) => some params.length
    | _ => none

/-- The types of a function's parameters. -/
def paramTypes (callee : DeclId) : List CType :=
  match (image.program.decl callee).kind with
  | .function _ params _ => params.map fun param => (image.program.decl param).type
  | .variable .. => []

/-- The values that an expression hands over once its operands are evaluated, with the types of the
slots they go to: the arguments of a call that has as many as it should, and what is assigned to a
pointer. -/
def flows (e : ExprId) : List (CType × ExprId) :=
  match (image.program.expr e).kind with
  | .call callee args =>
    if image.arity? callee = some args.length then (image.paramTypes callee).zip args else []
  | .binary .assign lhs rhs =>
    if (image.typeOf lhs).isPointer then [(image.typeOf lhs, rhs)] else []
  | _ => []

/-- The value that initialises a pointer. -/
def initFlows (d : DeclId) : List (CType × ExprId) :=
  match (image.program.decl d).kind with
  | .variable type (some init) _ => if type.isPointer then [(type, init)] else []
  | _ => []

/-- The value that a function returns, if its result is a pointer. -/
def returnFlows (function : Option DeclId) (e : ExprId) : List (CType × ExprId) :=
  match function with
  | some function =>
    let expected := (image.program.decl function).type.result
    if expected.isPointer then [(expected, e)] else []
  | none => []

/-- The first value among some that must not go to its slot. -/
def misplaced? (flows : List (CType × ExprId)) : Option (CType × ExprId) :=
  flows.find? fun flow => Run.isForbiddenConversion flow.1 (image.typeOf flow.2)

/-- No call of a provided function has a misplaced argument. -/
def BuiltinsFit : Prop :=
  ∀ k < image.program.exprs.size, image.callsBuiltin ⟨k⟩ = true →
    image.misplaced? (image.flows ⟨k⟩) = none

instance : Decidable image.BuiltinsFit := inferInstanceAs (Decidable (∀ k < _, _ = _ → _ = none))

variable {image}

theorem BuiltinsFit.misplaced? (h : image.BuiltinsFit) {e : ExprId}
    (he : image.callsBuiltin e = true) :
    image.misplaced? (image.flows e) = none := by
  by_cases hlt : e.index < image.program.exprs.size
  · exact h e.index hlt he
  · simp [callsBuiltin, Program.expr, Array.getD, hlt, default] at he

end Image

namespace Run

variable {κ : Type} [Console κ] (image : Image)

/-! ## Halting at misplaced values -/

/-- Halts if one of the values must not go to its slot. -/
def reject (flows : List (CType × ExprId)) : Run κ Unit :=
  match image.misplaced? flows with
  | some (expected, source) =>
    fault (.arrayConversion expected (image.typeOf source)) (image.program.expr source).loc
  | none => return ()

/-- Evaluates an expression; if it is to be checked and one of its operands' values is misplaced, it
halts before anything is done with these. -/
def rejectingExpr (checked : ExprId → Bool) (ev : Evaluator κ) (e : ExprId) : Run κ Unit := do
  focusOn (.expr e)
  evalOperands image ev e
  if checked e && (image.misplaced? (image.flows e)).isSome then
    focusOn (.expr e)
    reject image (image.flows e)
  conclude image ev e

/-- Introduces a variable, unless the value of its initialiser is misplaced. -/
def rejectingDecl (ev : Evaluator κ) (d : DeclId) : Run κ Unit := do
  if let .variable _ (some init) _ := (image.program.decl d).kind then ev.expr init
  reject image (image.initFlows d)
  initialise image d

/-- Executes a statement, unless it returns a misplaced value. -/
def rejectingStmt (ev : Evaluator κ) (rounds : Nat) (id : StmtId) : Run κ Flow :=
  match (image.program.stmt id).kind with
  | .ret (some e) => do
    focusOn (.stmt id)
    ev.expr e
    reject image (image.returnFlows (← get).stack.top.function e)
    return .returned (← valueOf image e)
  | _ => stmtStep image ev rounds id

/-- The evaluator that halts before anything is done with a misplaced value; operands are looked at
where an expression is to be checked. -/
def rejecting (checked : ExprId → Bool) : Nat → Evaluator κ
  | 0 => evaluator image 0
  | fuel + 1 =>
    let ev := rejecting checked fuel
    { expr := fun e => rejectingExpr image checked ev e
      target := fun target => targetStep image ev target
      decl := fun d => rejectingDecl image ev d
      stmt := fun id => rejectingStmt image ev fuel id }

/-! ## Where conversions are checked -/

variable {image} {ev : Evaluator κ} {e : ExprId} {d : DeclId} {expected : CType} {source : ExprId}

omit [Console κ] in
theorem reject_of_misplaced {flows : List (CType × ExprId)}
    (h : image.misplaced? flows = some (expected, source)) :
    reject image flows =
      (fault (.arrayConversion expected (image.typeOf source)) (image.program.expr source).loc :
      Run κ Unit) := by
  rw [reject, h]

omit [Console κ] in
/-- Rejecting misplaced values first changes nothing where they are rejected anyway. -/
theorem reject_bind_eq {α : Type} {flows : List (CType × ExprId)} {x : Run κ α}
    (h : ∀ expected source, image.misplaced? flows = some (expected, source) →
      x = fault (.arrayConversion expected (image.typeOf source)) (image.program.expr source).loc) :
    (do reject image flows; x) = x := by
  cases hflow : image.misplaced? flows with
  | none => rw [reject, hflow, pure_bind]
  | some flow =>
    rw [reject_of_misplaced hflow, h _ _ hflow]
    rfl

omit [Console κ] in
theorem checkConversion_of_forbidden
    (h : isForbiddenConversion expected (image.typeOf source) = true) :
    checkConversion image expected source =
      (fault (.arrayConversion expected (image.typeOf source))
        (image.program.expr source).loc : Run κ Unit) := by
  unfold checkConversion
  exact if_pos h

/-- The only value to be looked at, if there is one. -/
theorem misplaced?_ite {c : Bool} {type : CType} {e : ExprId}
    (h : image.misplaced? (if c then [(type, e)] else []) = some (expected, source)) :
    c = true ∧ type = expected ∧ e = source ∧
      isForbiddenConversion type (image.typeOf e) = true := by
  cases c with
  | false => cases h
  | true =>
    rw [if_pos rfl, Image.misplaced?, List.find?_singleton] at h
    obtain ⟨hforbidden, heq⟩ := Option.ite_none_right_eq_some.1 h
    obtain ⟨rfl, rfl⟩ := Prod.mk.inj (Option.some.inj heq)
    exact ⟨rfl, rfl, rfl, hforbidden⟩

omit [Console κ] in
/-- A single value that goes to a pointer is what is checked there. -/
theorem reject_slot (type : CType) (e : ExprId) :
    reject image (if type.isPointer then [(type, e)] else []) =
      (if type.isPointer then checkConversion image type e else pure () : Run κ Unit) := by
  split
  · unfold reject checkConversion Image.misplaced? Image.typeOf
    rw [List.find?_singleton]
    dsimp only
    by_cases hforbidden : isForbiddenConversion type (image.program.expr e).type = true
    · rw [if_pos hforbidden, if_pos hforbidden]
    · rw [if_neg hforbidden, if_neg hforbidden]
  · rfl

omit [Console κ] in
theorem checkConversions_of_misplaced {pairs : List (DeclId × ExprId)}
    (h : image.misplaced? (pairs.map fun pair => ((image.program.decl pair.1).type, pair.2)) =
      some (expected, source)) :
    (pairs.forM fun (param, arg) => checkConversion image (image.program.decl param).type arg) =
      (fault (.arrayConversion expected (image.typeOf source))
        (image.program.expr source).loc : Run κ Unit) := by
  induction pairs with
  | nil => cases h
  | cons pair pairs ih =>
    change (checkConversion image (image.program.decl pair.1).type pair.2 >>=
      fun _ => pairs.forM _) = _
    unfold Image.misplaced? at h ih
    rw [List.map_cons, List.find?_cons] at h
    split at h
    · next hforbidden =>
      cases h
      rw [checkConversion_of_forbidden hforbidden]
      rfl
    · next hallowed =>
      have hpass : checkConversion image (image.program.decl pair.1).type pair.2 =
          (pure () : Run κ Unit) := by
        unfold checkConversion
        exact if_neg (Bool.eq_false_iff.1 hallowed)
      rw [hpass, pure_bind]
      exact ih h

/-- A call of a function of the program with a misplaced argument opens no frame. -/
theorem enterCall_of_misplaced {callee : DeclId} {args : List ExprId}
    (hb : image.builtin? callee = none) (harity : image.arity? callee = some args.length)
    (h : image.misplaced? ((image.paramTypes callee).zip args) = some (expected, source)) :
    enterCall image e callee args =
      (fault (.arrayConversion expected (image.typeOf source)) (image.program.expr source).loc :
        Run κ (Option StmtId)) := by
  unfold Image.arity? at harity
  unfold Image.paramTypes at h
  unfold enterCall
  rw [hb] at harity ⊢
  dsimp only at harity ⊢
  cases hk : (image.program.decl callee).kind with
  | «variable» _ _ _ =>
    rw [hk] at harity
    cases harity
  | function returnType params body =>
    rw [hk] at harity h
    cases body with
    | none => cases harity
    | some body =>
      have hlength : params.length = args.length := Option.some.inj harity
      unfold enterBody checkArity
      dsimp only at h ⊢
      rw [List.zip_map_left] at h
      rw [if_neg (not_not_intro hlength), pure_bind, checkConversions_of_misplaced h]
      rfl

/-- An expression whose operands have a misplaced value halts before anything is done with them. -/
theorem conclude_of_misplaced (hb : image.callsBuiltin e = false)
    (h : image.misplaced? (image.flows e) = some (expected, source)) :
    conclude image ev e = (do
      focusOn (.expr e)
      fault (.arrayConversion expected (image.typeOf source)) (image.program.expr source).loc) := by
  unfold Image.callsBuiltin at hb
  unfold Image.flows at h
  unfold conclude
  split at h
  · next callee args hk =>
    rw [hk] at hb ⊢
    dsimp only at hb ⊢
    split at h
    · next harity =>
      unfold finishCall
      rw [enterCall_of_misplaced
        (Option.not_isSome_iff_eq_none.1 (Bool.eq_false_iff.1 hb)) harity h]
      rfl
    · cases h
  · next lhs rhs hk =>
    rw [hk]
    -- of assignments only those to pointers are checked
    obtain ⟨hpointer, rfl, rfl, hforbidden⟩ := misplaced?_ite h
    dsimp only
    unfold binary assign
    dsimp only
    rw [if_pos hpointer, checkConversion_of_forbidden hforbidden]
    rfl
  · cases h

omit [Console κ] in
theorem initialise_of_misplaced
    (h : image.misplaced? (image.initFlows d) = some (expected, source)) :
    initialise image d =
      (fault (.arrayConversion expected (image.typeOf source))
        (image.program.expr source).loc : Run κ Unit) := by
  unfold Image.initFlows at h
  unfold initialise
  split at h
  · next type init storage hk =>
    obtain ⟨hpointer, rfl, rfl, hforbidden⟩ := misplaced?_ite h
    have hlength : type.length? = none := by
      rw [Option.eq_none_iff_forall_ne_some]
      intro length hlength
      have harray := CType.isArray_iff.2 ⟨length, hlength⟩
      rw [CType.isArray_eq_false_of_isPointer hpointer] at harray
      cases harray
    rw [hk]
    dsimp only
    rw [hlength]
    dsimp only
    rw [checkConversion_of_forbidden hforbidden]
    rfl
  · cases h

/-! ## Runs -/

theorem rejectingExpr_eq {checked : ExprId → Bool}
    (h : ∀ e, checked e = true → image.callsBuiltin e = true →
      image.misplaced? (image.flows e) = none) :
    rejectingExpr image checked ev = exprStep image ev := by
  funext e
  rw [exprStep_eq]
  unfold rejectingExpr
  congr 1
  funext _
  congr 1
  funext _
  -- a misplaced value halts the expression with the same error anyway
  split
  · next hcheck =>
    obtain ⟨hchecked, hsome⟩ := Bool.and_eq_true_iff.1 hcheck
    obtain ⟨flow, hflow⟩ := Option.isSome_iff_exists.1 hsome
    have hb : image.callsBuiltin e = false := by
      rw [Bool.eq_false_iff]
      intro hbuiltin
      rw [h e hchecked hbuiltin] at hflow
      cases hflow
    rw [reject_of_misplaced hflow, conclude_of_misplaced hb hflow]
    rfl
  · rfl

omit [Console κ] in
theorem rejectingDecl_eq : rejectingDecl image ev = declStep image ev := by
  funext d
  have hinitialise : (do reject image (image.initFlows d); initialise image d) =
      (initialise image d : Run κ Unit) :=
    reject_bind_eq fun _ _ => initialise_of_misplaced
  unfold rejectingDecl declStep
  cases (image.program.decl d).kind with
  | function _ _ _ => exact hinitialise
  | «variable» type init storage =>
    cases init with
    | none => exact hinitialise
    | some init => exact congrArg (fun x => ev.expr init >>= fun _ => x) hinitialise

omit [Console κ] in
theorem rejectingStmt_eq (rounds : Nat) :
    rejectingStmt image ev rounds = stmtStep image ev rounds := by
  funext id
  unfold rejectingStmt
  split
  · next e hk =>
    unfold stmtStep returnValue
    rw [hk]
    simp only [bind_assoc]
    congr 1
    funext _
    congr 1
    funext _
    congr 1
    funext s
    cases s.stack.top.function with
    | none => rfl
    | some function =>
      dsimp only
      rw [Image.returnFlows, reject_slot]
      split <;> simp only [pure_bind, bind_assoc]
  · rfl

theorem rejecting_eq {checked : ExprId → Bool}
    (h : ∀ e, checked e = true → image.callsBuiltin e = true →
      image.misplaced? (image.flows e) = none)
    (fuel : Nat) : rejecting image checked fuel = (evaluator image fuel : Evaluator κ) := by
  induction fuel with
  | zero => rfl
  | succ fuel ih =>
    unfold rejecting evaluator
    simp only [ih, rejectingExpr_eq h, rejectingDecl_eq, rejectingStmt_eq]

/-- A call with the wrong number of arguments, or of a function that is not there, does nothing. -/
theorem enterCall_of_arity {callee : DeclId} {args : List ExprId}
    (h : image.arity? callee ≠ some args.length) (s : State κ) :
    ∃ cause, ((∃ function expected, cause = .arityMismatch function expected args.length) ∨
        ∃ function, cause = .undefinedFunction function) ∧
      enterCall image e callee args s =
        .error (.error (.fault cause (image.locationIn s.stack))) s := by
  unfold Image.arity? at h
  unfold enterCall
  cases hb : image.builtin? callee with
  -- a built-in function checks how many arguments it has first of all
  | some b =>
    rw [hb] at h
    have harity : b.arity ≠ args.length := fun heq => h (congrArg some heq)
    refine ⟨_, .inl ⟨b.name, b.arity, rfl⟩, ?_⟩
    unfold callBuiltin checkArity
    dsimp only
    rw [if_pos harity]
    rfl
  | none =>
    rw [hb] at h
    dsimp only at h ⊢
    cases hk : (image.program.decl callee).kind with
    -- neither a variable nor a prototype can be called
    | «variable» _ _ _ => exact ⟨_, .inr ⟨(image.program.decl callee).name, rfl⟩, rfl⟩
    | function returnType params body =>
      cases body with
      | none => exact ⟨_, .inr ⟨(image.program.decl callee).name, rfl⟩, rfl⟩
      | some body =>
        rw [hk] at h
        have harity : params.length ≠ args.length := fun heq => h (congrArg some heq)
        refine ⟨_, .inl ⟨(image.program.decl callee).name, params.length, rfl⟩, ?_⟩
        unfold enterBody checkArity
        dsimp only
        rw [if_pos harity]
        rfl

/-- A call of a provided function does not look at the types of its arguments. -/
theorem ensures_callBuiltin (e : ExprId) (b : Builtin) (args : List ExprId) (s : State κ) :
    Ensures (callBuiltin image e b args) s (fun _ _ => True)
      fun h _ => ∀ expected found loc,
        h ≠ .error (.fault (.arrayConversion expected found) loc) := by
  -- an argument is read, but its type is not looked at
  have hvalue (arg : ExprId) {f : Int32 → Run κ Unit} {Q : Unit → State κ → Prop}
      (hf : ∀ value, Ensures (f value) s Q
        fun h _ => ∀ expected found loc,
          h ≠ .error (.fault (.arrayConversion expected found) loc)) :
      Ensures (valueOf image arg >>= f) s Q
        fun h _ => ∀ expected found loc,
          h ≠ .error (.fault (.arrayConversion expected found) loc) := by
    rw [ensures_bind, valueOf, ensures_bind, ensures_get]
    cases s.stack.top.expr arg with
    | ok value => exact hf value
    | error f => exact fun _ _ _ heq => by cases heq
  unfold callBuiltin checkArity
  by_cases harity : b.arity = args.length
  · rw [if_neg (not_not_intro harity), pure_bind]
    split
    · rw [callGet, ensures_bind, ensures_get]
      dsimp only
      rw [ensures_bind, ensures_set]
      split
      · trivial
      · exact fun _ _ _ heq => by cases heq
    · exact hvalue _ fun _ => trivial
    · refine hvalue _ fun size => ?_
      rw [ensures_bind, ensures_get]
      dsimp only
      cases s.heap.allocate size with
      | ok block => trivial
      | error f => exact fun _ _ _ heq => by cases heq
    · exact hvalue _ fun _ => trivial
    · trivial
  · rw [if_pos harity]
    exact fun _ _ _ heq => by cases heq

/-- Arrays do not get where a pointer is expected, nor anything else where an array is: every run
halts with an `arrayConversion` once the operands of an expression, an initialiser or a value to
return are evaluated and one of them is misplaced, before anything is done with it. Calls of
provided functions are the exception, which do not look at types; if none of these has a misplaced
argument, there is no exception. A call with the wrong number of arguments, or of a function without
a body, halts for that reason in the state that it was made in. -/
theorem misplaced_values_rejected (image : Image) (fuel : Nat) :
    runWith image (rejecting image (fun e => !image.callsBuiltin e) fuel) =
      (run image fuel : Run κ Int32) ∧
    (image.BuiltinsFit →
      runWith image (rejecting image (fun _ => true) fuel) = (run image fuel : Run κ Int32)) ∧
    (∀ e callee args (s : State κ), image.arity? callee ≠ some args.length →
      ∃ cause, ((∃ function expected, cause = .arityMismatch function expected args.length) ∨
          ∃ function, cause = .undefinedFunction function) ∧
        enterCall image e callee args s =
          .error (.error (.fault cause (image.locationIn s.stack))) s) ∧
    ∀ e b args expected found loc (s t : State κ),
      callBuiltin image e b args s ≠
        .error (.error (.fault (.arrayConversion expected found) loc)) t := by
  refine ⟨?_, fun hfit => ?_, fun e callee args s h => enterCall_of_arity h s,
    fun e b args expected found loc s t hfail => ?_⟩
  · rw [rejecting_eq fun e hchecked hbuiltin => ?_, run]
    simp only [hbuiltin, Bool.not_true, Bool.false_eq_true] at hchecked
  · rw [rejecting_eq fun e _ => hfit.misplaced?, run]
  · have hends : Ensures (callBuiltin image e b args) s _ _ := ensures_callBuiltin e b args s
    rw [Ensures, hfail] at hends
    exact hends expected found loc rfl

/-- The array goes to a function of the program, and only a number to a provided one. -/
theorem misplaced_values_rejected_of_filled_array :
    ∃ p, Program.parse
        "void PRINT(int n); void fill(int a[]) { a[0] = 7; }
         int main() { int a[2]; fill(a); PRINT(a[0]); return 0; }" = .ok p ∧
      let image := Image.load p {}
      image.BuiltinsFit ∧
        runWith image (rejecting image (fun _ => true) 100) = (run image 100 : Run Scripted Int32) ∧
        result? (run image 100 (.initial image (Scripted.ofInput []))) = some 0 := by
  obtain ⟨p, hp, hfit, hresult⟩ : ∃ p, Program.parse
        "void PRINT(int n); void fill(int a[]) { a[0] = 7; }
         int main() { int a[2]; fill(a); PRINT(a[0]); return 0; }" =
          .ok p ∧
      (Image.load p {}).BuiltinsFit ∧
        result? (run (Image.load p {}) 100 (.initial (Image.load p {}) (Scripted.ofInput []))) =
          some 0 :=
    Program.exists_of_parse (by decide +kernel)
  exact ⟨p, hp, hfit, (misplaced_values_rejected _ 100).2.1 hfit, hresult⟩

/-- An array is passed for the pointer that `FREE` is declared to take, and the run goes on; it
halts there if all operands are looked at. -/
theorem array_freed_as_pointer :
    ∃ p, Program.parse "void FREE(int *p); int main() { int a[2]; FREE(a); return 0; }" = .ok p ∧
      let image := Image.load p {}
      let start := State.initial image (Scripted.ofInput [])
      image.callsBuiltin ⟨1⟩ = true ∧
        image.misplaced? (image.flows ⟨1⟩) = some (.value .int 1 none, ⟨0⟩) ∧
        image.typeOf ⟨0⟩ = .value .int 0 (some 2) ∧
        result? (run image 100 start) = some 0 ∧
        halt? (runWith image (rejecting image (fun _ => true) 100) start) =
          some (.error
            (.fault (.arrayConversion (.value .int 1 none) (.value .int 0 (some 2))) ⟨1, 48⟩)) :=
  Program.exists_of_parse (by decide +kernel)

end Run

end MiniC
