import MiniC.Proofs.ArrayValues
import MiniC.Proofs.Assertion
import MiniC.Proofs.EvaluationContract
import MiniC.Proofs.Fuel

/-!
# Ids of arrays stay valid

Where constructs without a meaning are errors, an expression of an array type can only be evaluated
if it is a name or in parentheses. So the id of an array goes from the declaration to names and to
parameters, and no operation makes one up: in every state between nodes the variables and
expressions of array types hold ids of arrays of the store (`State.ArraysFit`). A failed assignment
to an array may have given a value to an expression of an array type, but not to a variable
(`State.VariablesFit`).
-/

set_option autoImplicit false

namespace MiniC

namespace Contract

open Run

variable {κ : Type} {image : Image} {base : ArrayStore} {e : ExprId} {s t : State κ}

/-- The expression that a run failed at, where it did not find an array, does not access an
array. -/
def MissesOnly (image : Image) (h : Halt) (s : State κ) : Prop :=
  ∀ id loc, h = .error (.fault (.memory (.invalidArray id)) loc) →
    ∃ e c, s.stack.top.focus = some (.expr e) ∧ loc = (image.program.expr e).loc ∧
      image.through? e = some c ∧ (image.typeOf c).isArray = false

/-- Arrays stay in the store, and variables and expressions of array types hold ids of arrays. -/
def arrays (κ : Type) (image : Image) (base : ArrayStore) : Contract κ where
  inv s := base.Keeps s.arrays ∧ s.ArraysFit image.program
  evaluated e s := (image.typeOf e).isArray = true → (s.stack.top.expr? e).isSome = true
  halt h s := s.VariablesFit image.program ∧
    (s.arrays.lengths.size < ArrayStore.idCount → MissesOnly image h s)

namespace Arrays

theorem halt_of_variablesFit {h : Halt} (hs : s.VariablesFit image.program)
    (hh : ∀ id loc, h ≠ .error (.fault (.memory (.invalidArray id)) loc)) :
    (arrays κ image base).halt h s :=
  ⟨hs, fun _ id loc heq => absurd heq (hh id loc)⟩

/-- The top frame changes and still fits. -/
theorem later_modifyTop (hs : (arrays κ image base).inv s) {f : Frame → Frame}
    (hf : s.arrays.lengths.size < ArrayStore.idCount → ∀ frame, frame.Fits image.program s.arrays →
      (f frame).Fits image.program s.arrays)
    (hvalues : ∀ frame e, (frame.expr? e).isSome = true → ((f frame).expr? e).isSome = true) :
    (arrays κ image base).Later s { s with stack := s.stack.modifyTop f } := by
  refine ⟨⟨hs.1, fun hsize => ?_⟩, fun e he harray => ?_⟩
  · have hfit := hs.2 hsize
    exact CallStack.forall_frames_modifyTop hfit (hf hsize _ (CallStack.top_of_forall_frames hfit))
  · rw [CallStack.top_modifyTop]
    exact hvalues _ e (he harray)

theorem isSome_expr?_bindExpr (frame : Frame) (e c : ExprId) (value : Int32)
    (h : (frame.expr? c).isSome = true) :
    ((frame.bindExpr e value).expr? c).isSome = true := by
  rw [Frame.expr?_bindExpr]
  split
  · rfl
  · exact h

theorem later_bindExpr (hs : (arrays κ image base).inv s) {value : Int32}
    (hvalue : s.arrays.lengths.size < ArrayStore.idCount → (image.typeOf e).isArray = true →
      (s.arrays.length? value).isSome = true) :
    (arrays κ image base).Later s { s with stack := s.stack.modifyTop (·.bindExpr e value) } :=
  later_modifyTop hs (fun hsize _ hframe => hframe.bindExpr (hvalue hsize))
    fun frame c hc => isSome_expr?_bindExpr frame e c value hc

theorem later_bindDecl (hs : (arrays κ image base).inv s) {d : DeclId} {value : Int32}
    (hvalue : s.arrays.lengths.size < ArrayStore.idCount →
      (image.program.decl d).ArrayFits s.arrays value) :
    (arrays κ image base).Later s { s with stack := s.stack.modifyTop (·.bindDecl d value) } :=
  later_modifyTop hs (fun hsize _ hframe => hframe.bindDecl (hvalue hsize)) fun _ _ hc => hc

theorem admits : (arrays κ image base).Admits image where
  focusOn focus hs := later_modifyTop hs (fun _ _ hframe => hframe.focusOn focus) fun _ _ he => he
  value hs _ _ := halt_of_variablesFit hs.2.variablesFit fun _ _ => nofun
  fault {s cause} loc hcause hs := by
    refine halt_of_variablesFit hs.2.variablesFit fun id loc' heq => ?_
    obtain ⟨rfl, -⟩ : cause = .memory (.invalidArray id) ∧ loc = loc' := by simpa using heq
    cases hcause

/-! ## Expressions of other types -/

theorem performs (hp : image.program.ArraysTyped) (he : (image.typeOf e).isArray = false) :
    (arrays κ image base).Performs image e where
  toAdmits := admits
  bindExpr value hs :=
    ⟨later_bindExpr hs fun _ harray => by simp [he] at harray, fun harray => by simp [he] at harray⟩
  bindTarget value hk hs := later_bindExpr hs fun _ harray => by
    rw [Image.typeOf, hp.target hk] at harray
    exact absurd harray (Bool.eq_false_iff.1 he)
  assignDecl {s d} value hd hs := by
    obtain ⟨lhs, rhs, type, init, storage, -, -, hk, harray⟩ := Program.assigned?_eq_some_iff.1 hd
    have hfits : (image.program.decl d).ArrayFits s.arrays value :=
      Decl.arrayFits_of_isArray_eq_false (by rw [Decl.type, hk]; exact harray)
    have heffect : CallStack.ExprEffect (fun _ => False) s.stack _ := exprLocal_assignDecl d value s
    refine ⟨⟨hs.1, fun hsize => ?_⟩,
      fun c hc hcarray => by rw [heffect.exprs c not_false]; exact hc hcarray⟩
    have hfit := hs.2 hsize
    split
    · exact CallStack.forall_frames_modifyTop hfit
        ((CallStack.top_of_forall_frames hfit).bindDecl hfits)
    · exact CallStack.forall_frames_modifyGlobal hfit
        ((CallStack.forall_frames.1 hfit).2.bindDecl hfits)
  outside {s t} hs hstack hlengths := by
    have hkeeps := ArrayStore.keeps_of_lengths_eq hlengths
    refine ⟨⟨hs.1.trans hkeeps, fun hsize frame hframe => ?_⟩, fun c hc harray => ?_⟩
    · rw [hlengths] at hsize
      rw [hstack] at hframe
      exact (hs.2 hsize frame hframe).keeps hkeeps
    · rw [hstack]
      exact hc harray
  unbound _ hs := halt_of_variablesFit hs.2.variablesFit fun _ _ => nofun
  array {s c id} hthrough hpointer hs hfocus hc hnone := by
    refine ⟨hs.2.variablesFit, fun hsize id' loc heq => ?_⟩
    obtain ⟨-, rfl⟩ : id = id' ∧ image.locationIn s.stack = loc := by simpa using heq
    refine ⟨e, c, hfocus, by rw [Image.locationIn, hfocus], hthrough, ?_⟩
    -- an array would have been found
    rw [Bool.eq_false_iff]
    intro harray
    have htop := CallStack.top_of_forall_frames (hs.2 hsize)
    have hfound := htop.exprs c id hc harray
    rw [hnone] at hfound
    cases hfound
  valueless _ _ := fun harray => by simp [he] at harray

/-! ## Expressions of array types -/

section Arrays

variable [Console κ] {ev ev' : Evaluator κ}

theorem report_eq_fault (hstrict : image.config.strict = true) (construct : Unsupported) :
    report image e construct =
      (fault (.unsupported construct) (image.program.expr e).loc : Run κ Unit) := by
  unfold report
  exact if_pos hstrict

/-- A construct without a meaning ends the run. -/
theorem fulfils_report {given gained : List ExprId} (hstrict : image.config.strict = true)
    (construct : Unsupported) :
    (arrays κ image base).Fulfils given gained (report image e construct)
      (report image e construct) := by
  rw [report_eq_fault hstrict]
  exact fun s hs _ => ⟨rfl, halt_of_variablesFit hs.2.variablesFit fun _ _ => nofun⟩

omit [Console κ] in
theorem ensures_valueOfDecl (hs : (arrays κ image base).inv s) (d : DeclId) :
    Ensures (valueOfDecl image d) s (fun value t =>
      t = s ∧ (s.arrays.lengths.size < ArrayStore.idCount →
      (image.program.decl d).ArrayFits s.arrays value)) (arrays κ image base).halt := by
  unfold Ensures
  cases hvalue : (s.stack.top.decl? d).or (s.stack.global.decl? d) with
  | none =>
    rw [valueOfDecl_of_none image hvalue]
    exact halt_of_variablesFit hs.2.variablesFit fun _ _ heq => by cases heq
  | some value =>
    rw [valueOfDecl_of_some image hvalue]
    refine ⟨rfl, fun hsize => ?_⟩
    have hfit := hs.2 hsize
    rcases Option.or_eq_some_iff.1 hvalue with htop | ⟨-, hglobal⟩
    · exact (CallStack.top_of_forall_frames hfit).decls d value htop
    · exact (CallStack.forall_frames.1 hfit).2.decls d value hglobal

omit [Console κ] in
/-- The id of an array is given to the expression. -/
theorem ensures_bindId (hs : (arrays κ image base).inv s) {id : Int32}
    (hid : s.arrays.lengths.size < ArrayStore.idCount → (s.arrays.length? id).isSome = true) :
    Ensures (bindExpr e id) s (fun _ t => (arrays κ image base).Later s t ∧
      ∀ c ∈ [e], (arrays κ image base).evaluated c t) (arrays κ image base).halt := by
  refine ⟨later_bindExpr hs fun hsize _ => hid hsize, ?_⟩
  rw [List.forall_mem_singleton]
  intro _
  simp [Frame.expr?_bindExpr]

theorem fulfils_reference {d : DeclId}
    (harray : (image.program.decl d).type.isArray = true) :
    (arrays κ image base).Fulfils [] [e] (reference image e d) (reference image e d) := by
  intro s hs _
  refine ⟨rfl, ?_⟩
  cases hk : (image.program.decl d).kind with
  | function _ _ _ =>
    rw [Decl.type, hk] at harray
    cases harray
  | «variable» type _ _ =>
    have htype : (type.isInteger || type.isPointer || type.isArray) = true := by
      rw [Decl.type, hk] at harray
      rw [show type.isArray = true from harray, Bool.or_true]
    unfold reference
    dsimp only
    rw [hk]
    dsimp only
    rw [if_pos htype, ensures_bind]
    refine (ensures_valueOfDecl hs d).mono ?_ fun _ _ h => h
    rintro value _ ⟨rfl, hfits⟩
    exact ensures_bindId hs fun hsize => (hfits hsize).isSome harray

omit [Console κ] in
theorem fulfils_paren {inner : ExprId} (harray : (image.typeOf inner).isArray = true) :
    (arrays κ image base).Fulfils [inner] [e] (do bindExpr e (← valueOf image inner))
      (do bindExpr e (← valueOf image inner)) := by
  intro s hs hknown
  refine ⟨rfl, ?_⟩
  rw [ensures_bind]
  refine (admits.ensures_valueOf hs (hknown inner (by simp))).mono ?_ fun _ _ h => h
  rintro value _ ⟨rfl, hvalue⟩
  exact ensures_bindId hs fun hsize =>
    (CallStack.top_of_forall_frames (hs.2 hsize)).exprs inner value hvalue harray

/-- Nothing is assigned to an array. -/
theorem assignTarget_eq_report (hp : image.program.ArraysTyped) {target : ExprId}
    (harray : (image.typeOf target).isArray = true) (value : Int32) :
    assignTarget image e target value = (report image e .assignmentTarget : Run κ Unit) := by
  have hform := hp.form harray
  unfold assignTarget
  -- of the targets that are places only a name can be an array, and arrays are not assigned to
  cases hk : (image.program.expr target).kind with
  | declRef d =>
    rw [hk] at hform
    cases hform with
    | declRef harray =>
      dsimp only
      unfold Decl.type at harray
      split
      · next type _ _ hd =>
        rw [hd] at harray
        exact if_pos harray
      · rfl
  | unary op operand =>
    rw [hk] at hform
    cases hform with
    | unary hderef _ =>
      cases op with
      | deref => exact absurd rfl hderef
      | neg | plus | not | bitNot | preInc | preDec | postInc | postDec | addressOf => rfl
  | subscript base index =>
    rw [hk] at hform
    cases hform
  | intLiteral _ | paren _ | binary _ _ _ | call _ _ | cast _ | sizeOf _ => rfl

theorem fulfils_assign (hp : image.program.ArraysTyped) (hstrict : image.config.strict = true)
    {given : List ExprId} {lhs rhs : ExprId} (harray : (image.typeOf lhs).isArray = true)
    (hr : rhs ∈ given) :
    (arrays κ image base).Fulfils given [e] (assign image e lhs rhs) (assign image e lhs rhs) := by
  intro s hs hknown
  refine ⟨rfl, ?_⟩
  have hpointer : ¬ (image.typeOf lhs).isPointer = true := by
    intro hpointer
    rw [CType.isArray_eq_false_of_isPointer hpointer] at harray
    cases harray
  unfold assign
  dsimp only
  rw [if_neg hpointer, ensures_bind]
  refine (admits.ensures_valueOf hs (hknown rhs hr)).mono ?_ fun _ _ h => h
  rintro value _ ⟨rfl, -⟩
  rw [ensures_bind, bindExpr, ensures_modifyStack, ensures_bind, bindExpr, ensures_modifyStack,
    assignTarget_eq_report hp (hp.stripParens harray), report_eq_fault hstrict, ensures_fault]
  -- the two expressions may have a value that is no id, but no variable has
  refine halt_of_variablesFit (fun hsize => ?_) fun _ _ heq => by cases heq
  have hfit := hs.2.variablesFit hsize
  have hlhs := CallStack.forall_frames_modifyTop hfit (f := fun frame => frame.bindExpr lhs value)
    (CallStack.top_of_forall_frames hfit)
  exact CallStack.forall_frames_modifyTop hlhs (CallStack.top_of_forall_frames hlhs)

/-- An expression of an array type gets the id of an array, or ends the run. -/
theorem fulfils_conclude_of_array (hp : image.program.ArraysTyped)
    (hstrict : image.config.strict = true) (harray : (image.typeOf e).isArray = true) :
    (arrays κ image base).Fulfils (image.program.asked e)
    [e] (conclude image ev e) (conclude image ev' e) := by
  have hfocus {given : List ExprId} :
      (arrays κ image base).Fulfils given [] (focusOn (.expr e)) (focusOn (.expr e)) :=
    admits.fulfils_focusOn _
  have hform := hp.form harray
  unfold conclude Program.asked
  cases hk : (image.program.expr e).kind with
  | intLiteral _ | sizeOf _ | cast _ | call _ _ | subscript _ _ =>
    -- none of these forms has the type of an array
    rw [hk] at hform
    cases hform
  | declRef d =>
    rw [hk] at hform
    cases hform with
    | declRef hd => exact fulfils_reference hd
  | paren inner =>
    rw [hk] at hform
    cases hform with
    | paren hinner => exact fulfils_paren hinner
  | unary op operand =>
    rw [hk] at hform
    cases hform with
    | unary hderef hfunction =>
      refine hfocus.andThen fun _ => ?_
      cases op with
      | deref => exact absurd rfl hderef
      | neg | plus | not | bitNot => cases hfunction
      -- operators without a meaning are reported, which ends the run under strict settings
      | preInc | preDec | postInc | postDec | addressOf => exact fulfils_report hstrict _
  | binary op lhs rhs =>
    rw [hk] at hform
    refine hfocus.andThen fun _ => ?_
    cases hform with
    | assign hlhs => exact fulfils_assign hp hstrict hlhs (by simp [BinaryOp.isAssignment])
    | compoundAssign => exact fulfils_report hstrict _

end Arrays

/-! ## Calls and declarations -/

section Frames

variable {bindings : List (DeclId × Int32)} {callee : DeclId} {params : List DeclId}
    {args : List ExprId}
  {values : List Int32}

theorem fits_opened
    (h : ∀ binding ∈ bindings, (image.program.decl binding.1).ArrayFits base binding.2)
    (body : StmtId) : (Frame.opened callee body bindings).Fits image.program base := by
  have hbind (frame : Frame) (hframe : frame.Fits image.program base) :
      (frame.bindDecls bindings).Fits image.program base := by
    induction bindings generalizing frame with
    | nil => exact hframe
    | cons binding bindings ih =>
      obtain ⟨hbinding, hbindings⟩ := List.forall_mem_cons.1 h
      exact ih hbindings _ (hframe.bindDecl hbinding)
  exact (hbind _ (Frame.fits_empty _)).focusOn _

/-- A new frame on top of frames that fit. -/
theorem inv_push (hs : (arrays κ image base).inv s) {frame : Frame}
    (hframe : s.arrays.lengths.size < ArrayStore.idCount → frame.Fits image.program s.arrays) :
    (arrays κ image base).inv
      { s with stack := { s.stack with calls := frame :: s.stack.calls } } := by
  refine ⟨hs.1, fun hsize => ?_⟩
  obtain ⟨hcalls, hglobal⟩ := CallStack.forall_frames.1 (hs.2 hsize)
  exact CallStack.forall_frames.2 ⟨List.forall_mem_cons.2 ⟨hframe hsize, hcalls⟩, hglobal⟩

/-- The arguments of a call fit the parameters: an array goes only where an array is expected. -/
theorem arrayFits_of_passed (hs : (arrays κ image base).inv s)
    (h : Passed image params args s values)
    (hparams : ∀ d ∈ params, (image.program.decl d).storage? = some .param)
    (hsize : s.arrays.lengths.size < ArrayStore.idCount) :
    ∀ binding ∈ params.zip values, (image.program.decl binding.1).ArrayFits s.arrays binding.2 := by
  rintro ⟨param, value⟩ hmem
  have hzip : (params.zip values).map (Prod.map id some) =
      (params.zip args).map (Prod.map id s.stack.top.expr?) := by
    rw [← List.zip_map_right, ← List.zip_map_right, h.values]
  obtain ⟨⟨param', arg⟩, harg, heq⟩ :
      ∃ pair ∈ params.zip args, Prod.map id s.stack.top.expr? pair = (param, some value) := by
    rw [← List.mem_map, ← hzip]
    exact List.mem_map_of_mem hmem
  obtain ⟨rfl, hvalue⟩ := Prod.mk.inj heq
  intro length hlength
  -- the types of argument and parameter were compared before
  have hallowed := h.conversions _ harg
  have hexpected : (image.program.decl param').type.isArray = true :=
    CType.isArray_iff.2 ⟨length, hlength⟩
  have hfound : (image.typeOf arg).isArray = true := by
    unfold isForbiddenConversion at hallowed
    simpa [hexpected] using (Bool.or_eq_false_iff.1 hallowed).2
  refine ⟨(CallStack.top_of_forall_frames (hs.2 hsize)).exprs arg value hvalue hfound,
    fun hstorage => ?_⟩
  exact absurd (hparams param' (List.of_mem_zip hmem).1) hstorage

/-- A declaration makes a new array, or introduces a variable that is none. -/
theorem later_of_introduced {d : DeclId} (hs : (arrays κ image base).inv s)
    (h : Introduced image d s t) :
    (arrays κ image base).Later s t := by
  have hplain {type : CType} {init : Option ExprId} {storage : Storage} {value : Int32}
      (hk : (image.program.decl d).kind = .variable type init storage)
        (hlength : type.length? = none) :
      (image.program.decl d).ArrayFits s.arrays value := by
    intro length h
    rw [Decl.type, hk, hlength] at h
    cases h
  cases h with
  | function _ => exact .refl hs
  | value hk hlength _ _ => exact later_bindDecl hs fun _ => hplain hk hlength
  | zero hk hlength => exact later_bindDecl hs fun _ => hplain hk hlength
  | @array type init storage length hk hlength =>
    -- the new array comes after the others, whose ids stay what they were
    have hkeeps := ArrayStore.keeps_create s.arrays length s.stack.calls.length
    have hnew : (arrays κ image base).inv
        { s with arrays := (s.arrays.create length s.stack.calls.length).2 } := by
      refine ⟨hs.1.trans hkeeps, fun hsize frame hframe => ?_⟩
      exact (hs.2 (Nat.lt_of_le_of_lt hkeeps.size_le hsize) frame hframe).keeps hkeeps
    have hfits
      (hsize : (s.arrays.create length s.stack.calls.length).2.lengths.size < ArrayStore.idCount) :
        (image.program.decl d).ArrayFits (s.arrays.create length s.stack.calls.length).2
          (s.arrays.create length s.stack.calls.length).1 := by
      intro length' h
      rw [Decl.type, hk] at h
      obtain rfl : length = length' := Option.some.inj (hlength.symm.trans h)
      have hfound := ArrayStore.length?_create length s.stack.calls.length
        (Nat.lt_of_le_of_lt hkeeps.size_le hsize)
      exact ⟨by rw [hfound]; rfl, fun _ => hfound⟩
    have hbind := later_bindDecl hnew hfits
    exact ⟨hbind.inv, hbind.evaluated⟩

end Frames

end Arrays

/-- Assertions that follow from the invariant of a contract change nothing. -/
theorem Fulfils.between {α : Type} {C : Contract κ} {given gained : List ExprId} {x y : Run κ α}
    (h : C.Fulfils given gained x y) {A : Assertion κ} (halways : ∀ s, C.inv s → A.always s = true)
    (hgiven : ∀ d s, A.given d s = true) (stop : Halt × State κ) (d : Option DeclId) :
    C.Fulfils given gained x (between A stop d y) := by
  intro s hs hknown
  obtain ⟨heq, hends⟩ := h s hs hknown
  refine ⟨?_, hends⟩
  unfold Run.between
  rw [bind_apply, require, if_pos (halways s hs)]
  dsimp only
  rw [bind_apply, heq]
  cases hresult : x s with
  | error _ _ => rfl
  | ok a t =>
    have hall : d.all (A.given · t) = true := by cases d <;> simp [hgiven]
    dsimp only
    rw [done_apply, halways t (hends.of_ok hresult).1.inv, hall]
    rfl

end Contract

/-- In every frame, variables and expressions of array types hold ids of arrays. -/
def Assertion.arraysFit {κ : Type} (p : Program) : Assertion κ :=
  ⟨fun s => decide (s.ArraysFit p), fun _ _ => true⟩

namespace Run

open Contract

variable {κ : Type} [Console κ] {image : Image} {stop : Halt × State κ}
    {ev : Evaluator κ} {fuel : Nat}

/-- The frame of a call fits, and when it is gone, the caller's frame has the arrays that it had and
more. -/
theorem fulfils_body_of_arrays
    (h : ∀ base, (arrays κ image base).FulfilsAll image (evaluator image fuel) ev)
    (hp : image.program.ArraysTyped) {base : ArrayStore} {e : ExprId}
    (he : (image.typeOf e).isArray = false)
    {callee : DeclId} {params : List DeclId}
    (hparams : ∀ d ∈ params, (image.program.decl d).storage? = some .param)
    (body : StmtId) (args : List ExprId) :
    (arrays κ image base).Fulfils args [e]
      (do
        enterBody image callee params body args
        leaveCall e (← (evaluator image fuel).stmt body).value)
      (do enterBody image callee params body args; leaveCall e (← ev.stmt body).value) := by
  -- the body is followed from the arrays that there are when it is entered
  refine (Arrays.performs hp he).fulfils_body (frameLocal_evaluator image fuel)
    (D := fun s => arrays κ image s.arrays) callee (fun s values hs hpassed => ?_)
      (fun s u hs hu hcaller => ?_)
    fun _ _ _ h => h
  · refine ⟨Arrays.inv_push ⟨.refl _, hs.2⟩ fun hsize => ?_, (h s.arrays).stmt body⟩
    exact Arrays.fits_opened (Arrays.arrayFits_of_passed hs hpassed hparams hsize) body
  · refine ⟨⟨hs.1.trans hu.1, fun hsize =>
      CallStack.forall_frames_pop (hu.2 hsize)⟩, fun c hc harray => ?_⟩
    rw [hcaller.exprs c not_false]
    exact hc harray

/-- An expression is evaluated: one of an array type to an id, and any other one keeps the ids that
there are. -/
theorem fulfils_exprStep_of_arrays
    (h : ∀ base, (arrays κ image base).FulfilsAll image (evaluator image fuel) ev)
    (hp : image.program.ArraysTyped)
    (hparams : ∀ f, ∀ d ∈ (image.program.decl f).params,
      (image.program.decl d).storage? = some .param)
    (hstrict : image.config.strict = true) (base : ArrayStore) (e : ExprId) :
    (arrays κ image base).Fulfils []
    [e] (exprStep image (evaluator image fuel) e) (exprStep image ev e) := by
  cases harray : (image.typeOf e).isArray with
  | true =>
    rw [exprStep_eq, exprStep_eq]
    refine (Arrays.admits.fulfils_focusOn _).andThen fun _ =>
      ((h base).operands e).evalOperands.bind fun _ => ?_
    rw [List.nil_append]
    exact Arrays.fulfils_conclude_of_array hp hstrict harray
  | false =>
    refine fulfils_exprStep ((h base).operands e) (Arrays.performs hp harray) ?_
    intro callee args returnType params body _ _ hk
    refine fulfils_body_of_arrays h hp harray (fun d hd => hparams callee d ?_) body args
    rw [Decl.params, hk]
    exact hd

theorem fulfilsAll_asserting_arraysFit (ht : image.program.Tree) (hp : image.program.ArraysTyped)
    (hparams : ∀ f, ∀ d ∈ (image.program.decl f).params,
      (image.program.decl d).storage? = some .param)
    (hstrict : image.config.strict = true) (fuel : Nat) (base : ArrayStore) :
    (arrays κ image base).FulfilsAll image (evaluator image fuel)
      (asserting image (.arraysFit image.program) stop fuel) := by
  have hbetween {α : Type} {base : ArrayStore} {gained : List ExprId} {x y : Run κ α}
    {d : Option DeclId}
      (hxy : (arrays κ image base).Fulfils [] gained x y) :
      (arrays κ image base).Fulfils [] gained x (between (.arraysFit image.program) stop d y) :=
    hxy.between (fun _ hs => decide_eq_true hs.2) (fun _ _ => rfl) stop d
  have hfuel {base : ArrayStore} (s : State κ) (hs : (arrays κ image base).inv s) :
      (arrays κ image base).halt .outOfFuel s :=
    Arrays.halt_of_variablesFit hs.2.variablesFit fun _ _ heq => by cases heq
  induction fuel generalizing base with
  | zero => exact fulfilsAll_outOfFuel hfuel
  | succ fuel ih =>
    refine ⟨fun e => ?_, fun e => ?_, fun d => ?_, fun id => ?_⟩
    · exact hbetween (fulfils_exprStep_of_arrays ih hp hparams hstrict base e)
    · exact hbetween (((ih base).operands e).targetStep ht)
    · exact hbetween (fulfils_declStep Arrays.admits (fun init _ => (ih base).expr init)
        fun _ _ hs => Arrays.later_of_introduced hs)
    · exact hbetween (fulfils_stmtStep Arrays.admits ((ih base).parts id) fuel fun _ => hfuel)

/-! ## Runs -/

/-- The function that a run enters has no parameter of an array type, so that no array is zero. -/
theorem runWith_of_arrays {base : ArrayStore} {s : State κ}
    (h : (arrays κ image base).FulfilsAll image (evaluator image fuel) ev)
    (hs : (arrays κ image base).inv s)
    (hmain : ∀ entry ∈ image.entry, ∀ d ∈ (image.program.decl entry).params,
      (image.program.decl d).type.isArray = false) :
    runWith image ev s = run image fuel s ∧
      Ensures (run image fuel) s (fun _ t => t.ArraysFit image.program)
        (arrays κ image base).halt := by
  have henter (t : State κ) (ht : (arrays κ image base).inv t) : Ensures (enterMain image) t
      (fun body u => (arrays κ image base).inv u ∧
        (arrays κ image base).Fulfils [] [] ((evaluator image fuel).stmt body) (ev.stmt body))
      (arrays κ image base).halt := by
    -- no parameter of the entry function is an array, so zeros may be given to all of them
    refine (Contract.ensures_enterMain image t).mono ?_ ?_
    · rintro body _ ⟨entry, returnType, params, hentry, hk, rfl⟩
      refine ⟨Arrays.inv_push ht fun _ => Arrays.fits_opened (fun binding hmem =>
        ?_) body, h.stmt body⟩
      obtain ⟨d, hd, rfl⟩ := List.mem_map.1 hmem
      refine Decl.arrayFits_of_isArray_eq_false (hmain entry hentry d ?_)
      rw [Decl.params, hk]
      exact hd
    · rintro _ _ ⟨rfl, rfl | ⟨_, _, rfl⟩⟩ <;>
        exact Arrays.halt_of_variablesFit ht.2.variablesFit fun _ _ heq => by cases heq
  obtain ⟨heq, hends⟩ := Contract.runWith (D := arrays κ image base) hs h.decl henter
    (fun _ _ h => h) fun _ _ h => h
  refine ⟨heq, hends.mono ?_ fun _ _ h => h⟩
  -- the run ends with the frame of the entry function removed
  rintro _ _ ⟨u, hu, rfl⟩
  exact fun hsize => CallStack.forall_frames_pop (hu.2 hsize)

/-- Ids of arrays stay valid. In a strict run from the initial state of a program that was read,
whose entry function has no parameter of an array type, and as long as fewer than `2 ^ 31` arrays
were made: whenever a node is begun or done, every variable, parameter and expression of an array
type that has a value in some frame has the id of an array of the store, that of a variable having
the declared length; at the end the variables still do, however the run ends. An expression of an
array type that was evaluated has such an id as its value. So if an array is not found, the
expression that the run fails at does not access an array. -/
theorem array_ids_valid {source : String} {p : Program}
    (h : Program.parse source = .ok p) {config : Config} (hstrict : config.strict = true)
    (hmain : ∀ entry ∈ (Image.load p config).entry, ∀ d ∈ (p.decl entry).params,
      (p.decl d).type.isArray = false)
    (console : κ) (fuel : Nat) :
    let image := Image.load p config
    let start := State.initial image console
    Asserts image (.arraysFit p) fuel start ∧
    (endState (run image fuel start)).VariablesFit p ∧
    (∀ e (s t : State κ), s.ArraysFit p → (image.typeOf e).isArray = true →
      (evaluator image fuel).expr e s = .ok () t → t.arrays.lengths.size < ArrayStore.idCount →
        ∃ id, t.stack.top.expr? e = some id ∧ (t.arrays.length? id).isSome = true) ∧
    ∀ id loc t, run image fuel start = .error (.error (.fault (.memory (.invalidArray id)) loc)) t →
      t.arrays.lengths.size < ArrayStore.idCount →
        ∃ e c, t.stack.top.focus = some (.expr e) ∧ loc = (p.expr e).loc ∧
          image.through? e = some c ∧ (image.typeOf c).isArray = false := by
  intro image start
  -- the evaluator that asserts the property at every node never has to stop for it
  have hkeeps (stop : Halt × State κ) (base : ArrayStore) : (arrays κ image base).FulfilsAll image
      (evaluator image fuel) (asserting image (.arraysFit p) stop fuel) :=
    fulfilsAll_asserting_arraysFit (Program.resolved_of_parse h).wellFormed.tree
      (Program.arraysTyped_of_parse h)
      (fun f d hd => (Program.isParameter_of_parse h hd).storage) hstrict fuel base
  have hstart : (arrays κ image start.arrays).inv start :=
    ⟨.refl _, State.arraysFit_initial image console⟩
  have hends := (runWith_of_arrays (hkeeps (.outOfFuel, start) _) hstart hmain).2
  refine ⟨fun stop => (runWith_of_arrays (hkeeps stop _) hstart hmain).1, ?_, ?_, ?_⟩
  · unfold Ensures at hends
    cases hresult : run image fuel start with
    | ok value t =>
      rw [hresult] at hends
      exact hends.variablesFit
    | error halt t =>
      rw [hresult] at hends
      exact hends.1
  · intro e s t hs harray hok hsize
    have hexpr := ((hkeeps (.outOfFuel, start) s.arrays).expr e s ⟨.refl _, hs⟩ nofun).2.of_ok hok
    obtain ⟨id, hid⟩ := Option.isSome_iff_exists.1 (hexpr.2 e (by simp) harray)
    exact ⟨id, hid, (CallStack.top_of_forall_frames (hexpr.1.inv.2 hsize)).exprs e id hid harray⟩
  · intro id loc t hfail hsize
    rw [Ensures, hfail] at hends
    exact hends.2 hsize id loc rfl

/-- The array of the file goes through parameters of nested calls, each of which makes an array of
its own. -/
theorem array_ids_valid_of_nested_calls :
    ∃ p, Program.parse
        "int g[2]; int f(int a[]) { int t[3]; g[1] = g[1] - 1; if (g[1]) return f((a)); return a[1]; }
         int main() { g[1] = 3; return f(g) + 7; }" =
        .ok p ∧
      let config : Config := { strict := true }
      let image := Image.load p config
      let start := State.initial image (Scripted.ofInput [])
      result? (run image 100 start) = some 7 ∧
        (endState (run image 100 start)).arrays.lengths = #[2, 3, 3, 3] ∧
        Asserts image (.arraysFit p) 100 start ∧
          (endState (run image 100 start)).VariablesFit p := by
  obtain ⟨p, hp, hmain, hresult, hlengths⟩ : ∃ p, Program.parse
      "int g[2]; int f(int a[]) { int t[3]; g[1] = g[1] - 1; if (g[1]) return f((a)); return a[1]; }
         int main() { g[1] = 3; return f(g) + 7; }" =
      .ok p ∧
      (∀ entry ∈ (Image.load p { strict := true }).entry, ∀ d ∈ (p.decl entry).params,
        (p.decl d).type.isArray = false) ∧
      result? (run (Image.load p { strict := true }) 100
        (.initial (Image.load p { strict := true }) (Scripted.ofInput []))) = some 7 ∧
      (endState (run (Image.load p { strict := true }) 100
        (.initial (Image.load p { strict := true }) (Scripted.ofInput [])))).arrays.lengths =
          #[2, 3, 3, 3] :=
    Program.exists_of_parse (by decide +kernel)
  have hvalid := array_ids_valid hp rfl hmain (Scripted.ofInput []) 100
  exact ⟨p, hp, hresult, hlengths, hvalid.1, hvalid.2.1⟩

end Run

end MiniC
