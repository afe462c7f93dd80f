import MiniC.Proofs.BlamedExpressions

/-!
# Halts that point into a frame

A computation that halts points into the frame that is on top (`Run.Pointed`): an expression of this
frame could not be carried out (`Run.Failed`), and it is to blame for the halt. Which expressions
belong to a frame, and which diagnostics may be there, is what an `Image.Scene` says. So every
computation is followed with the expressions that its frame encloses (`Run.Pinpoints`). A call
begins with another frame and other expressions, and when it is over the caller's frame works on the
call again. A run ends with diagnostics that may be there, or it points into the frame on top,
unless there is no function to enter or it has no body (`Run.ensures_run_points`).
-/

set_option autoImplicit false

namespace MiniC

theorem Program.Contains.to_operand {p : Program} {e q c : ExprId} (h : p.Contains e q)
    (hc : c ∈ p.operands q) :
    p.Contains e c :=
  h.trans (.operand hc (.self c))

/-- A computation in a frame leaves it on top. -/
theorem CallStack.Effect.site {nodes : ExprId → Prop} {s t : CallStack} (h : Effect nodes s t) :
    t.site = s.site := by
  have hnil := h.calls_eq_nil
  have hfunction := h.function
  rcases s with ⟨_ | ⟨frame, callers⟩, global⟩
  · rcases t with ⟨_ | ⟨frame', callers'⟩, global'⟩
    · rfl
    · exact absurd (hnil.2 rfl) (by simp)
  · rcases t with ⟨_ | ⟨frame', callers'⟩, global'⟩
    · exact absurd (hnil.1 rfl) (by simp)
    · exact congrArg some hfunction

/-- The diagnostics are as they may be, and a certain frame is on top. -/
structure State.Placed {κ : Type} {image : Image} (S : image.Scene)
    (site : Option (Option DeclId)) (s : State κ) :
    Prop where
  kept : s.Keeps S.kept
  site : s.stack.site = site

namespace Run

open State

variable {κ α β : Type} {image : Image} {S : image.Scene}
    {site : Option (Option DeclId)} {e : ExprId}

/-! ## Expressions that fail -/

/-- An expression could not be carried out: what it does itself failed, or its value was asked for
and it has none, or its value must not go where it was to go. -/
inductive Failed [Console κ] (image : Image) (e : ExprId) (halt : Halt) (t : State κ) : Prop
  | handled {s : State κ} : handle image e s = .error halt t → Failed image e halt t
  | value : valueOf image e t = .error halt t → Failed image e halt t
  | conversion {expected : CType} :
    checkConversion image expected e t = .error halt t → Failed image e halt t

variable [Console κ]

/-- The run was out of fuel, or an expression of the frame on top could not be carried out and is to
blame. -/
def Pointed (S : image.Scene) (halt : Halt) (t : State κ) : Prop :=
  t.Keeps S.kept ∧ (halt = .outOfFuel ∨
    ∃ e, S.encloses t.stack.site e ∧ Failed image e halt t ∧ halt.BlamedOn image e)

/-- From the states that satisfy `P` the computation ends in one that satisfies `Q`, or its halt
points into the frame on top. -/
def Pinpoints (S : image.Scene) (P Q : State κ → Prop) (x : Run κ α) : Prop :=
  ∀ s, P s → Ensures x s (fun _ t => Q t) (Pointed S)

/-- A computation in a certain frame that points into it, or into those above it, if it halts. -/
abbrev Stays (S : image.Scene) (site : Option (Option DeclId)) (x : Run κ α) : Prop :=
  Pinpoints S (Placed S site) (Placed S site) x

namespace Pinpoints

variable {P P' Q Q' R : State κ → Prop}

theorem mono {x : Run κ α} (h : Pinpoints S P Q x) (hP : ∀ s, P' s → P s) (hQ : ∀ s, Q s → Q' s) :
    Pinpoints S P' Q' x :=
  fun s hs => (h s (hP s hs)).mono (fun _ t ht => hQ t ht) fun _ _ ht => ht

theorem pure (a : α) : Pinpoints S P P (pure a : Run κ α) := fun _ hs => hs

theorem bind {x : Run κ α} {f : α → Run κ β} (hx : Pinpoints S P Q x)
    (hf : ∀ a, Pinpoints S Q R (f a)) :
    Pinpoints S P R (x >>= f) := by
  intro s hs
  rw [ensures_bind]
  exact (hx s hs).mono (fun a t ht => hf a t ht) fun _ _ ht => ht

theorem get_bind {f : State κ → Run κ β} (hf : ∀ a, Pinpoints S P Q (f a)) :
    Pinpoints S P Q (get >>= f) :=
  fun s hs => hf s s hs

theorem outOfFuel (hP : ∀ s, P s → s.Keeps S.kept) : Pinpoints S P Q (throw .outOfFuel : Run κ α) :=
  fun s hs => ⟨hP s hs, .inl rfl⟩

/-- Pointing into a frame composes where the states are as they were. -/
theorem composes : Composes (Alone fun α (x : Run κ α) => Pinpoints S P P x) := ⟨pure, bind⟩

/-- What keeps an expression of the frame at work points at it, if its halts are failures of the
expression. -/
theorem of_blames {x : Run κ α} (he : S.encloses site e) (hx : Blames S site e x)
    (hfailed : ∀ {s t halt}, x s = .error halt t → Failed image e halt t) :
    Pinpoints S (Working S site e) (Working S site e) x := by
  intro s hs
  have h := hx s hs
  unfold Ensures at h ⊢
  split
  · next heq =>
    rw [heq] at h
    exact h
  · next heq =>
    rw [heq] at h
    exact ⟨h.kept, .inr ⟨e, h.site ▸ he, hfailed heq, h.blamed⟩⟩

/-- The value of an expression is asked for that was evaluated last. -/
theorem valueOf (he : S.encloses site e) :
    Pinpoints S (Working S site e) (Working S site e) (valueOf image e : Run κ Int32) := by
  refine of_blames he (.valueOf e) fun {s t halt} heq => .value ?_
  have hsame := readOnly_valueOf image e s
  rw [Ensures, heq] at hsame
  rw [hsame] at heq ⊢
  exact heq

/-- The value of an expression goes where a type is expected. -/
theorem checkConversion (he : S.encloses site e) (expected : CType) :
    Pinpoints S (Working S site e) (Working S site e)
      (checkConversion image expected e : Run κ Unit) := by
  intro s hs
  cases heq : Run.checkConversion image expected e s with
  | ok _ t =>
    have hsame := readOnly_checkConversion image expected e s
    rw [Ensures, heq] at hsame ⊢
    rwa [hsame]
  | error halt t =>
    have hfault := heq
    unfold Run.checkConversion at hfault
    rw [Ensures, heq]
    split at hfault
    · cases hfault
      refine ⟨hs.kept, .inr ⟨e, hs.site ▸ he, .conversion heq, ?_⟩⟩
      exact Halt.blamedOn_fault (image.program.liesIn_self e) rfl
    · cases hfault

theorem focusOn (focus : Focus) : Stays S site (focusOn focus : Run κ Unit) :=
  fun s hs =>
    ⟨hs.kept, (s.stack.site_modifyTop (f := (·.focusOn focus)) fun _ => rfl).trans hs.site⟩

theorem declare (d : DeclId) (value : Int32) : Stays S site (declare d value : Run κ Unit) :=
  fun s hs =>
    ⟨hs.kept, (s.stack.site_modifyTop (f := (·.bindDecl d value)) fun _ => rfl).trans hs.site⟩

theorem create (d : DeclId) (length : Nat) : Stays S site (do
    let s ← get
    let (id, arrays) := s.arrays.create length s.stack.calls.length
    set { s with arrays }
    Run.declare d id : Run κ Unit) := by
  intro s hs
  rw [ensures_bind, ensures_get]
  exact declare d _ { s with arrays := _ } ⟨hs.kept, hs.site⟩

end Pinpoints

end Run

namespace State

variable {κ : Type} {image : Image} {S : image.Scene} {site : Option (Option DeclId)}
    {e c : ExprId} {s : State κ}

theorem Working.placed (h : s.Working S site e) : s.Placed S site := ⟨h.kept, h.site⟩

/-- Who works on a part of an expression works on the expression. -/
theorem Working.of_contains (h : s.Working S site c) (hc : image.program.Contains e c) :
    s.Working S site e where
  kept := h.kept
  site := h.site
  focus := by
    obtain ⟨d, hd, hfocus⟩ := h.focus
    exact ⟨d, hc.trans hd, hfocus⟩

end State

namespace Run

open State

variable {κ α : Type} [Console κ] {image : Image}

/-! ## Evaluation -/

/-- An evaluator whose halts point into the frames that they happen in. An expression leaves the
frame at work on it, and the parts of a target are evaluated for an expression that the target lies
in. -/
structure PointsAll (S : image.Scene) (ev : Evaluator κ) : Prop where
  expr : ∀ {site e}, S.encloses site e → Pinpoints S (Placed S site) (Working S site e) (ev.expr e)
  target : ∀ {site e q}, S.encloses site q → image.program.Contains e q →
    Pinpoints S (Working S site e) (Working S site e) (ev.target q)
  decl : ∀ {site d}, (∀ init ∈ (image.program.decl d).init?, S.encloses site init) →
    Stays S site (ev.decl d)
  stmt : ∀ {site id}, (∀ q, image.program.StmtContains id q → S.encloses site q) →
    Stays S site (ev.stmt id)

section Evaluation

variable {S : image.Scene} {ev : Evaluator κ} {site : Option (Option DeclId)} {e : ExprId}
  (hev : PointsAll S ev)
include hev

/-- An operand is evaluated while the frame works on the expression. -/
theorem PointsAll.operand {c : ExprId} (he : S.encloses site e)
    (hc : c ∈ image.program.operands e) :
    Pinpoints S (Working S site e) (Working S site e) (ev.expr c) :=
  (hev.expr (S.operand he hc)).mono (fun _ hs => hs.placed) fun _ ht =>
    ht.of_contains (.operand hc (.self c))

theorem PointsAll.evalOperands (he : S.encloses site e) :
    Pinpoints S (Working S site e) (Working S site e) (evalOperands image ev e) := by
  have c := Pinpoints.composes (S := S) (P := Working (κ := κ) S site e)
  exact c.alone (c.evalOperands rfl (fun o ho => hev.operand he ho) fun o ho =>
    hev.target (S.operand he ho) (.operand ho (.self o)))

/-- A call points at itself until the function is entered; from there on it is followed in the new
frame. -/
theorem PointsAll.finishCall (hlocal : FrameLocal image ev)
    (he : S.encloses site e) {callee : DeclId}
    {args : List ExprId} (hk : (image.program.expr e).kind = .call callee args) :
    Pinpoints S (Working S site e) (Working S site e) (finishCall image ev e callee args) := by
  have hargs : ∀ a ∈ args, a ∈ image.program.operands e := by
    simp [Program.operands, hk, ExprKind.operands]
  intro s hs
  have hturned := State.working_turnedTo hs.kept hs.site e
  rw [Run.finishCall, ensures_bind, focusOn, ensures_modifyStack, ensures_bind]
  change Ensures (enterCall image e callee args) (turnedTo s (.expr e)) _ _
  have hentered :=
    (ensures_enterCall image (Program.Contains.self (p := image.program) e) callee args
    (turnedTo s (.expr e))).and (ensures_enterCall_blames hargs hturned)
  unfold Ensures at hentered ⊢
  cases heq : enterCall image e callee args (turnedTo s (.expr e)) with
  | error halt t =>
    rw [heq] at hentered
    obtain ⟨-, hhalted⟩ := hentered
    exact ⟨hhalted.kept,
      .inr ⟨e, hhalted.site ▸ he, .handled (handle_of_enterCall hk heq), hhalted.blamed⟩⟩
  | ok entered t =>
    rw [heq] at hentered
    obtain ⟨heffect, hbegun⟩ := hentered
    cases entered with
    | none => exact hbegun
    | some body =>
      obtain ⟨hkept, hsite, returnType, params, hbody⟩ := hbegun
      change Ensures (onOwnStack (ev.stmt body) >>= fun flow => leaveCall e flow.value) t _ _
      rw [ensures_bind, ensures_onOwnStack]
      refine ((hlocal.stmt body t).and
        (hev.stmt (fun q hq => S.body hbody hq) t ⟨hkept, hsite⟩)).mono
        (fun flow u hended => ?_) fun _ _ h => h.2
      obtain ⟨hu, hplaced⟩ := hended
      -- below the frame of the call is that of the caller, which goes on where it was
      have hcall := (heffect.mono fun _ h => h.elim).trans hu
      have hpop :
          CallStack.ExprEffect (fun _ => False) (turnedTo s (.expr e)).stack u.stack.pop.2 :=
        CallStack.exprEffect_pop hcall
      have hpopped : State.Working S site e { u with stack := u.stack.pop.2 } :=
        ⟨hplaced.kept, hpop.toEffect.site.trans hturned.site,
          CallStack.focus_pop hcall ▸ hturned.focus⟩
      rw [leaveCall, ensures_bind, ensures_modifyStack]
      exact ensures_modifyStack.1 (Blames.bindExpr e flow.value _ hpopped)

theorem PointsAll.exprStep (hlocal : FrameLocal image ev) (he : S.encloses site e) :
    Pinpoints S (Placed S site) (Working S site e) (exprStep image ev e) := by
  have hturn : Pinpoints S (Placed S site) (Working S site e) (focusOn (.expr e) : Run κ Unit) :=
    fun _ hs => State.working_turnedTo hs.kept hs.site e
  rw [exprStep_eq]
  refine hturn.bind fun _ => (hev.evalOperands he).bind fun _ => ?_
  by_cases hcall : ∃ callee args, (image.program.expr e).kind = .call callee args
  · obtain ⟨callee, args, hk⟩ := hcall
    unfold conclude
    rw [hk]
    exact hev.finishCall hlocal he hk
  · have hcall' : ∀ callee args, (image.program.expr e).kind ≠ .call callee args :=
      fun callee args hk => hcall ⟨callee, args, hk⟩
    rw [conclude_eq_handle ev hcall']
    exact .of_blames he (blames_handle hcall') .handled

theorem PointsAll.targetStep {q : ExprId} (hq : S.encloses site q)
    (heq : image.program.Contains e q) :
    Pinpoints S (Working S site e) (Working S site e) (targetStep image ev q) := by
  have c := Pinpoints.composes (S := S) (P := Working (κ := κ) S site e)
  refine c.alone (c.targetStep rfl (fun o ho => ?_) fun o ho =>
    hev.target (S.operand hq ho) (heq.to_operand ho))
  exact (hev.expr (S.operand hq ho)).mono (fun _ hs => hs.placed) fun _ ht =>
    ht.of_contains (heq.to_operand ho)

/-! ## Execution -/

theorem PointsAll.declStep {d : DeclId}
    (hd : ∀ init ∈ (image.program.decl d).init?, S.encloses site init) :
    Stays S site (declStep image ev d) := by
  unfold Run.declStep initialise
  cases hk : (image.program.decl d).kind with
  | function _ _ _ => exact .pure ()
  | «variable» type init storage =>
    dsimp only
    cases init with
    | none =>
      dsimp only
      split
      · exact .create d _
      · next heq => cases heq
      · exact .declare d 0
    | some init =>
      have he : S.encloses site init := hd init (by simp [Decl.init?, hk])
      refine (hev.expr he).bind fun _ => ?_
      split
      · exact (Pinpoints.create d _).mono (fun _ hs => hs.placed) fun _ ht => ht
      · next heq =>
        cases heq
        refine (Pinpoints.checkConversion he type).bind fun _ =>
          (Pinpoints.valueOf he).bind fun value => ?_
        exact (Pinpoints.declare d value).mono
          (fun _ (hs : State.Working S site init _) => hs.placed) fun _ ht => ht
      · next heq => cases heq

theorem PointsAll.conditionHolds {c : ExprId} (hc : S.encloses site c) :
    Stays S site (conditionHolds image ev c) :=
  (hev.expr hc).bind fun _ =>
    ((Pinpoints.valueOf hc).bind fun _ => .pure _).mono (fun _ hs => hs) fun _ ht => ht.placed

theorem PointsAll.returnValue (he : S.encloses site e) :
    Stays S site (returnValue image ev (some e)) := by
  have hvalue : Pinpoints S (Working S site e) (Placed S site) (valueOf image e : Run κ Int32) :=
    (Pinpoints.valueOf he).mono (fun _ hs => hs) fun _ ht => ht.placed
  refine (hev.expr he).bind fun _ => .get_bind fun s => ?_
  dsimp only
  split
  · split
    · exact (Pinpoints.checkConversion he _).bind fun _ => hvalue
    · exact hvalue
  · exact hvalue

theorem PointsAll.stmtStep (rounds : Nat) {id : StmtId}
    (hid : ∀ q, image.program.StmtContains id q → S.encloses site q) :
    Stays S site (stmtStep image ev rounds id) := by
  have hroot {e : ExprId} (he : e ∈ (image.program.stmt id).kind.exprs) : S.encloses site e :=
    hid e (.root (List.mem_append_left _ he) (.self e))
  have c := Pinpoints.composes (S := S) (P := Placed (κ := κ) S site)
  refine c.alone (c.stmtStep rfl (Pinpoints.focusOn _) ?_ fun _ =>
    c.loops (.outOfFuel fun _ hs => hs.kept) rounds)
  exact {
    expr := fun e he => (hev.expr (hroot he)).mono (fun _ hs => hs) fun _ ht => ht.placed
    condition := fun e he => hev.conditionHolds (hroot he)
    returned := fun e he => hev.returnValue (hroot he)
    decl := fun d hd => hev.decl fun init hinit =>
      hid init (.root (List.mem_append_right _ (List.mem_filterMap.2 ⟨d, hd, hinit⟩)) (.self init))
    stmt := fun i hi => hev.stmt fun q hq => hid q (.inner hi hq) }

end Evaluation

/-- With any fuel, what halts points into the frame on top. -/
theorem pointsAll_evaluator (S : image.Scene) (fuel : Nat) :
    PointsAll S (evaluator (κ := κ) image fuel) := by
  induction fuel with
  | zero =>
    exact ⟨fun _ => .outOfFuel fun _ hs => hs.kept, fun _ _ => .outOfFuel fun _ hs => hs.kept,
      fun _ => .outOfFuel fun _ hs => hs.kept, fun _ => .outOfFuel fun _ hs => hs.kept⟩
  | succ fuel ih =>
    exact {
      expr := ih.exprStep (frameLocal_evaluator image fuel)
      target := ih.targetStep
      decl := ih.declStep
      stmt := ih.stmtStep fuel }

/-! ## Runs -/

/-- The function that a run enters has no body, which is reported for its declaration. -/
def EntryLacksBody (image : Image) (h : Halt) : Prop :=
  ∃ entry, image.entry = some entry ∧ (image.program.decl entry).hasBody = false ∧
    h = .error (.fault (.undefinedFunction (image.program.decl entry).name)
      (image.program.decl entry).loc)

/-- From a state with a certain frame on top, which encloses the initialisers of the file, a run
ends with diagnostics that may be there, or it points into the frame on top. Else there is no
function to enter, or it has no body. -/
theorem ensures_run_points (S : image.Scene) {site : Option (Option DeclId)} {s : State κ}
    (hs : s.Placed S site) (hitems : ∀ d, .variable d ∈ image.program.items.toList →
      ∀ init ∈ (image.program.decl d).init?, S.encloses site init) (fuel : Nat) :
    Ensures (run image fuel) s (fun _ t => t.Keeps S.kept) fun halt t => t.Keeps S.kept ∧
      (halt = .error .noEntryFunction ∧ image.entry = none ∨ EntryLacksBody image halt ∨
        Pointed S halt t) := by
  have hev : PointsAll S (evaluator (κ := κ) image fuel) := pointsAll_evaluator S fuel
  have hvariables : Stays S site
      (image.program.items.toList.forM (introduce (evaluator (κ := κ) image fuel))) := by
    have c := Pinpoints.composes (S := S) (P := Placed (κ := κ) S site)
    refine c.alone (c.forM _ fun item hitem => ?_)
    cases item with
    | «variable» d => exact hev.decl (hitems d hitem)
    | function _ => exact Pinpoints.pure ()
  rw [run, runWith_eq, ensures_bind]
  refine (hvariables s hs).mono (fun _ t ht => ?_) fun _ _ h => ⟨h.1, .inr (.inr h)⟩
  -- what is left enters a function, and works in its frame
  unfold enterMain
  rw [ensures_bind]
  split
  · next hentry => exact ⟨ht.kept, .inl ⟨rfl, hentry⟩⟩
  · next entry hentry =>
    dsimp only
    split
    · next returnType params body hk =>
      have hopened : State.Placed S (some (some entry)) { t with stack := { t.stack with
          calls := .opened entry body (params.map (·, 0)) :: t.stack.calls } } :=
        ⟨ht.kept, t.stack.site_opened entry body _⟩
      unfold Ensures
      rw [bind_apply, openFrame_apply]
      change Ensures (do
        let flow ← (evaluator (κ := κ) image fuel).stmt body
        modifyStack fun stack => stack.pop.2
        return flow.value) _ _ _
      rw [ensures_bind]
      exact (hev.stmt (fun q hq => S.body hk hq) _ hopened).mono
          (fun _ u hu => hu.kept) fun _ _ h =>
        ⟨h.1, .inr (.inr h)⟩
    · next hk =>
      refine ⟨ht.kept, .inr (.inl ⟨entry, hentry, ?_, rfl⟩)⟩
      unfold Decl.hasBody
      split
      · next hbody => exact absurd hbody (hk _ _ _)
      · rfl

end Run

end MiniC
