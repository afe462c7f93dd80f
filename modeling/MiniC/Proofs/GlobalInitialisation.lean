import MiniC.Proofs.Fuel
import MiniC.Proofs.HeldVariables
import MiniC.Proofs.ProgramStructure

/-!
# The variables of the file at the start of a run

A run introduces the variables of the file before it enters the entry function (`Run.startWith`). It
does so in the frame on top of the stack. After runs that left no frame of a call behind that is the
frame of the file, and the entry function reads the new values there (`Run.StartsFresh`). A run that
halts inside a call leaves the frame of the call: all later runs introduce the variables in the
frame that was left last, and the entry function reads what older runs left in the frame of the file
(`Run.StartsStale`).
-/

set_option autoImplicit false

namespace MiniC.Run

variable {κ α β : Type}

/-! ## The start of a run -/

/-- A run up to the body of the entry function. -/
def startWith (image : Image) (ev : Evaluator κ) : Run κ StmtId := do
  image.program.items.toList.forM (introduce ev)
  enterMain image

theorem runWith_eq_startWith (image : Image) (ev : Evaluator κ) :
    runWith image ev = (do
      let body ← startWith image ev
      let flow ← ev.stmt body
      modifyStack fun stack => stack.pop.2
      return flow.value) := by
  rw [runWith_eq, startWith, bind_assoc]

/-- Gives the initialiser of a variable its value, where there is one. -/
def evaluateInitialiser (image : Image) (ev : Evaluator κ) (d : DeclId) : Run κ Unit := do
  if let .variable _ (some init) _ := (image.program.decl d).kind then ev.expr init

/-- The value that a variable has first: the id of an array that is made, the value of the
initialiser, or zero. -/
inductive FirstValue (p : Program) (d : DeclId) (s : State κ) : Int32 → Prop
  | array {type : CType} {init : Option ExprId} {storage : Storage} {length : Nat} :
      (p.decl d).kind = .variable type init storage → type.length? = some length →
      FirstValue p d s (s.arrays.create length s.stack.calls.length).1
  | initialiser {type : CType} {init : ExprId} {storage : Storage} {value : Int32} :
      (p.decl d).kind = .variable type (some init) storage → type.length? = none →
      s.stack.top.expr? init = some value → FirstValue p d s value
  | zero {type : CType} {storage : Storage} :
      (p.decl d).kind = .variable type none storage → type.length? = none → FirstValue p d s 0

/-- A variable was introduced in the top frame: its initialiser was evaluated there, and the top
frame has the variable's first value. -/
def Introduced [Console κ] (image : Image) (fuel : Nat) (d : DeclId) (s u : State κ) : Prop :=
  ∃ inner t value, fuel = inner + 1 ∧
    evaluateInitialiser image (evaluator image inner) d s = .ok () t ∧
    t.stack.depth = s.stack.depth ∧ FirstValue image.program d t value ∧
    u.stack = t.stack.modifyTop (·.bindDecl d value)

/-- Where a run of the image from `s` comes to the body of the entry function, every variable of the
file was introduced in the frame of the file on the way, and the entry function reads it there. -/
def StartsFresh [Console κ] (image : Image) (fuel : Nat) (s : State κ) : Prop :=
  ∀ body v, startWith image (evaluator image fuel) s = .ok body v →
    ∀ before d after, image.program.items.toList = before ++ .variable d :: after →
      ∃ t u frame value, before.forM (introduce (evaluator image fuel)) s = .ok () t ∧
        t.stack.calls = [] ∧ Introduced image fuel d t u ∧ (u.stack.global.decl? d).isSome = true ∧
        (do after.forM (introduce (evaluator image fuel)); enterMain image : Run κ StmtId) u =
          .ok body v ∧
        v.stack.calls = [frame] ∧ frame.decl? d = none ∧ v.stack.global.decl? d = some value ∧
        valueOfDecl image d v = .ok value v

/-- Where a run of the image from `s` comes to the body of the entry function, every variable of the
file was introduced in the frame of a call that an earlier run left, and the entry function does not
read it there but in the frame of the file. -/
def StartsStale [Console κ] (image : Image) (fuel : Nat) (s : State κ) : Prop :=
  ∀ body v, startWith image (evaluator image fuel) s = .ok body v →
    ∀ before d after, image.program.items.toList = before ++ .variable d :: after →
      ∃ t u frame left, before.forM (introduce (evaluator image fuel)) s = .ok () t ∧
        t.stack.calls ≠ [] ∧ Introduced image fuel d t u ∧ (u.stack.top.decl? d).isSome = true ∧
        (do after.forM (introduce (evaluator image fuel)); enterMain image : Run κ StmtId) u =
          .ok body v ∧
        v.stack.calls = frame :: left ∧ left ≠ [] ∧ frame.decl? d = none ∧
        ∀ value, valueOfDecl image d v = .ok value v ↔ v.stack.global.decl? d = some value

/-! ## Introductions -/

variable {image : Image} {d : DeclId} {s t u v : State κ}

theorem declStep_eq_evaluateInitialiser (image : Image) (ev : Evaluator κ) (d : DeclId) :
    declStep image ev d = (do
      evaluateInitialiser image ev d
      initialise image d) := by
  unfold declStep evaluateInitialiser
  cases (image.program.decl d).kind with
  | function _ _ _ => rfl
  | «variable» type init storage => cases init <;> rfl

theorem ensures_initialise_firstValue {type : CType} {init : Option ExprId} {storage : Storage}
    (hk : (image.program.decl d).kind = .variable type init storage) :
    Ensures (initialise image d) s
      (fun _ t => ∃ value, FirstValue image.program d s value ∧
        t.stack = s.stack.modifyTop (·.bindDecl d value))
      Anything := by
  unfold initialise
  rw [hk]
  dsimp only
  split
  · next length hlength =>
    rw [ensures_bind, ensures_get]
    exact ⟨_, .array hk hlength, rfl⟩
  · next init hlength =>
    refine (readOnly_checkConversion image _ _).ensures_bind (fun _ => ?_) fun _ => trivial
    unfold valueOf
    rw [ensures_bind, ensures_bind, ensures_get]
    cases hvalue : s.stack.top.expr? init with
    | none =>
      rw [Frame.expr_of_expr?_none hvalue]
      trivial
    | some value =>
      rw [Frame.expr_of_expr? hvalue]
      exact ⟨value, .initialiser hk hlength hvalue, rfl⟩
  · next hlength => exact ⟨0, .zero hk hlength, rfl⟩

theorem ExprLocal.depth_eq {nodes : ExprId → Prop} {x : Run κ α} (hx : ExprLocal nodes x) {a : α}
    (h : x s = .ok a t) : t.stack.depth = s.stack.depth :=
  ((hx s).of_ok h).depth

variable [Console κ]

/-- The introduction of a variable. -/
theorem introduced_of_eq_ok {fuel : Nat} (hd : (image.program.decl d).isFunction = false)
    (h : (evaluator image fuel).decl d s = .ok () u) : Introduced image fuel d s u := by
  cases fuel with
  | zero => cases h
  | succ inner =>
    change declStep image (evaluator image inner) d s = .ok () u at h
    rw [declStep_eq_evaluateInitialiser] at h
    obtain ⟨⟨⟩, t, ht, hu⟩ := exists_of_bind_eq_ok h
    obtain ⟨type, init, storage, hk⟩ : ∃ type init storage,
        (image.program.decl d).kind = .variable type init storage := by
      cases hk : (image.program.decl d).kind with
      | function _ _ _ => simp [Decl.isFunction, hk] at hd
      | «variable» type init storage => exact ⟨type, init, storage, rfl⟩
    obtain ⟨value, hvalue, hstack⟩ := (ensures_initialise_firstValue hk).of_ok hu
    refine ⟨inner, t, value, rfl, ht, ?_, hvalue, hstack⟩
    unfold evaluateInitialiser at ht
    rw [hk] at ht
    cases init with
    | none =>
      cases ht
      rfl
    | some init => exact ((frameLocal_evaluator image inner).expr init).depth_eq ht

/-- Introductions work in the top frame. -/
theorem stmtLocal_forM_introduce (image : Image) (fuel : Nat) (items : List Item) :
    StmtLocal (fun _ => True) (items.forM (introduce (evaluator (κ := κ) image fuel))) := by
  refine .forM (stmtEffects _) items fun item _ => ?_
  cases item with
  | «variable» d => exact ((frameLocal_evaluator image fuel).decl d).mono fun _ _ => trivial
  | function _ => exact .pure (stmtEffects _) ()

theorem effect_of_forM_introduce {fuel : Nat} {items : List Item}
    (h : items.forM (introduce (evaluator image fuel)) s = .ok () t) :
    CallStack.Effect (fun _ => True) s.stack t.stack :=
  (stmtLocal_forM_introduce image fuel items s).of_ok h

/-! ## The frame of the entry function -/

omit [Console κ] in
/-- What is bound in a frame are the given variables and those that were bound before. -/
theorem ensures_forM_declare_isSome (bindings : List (DeclId × Int32)) :
    Ensures (bindings.forM fun (d, value) => declare d value) s (fun _ t =>
      ∀ d, (t.stack.top.decl? d).isSome = true →
        d ∈ bindings.map Prod.fst ∨ (s.stack.top.decl? d).isSome = true) Anything := by
  induction bindings generalizing s with
  | nil => exact fun _ => .inr
  | cons binding bindings ih =>
    change Ensures (declare binding.1 binding.2 >>= fun _ => bindings.forM _) s _ _
    rw [ensures_bind, declare, ensures_modifyStack]
    refine (ih (s := { s with stack := s.stack.modifyTop (·.bindDecl binding.1 binding.2) })).mono
      (fun _ t ht d hd => ?_) fun _ _ _ => trivial
    rcases ht d hd with hd | hd
    · exact .inl (List.mem_cons_of_mem _ hd)
    · rw [CallStack.top_modifyTop, Frame.isSome_decl?_bindDecl] at hd
      exact hd.imp_left fun heq => by simp [heq]

omit [Console κ] in
/-- The entry function gets a frame on top of those that there are, with its parameters only. -/
theorem ensures_enterMain_frame (image : Image) (s : State κ) :
    Ensures (enterMain image) s (fun _ t =>
      t.stack.calls.tail = s.stack.calls ∧ t.stack.calls ≠ [] ∧
        t.stack.global.decls = s.stack.global.decls ∧
        ∀ d, (t.stack.top.decl? d).isSome = true → ∃ f, d ∈ (image.program.decl f).params)
      fun _ t => KeepsFrames s t := by
  have hframe : Ensures (enterMain image) s (fun _ t =>
      t.stack.calls.tail = s.stack.calls ∧ t.stack.calls ≠ [] ∧
        ∀ d, (t.stack.top.decl? d).isSome = true → ∃ f, d ∈ (image.program.decl f).params)
      fun _ t => KeepsFrames s t := by
    -- an entry function is entered like any other, with zeros for its parameters
    unfold enterMain
    split
    · exact Nat.le_refl _
    · next entry _ =>
      dsimp only
      split
      · next returnType params body hk =>
        have hheld : Ensures (openFrame entry body (params.map (·, 0))) s (fun _ t =>
            ∀ d, (t.stack.top.decl? d).isSome = true →
              ∃ f, d ∈ (image.program.decl f).params) Anything := by
          rw [openFrame, ensures_bind, ensures_modifyStack, ensures_bind]
          refine (ensures_forM_declare_isSome _).mono (fun _ t ht => ?_) fun _ _ _ => trivial
          rw [focusOn, ensures_modifyStack, CallStack.top_modifyTop]
          intro d hd
          -- only its parameters have values in the new frame
          have hmem := (ht d hd).resolve_right (by simp)
          rw [List.map_map] at hmem
          exact ⟨entry, by simpa [Decl.params, hk, Function.comp_def] using hmem⟩
        rw [ensures_bind]
        exact ((ensures_openFrame entry body _ s).and hheld).mono
          (fun _ t ht => ⟨ht.1.callers, mt ht.1.calls_eq_nil.1 (by simp [CallStack.push]), ht.2⟩)
          fun _ _ h => h.1
      · exact Nat.le_refl _
  exact ((keepsFile_enterMain image s).and hframe).mono
    (fun _ t ht => ⟨ht.2.1, ht.2.2.1, ht.1, ht.2.2.2⟩) fun _ _ h => h.2

/-! ## Runs after runs -/

omit [Console κ] in
theorem exists_of_forM_append {x : α → Run κ Unit} {before after : List α} {a : α}
    (h : (before ++ a :: after).forM x s = .ok () v) :
    ∃ t u, before.forM x s = .ok () t ∧ x a t = .ok () u ∧ after.forM x u = .ok () v := by
  induction before generalizing s with
  | nil =>
    obtain ⟨⟨⟩, u, hu, hv⟩ := exists_of_bind_eq_ok h
    exact ⟨s, u, rfl, hu, hv⟩
  | cons b before ih =>
    obtain ⟨⟨⟩, w, hw, hrest⟩ := exists_of_bind_eq_ok h
    obtain ⟨t, u, ht, hu, hv⟩ := ih hrest
    refine ⟨t, u, ?_, hu, hv⟩
    change (x b >>= fun _ => before.forM x) s = _
    rw [bind_apply, hw]
    exact ht

theorem exists_of_startWith {fuel : Nat} {body : StmtId} {before after : List Item}
    (h : startWith image (evaluator image fuel) s = .ok body v)
    (hitems : image.program.items.toList = before ++ .variable d :: after) :
    ∃ t u, before.forM (introduce (evaluator image fuel)) s = .ok () t ∧
      (evaluator image fuel).decl d t = .ok () u ∧
      (do after.forM (introduce (evaluator image fuel)); enterMain image : Run κ StmtId) u =
        .ok body v := by
  obtain ⟨⟨⟩, w, hw, hentered⟩ := exists_of_bind_eq_ok h
  rw [hitems] at hw
  obtain ⟨t, u, ht, hu, hrest⟩ := exists_of_forM_append hw
  refine ⟨t, u, ht, hu, ?_⟩
  rw [bind_apply, hrest]
  exact hentered

omit [Console κ] in
theorem valueOfDecl_eq_ok_iff (hd : s.stack.top.decl? d = none) (value : Int32) :
    valueOfDecl image d s = .ok value s ↔ s.stack.global.decl? d = some value := by
  cases hglobal : s.stack.global.decl? d with
  | none =>
    rw [valueOfDecl_of_none image (by rw [hd, hglobal, Option.none_or])]
    simp only [reduceCtorEq]
  | some v =>
    rw [valueOfDecl_of_some image (by rw [hd, hglobal, Option.none_or])]
    simp only [EStateM.Result.ok.injEq, and_true, Option.some.injEq]

/-- The frame of the entry function when its body begins. -/
theorem entered_of_eq_ok {fuel : Nat} {body : StmtId} {after : List Item}
    (hd : ∀ f, d ∉ (image.program.decl f).params)
    (h : (do after.forM (introduce (evaluator image fuel)); enterMain image : Run κ StmtId) u =
      .ok body v) :
    ∃ (t : State κ) (frame : Frame) (left : List Frame),
      CallStack.Effect (fun _ => True) u.stack t.stack ∧ v.stack.calls = frame :: left ∧
      left = t.stack.calls ∧ frame.decl? d = none ∧
        v.stack.global.decl? d = t.stack.global.decl? d := by
  obtain ⟨⟨⟩, t, ht, hv⟩ := exists_of_bind_eq_ok h
  obtain ⟨htail, hne, hglobal, htop⟩ := (ensures_enterMain_frame image t).of_ok hv
  obtain ⟨frame, left, hcalls⟩ := List.exists_cons_of_ne_nil hne
  have hnone : v.stack.top.decl? d = none := by
    rw [← Option.not_isSome_iff_eq_none]
    intro hsome
    obtain ⟨f, hf⟩ := htop d hsome
    exact hd f hf
  refine ⟨t, frame, left, effect_of_forM_introduce ht, hcalls, ?_, ?_, ?_⟩
  · rw [← htail, hcalls]
    rfl
  · simpa [CallStack.top, hcalls] using hnone
  · rw [Frame.decl?, Frame.decl?, hglobal]

/-- A variable of the file is no parameter. -/
theorem not_mem_params_of_parse {source : String} {p : Program} (h : Program.parse source = .ok p)
    (hd : .variable d ∈ p.items) (f : DeclId) : d ∉ (p.decl f).params := by
  intro hmem
  obtain ⟨type, init, hk⟩ := ((Program.resolved_of_parse h).globals hd).toIsGlobal.kind
  have hstorage := (Program.isParameter_of_parse h hmem).storage
  rw [Decl.storage?, hk] at hstorage
  cases hstorage

/-- What a run that comes to the body of the entry function did with a variable of the file: it
introduced the variable on top of the frames that there were, then entered a frame that does not
have it. -/
theorem exists_introduction {source : String} {p : Program}
    (h : Program.parse source = .ok p) {config : Config}
    {fuel : Nat} {body : StmtId} {before after : List Item}
    (hstart : startWith (Image.load p config) (evaluator (Image.load p config) fuel) s = .ok body v)
    (hitems : p.items.toList = before ++ .variable d :: after) :
    ∃ (t u w : State κ) (frame : Frame),
      before.forM (introduce (evaluator (Image.load p config) fuel)) s = .ok () t ∧
      Introduced (Image.load p config) fuel d t u ∧
      (do
        after.forM (introduce (evaluator (Image.load p config) fuel))
        enterMain (Image.load p config) : Run κ StmtId) u = .ok body v ∧
      (t.stack.calls = [] ↔ s.stack.calls = []) ∧ (u.stack.calls = [] ↔ s.stack.calls = []) ∧
      (u.stack.top.decl? d).isSome = true ∧ CallStack.Effect (fun _ => True) u.stack w.stack ∧
      v.stack.calls = frame :: w.stack.calls ∧ frame.decl? d = none ∧
      v.stack.global.decl? d = w.stack.global.decl? d := by
  obtain ⟨t, u, ht, hu, hrest⟩ := exists_of_startWith hstart hitems
  have hmem : .variable d ∈ p.items := by
    have hlist : Item.variable d ∈ p.items.toList := hitems ▸ by simp
    simpa using hlist
  have hfunction : (p.decl d).isFunction = false :=
    (Program.isGlobal_iff.1 ((Program.resolved_of_parse h).globals hmem).toIsGlobal).2.1
  have hintroduced : Introduced (Image.load p config) fuel d t u := introduced_of_eq_ok hfunction hu
  obtain ⟨w, frame, left, heffect, hcalls, rfl, hframe, hglobal⟩ :=
    entered_of_eq_ok (not_mem_params_of_parse h hmem) hrest
  have htcalls : t.stack.calls = [] ↔ s.stack.calls = [] :=
    (effect_of_forM_introduce ht).calls_eq_nil
  obtain ⟨inner, r, value, -, -, hdepth, -, hstack⟩ := id hintroduced
  -- evaluating the initialiser has left as many frames as there were
  have hucalls : u.stack.calls = [] ↔ t.stack.calls = [] := by
    have hlength : r.stack.calls.length = t.stack.calls.length := Nat.succ.inj hdepth
    rw [hstack, CallStack.calls_modifyTop_eq_nil, ← List.length_eq_zero_iff, hlength,
      List.length_eq_zero_iff]
  have hbound : (u.stack.top.decl? d).isSome = true := by
    rw [hstack, CallStack.top_modifyTop, Frame.decl?_bindDecl, if_pos rfl]
    rfl
  exact ⟨t, u, w, frame, ht, hintroduced, hrest, htcalls, hucalls.trans htcalls,
    hbound, heffect, hcalls, hframe, hglobal⟩

theorem startsFresh_of_calls_eq_nil {source : String} {p : Program}
    (h : Program.parse source = .ok p)
    (config : Config) (fuel : Nat) (hs : s.stack.calls = []) :
    StartsFresh (Image.load p config) fuel s := by
  intro body v hstart before d after hitems
  obtain ⟨t, u, w, frame, ht, hintroduced, hrest, htcalls, hucalls, hbound, heffect, hcalls,
      hframe, hglobal⟩ :=
    exists_introduction h hstart hitems
  have hucalls' : u.stack.calls = [] := hucalls.2 hs
  have hwcalls : w.stack.calls = [] := heffect.calls_eq_nil.2 hucalls'
  obtain ⟨value, hvalue⟩ : ∃ value, v.stack.global.decl? d = some value := by
    rw [← Option.isSome_iff_exists, hglobal, ← CallStack.top_of_calls_eq_nil hwcalls]
    exact heffect.held d hbound
  have hvtop : v.stack.top.decl? d = none := by simpa [CallStack.top, hcalls] using hframe
  rw [CallStack.top_of_calls_eq_nil hucalls'] at hbound
  exact ⟨t, u, frame, value, ht, htcalls.2 hs, hintroduced, hbound, hrest,
    by rw [hcalls, hwcalls], hframe, hvalue, (valueOfDecl_eq_ok_iff hvtop value).2 hvalue⟩

theorem startsStale_of_calls_ne_nil {source : String} {p : Program}
    (h : Program.parse source = .ok p)
    (config : Config) (fuel : Nat) (hs : s.stack.calls ≠ []) :
    StartsStale (Image.load p config) fuel s := by
  intro body v hstart before d after hitems
  obtain ⟨t, u, w, frame, ht, hintroduced, hrest, htcalls, hucalls, hbound, heffect,
      hcalls, hframe, -⟩ :=
    exists_introduction h hstart hitems
  have hwcalls : w.stack.calls ≠ [] := mt heffect.calls_eq_nil.1 (mt hucalls.1 hs)
  have hvtop : v.stack.top.decl? d = none := by simpa [CallStack.top, hcalls] using hframe
  exact ⟨t, u, frame, w.stack.calls, ht, mt htcalls.1 hs, hintroduced, hbound, hrest,
    hcalls, hwcalls, hframe, valueOfDecl_eq_ok_iff hvtop⟩

/-! ## Sequences of runs -/

/-- A run that has a result removes the frames that it made; one that halts leaves at least those
that there were. -/
theorem ensures_run_depth (image : Image) (fuel : Nat) (s : State κ) :
    Ensures (run image fuel) s (fun _ t => t.stack.depth = s.stack.depth) fun _ t =>
      s.stack.depth ≤ t.stack.depth := by
  have hdepth (stack : CallStack) : stack.depth = stack.calls.length + 1 := rfl
  have hpop (stack : CallStack) : stack.pop.2.calls = stack.calls.tail := by
    rcases stack with ⟨_ | _, _⟩ <;> rfl
  rw [run, runWith_eq_startWith, ensures_bind, startWith, ensures_bind]
  refine (stmtLocal_forM_introduce image fuel _ s).mono (fun _ t ht => ?_) fun _ _ h => h
  have htlength : t.stack.calls.length = s.stack.calls.length := Nat.succ.inj ht.depth
  refine (ensures_enterMain_frame image t).mono (fun body u hu => ?_) fun _ u hu =>
    Nat.le_trans (Nat.le_of_eq ht.depth.symm) hu
  obtain ⟨htail, hne, -, -⟩ := hu
  have hulength : u.stack.calls.length = s.stack.calls.length + 1 := by
    rw [← htlength, ← htail, List.length_tail]
    have := List.length_pos_iff.2 hne
    omega
  rw [ensures_bind]
  refine ((frameLocal_evaluator image fuel).stmt body u).mono (fun flow v hv => ?_) fun _ v hv => ?_
  · have hvlength : v.stack.calls.length = u.stack.calls.length := Nat.succ.inj hv.depth
    rw [ensures_bind, ensures_modifyStack, ensures_pure, hdepth, hdepth, hpop, List.length_tail]
    omega
  · have hle : u.stack.depth ≤ v.stack.depth := hv
    rw [hdepth] at hle ⊢
    omega

/-- The second state is left behind by runs of the image, one after the other, of which the first
began in the first state. -/
def Leads (image : Image) : State κ → State κ → Prop :=
  Relation.ReflTransGen fun s t => ∃ r, Ends image s r ∧ t = endState r

theorem Ends.depth {r : EStateM.Result Halt (State κ) Int32} (h : Ends image s r) :
    s.stack.depth ≤ (endState r).stack.depth ∧
      ((result? r).isSome = true → (endState r).stack.depth = s.stack.depth) := by
  obtain ⟨fuel, rfl⟩ := h.run
  have hdepth := ensures_run_depth image fuel s
  unfold Ensures at hdepth
  generalize Run.run image fuel s = r at hdepth
  cases r with
  | ok value t => exact ⟨Nat.le_of_eq hdepth.symm, fun _ => hdepth⟩
  | error halt t => exact ⟨hdepth, nofun⟩

/-- Frames of calls that are left behind are never removed. -/
theorem Leads.depth_le (h : Leads image s t) : s.stack.depth ≤ t.stack.depth := by
  induction h with
  | refl => exact Nat.le_refl _
  | tail _ hstep ih =>
    obtain ⟨r, hr, rfl⟩ := hstep
    exact Nat.le_trans ih hr.depth.1

theorem Leads.calls_eq_nil (h : Leads image s t) (ht : t.stack.calls = []) :
    s.stack.calls = [] := by
  have hle : s.stack.calls.length ≤ t.stack.calls.length := Nat.le_of_succ_le_succ h.depth_le
  rw [ht] at hle
  exact List.length_eq_zero_iff.1 (Nat.le_zero.1 hle)

/-- Where frames of calls were left, no run introduces a variable in the frame of the file. -/
theorem not_startsFresh_of_calls_ne_nil {fuel : Nat} (hs : s.stack.calls ≠ [])
    (hd : .variable d ∈ image.program.items)
    (hstart : (result? (startWith image (evaluator image fuel) s)).isSome = true) :
    ¬ StartsFresh image fuel s := by
  intro hfresh
  obtain ⟨before, after, hitems⟩ := List.append_of_mem (Array.mem_toList_iff.2 hd)
  cases hresult : startWith image (evaluator image fuel) s with
  | error halt v =>
    rw [hresult] at hstart
    cases hstart
  | ok body v =>
    obtain ⟨t, -, -, -, ht, htcalls, -⟩ := hfresh body v hresult before d after hitems
    exact hs ((effect_of_forM_introduce ht).calls_eq_nil.1 htcalls)

/-- A run initialises the variables of the file afresh if no frame of a call was left by earlier
runs, which only runs without a result do. Once one was left, all later runs give their variables to
the frame on top, and their entry function reads what it finds in the frame of the file. -/
theorem globals_start_fresh_without_frames_left {source : String} {p : Program}
    (h : Program.parse source = .ok p) (config : Config) :
    (∀ console : κ, (State.initial (Image.load p config) console).stack.calls = []) ∧
    (∀ (s : State κ) r, Ends (Image.load p config) s r → (result? r).isSome = true →
      ((endState r).stack.calls = [] ↔ s.stack.calls = [])) ∧
    (∀ (s : State κ) fuel, s.stack.calls = [] → StartsFresh (Image.load p config) fuel s) ∧
    ∀ (s t : State κ) fuel, s.stack.calls ≠ [] → Leads (Image.load p config) s t →
      StartsStale (Image.load p config) fuel t := by
  refine ⟨fun _ => rfl, fun s r hr hresult => ?_,
    fun s fuel => startsFresh_of_calls_eq_nil h config fuel, fun s t fuel hs hst =>
      startsStale_of_calls_ne_nil h config fuel fun ht => hs (hst.calls_eq_nil ht)⟩
  have hlength : (endState r).stack.calls.length = s.stack.calls.length :=
    Nat.succ.inj (hr.depth.2 hresult)
  rw [← List.length_eq_zero_iff, hlength, List.length_eq_zero_iff]

/-- The second run of a program, after one that had a result. -/
theorem globals_start_fresh_after_result :
    ∃ p, Program.parse "int n = 1; int main() { n = n + 1; return n; }" = .ok p ∧
      let image := Image.load p {}
      let start := State.initial image (Scripted.ofInput [])
      ∃ r, Ends image start r ∧ result? r = some 2 ∧ StartsFresh image 30 (endState r) := by
  obtain ⟨p, hp, hresult⟩ : ∃ p,
      Program.parse "int n = 1; int main() { n = n + 1; return n; }" = .ok p ∧
        result? (run (Image.load p {}) 30 (.initial (Image.load p {}) (Scripted.ofInput []))) =
          some 2 :=
    Program.exists_of_parse (by decide +kernel)
  have hends : Ends (Image.load p {}) (.initial (Image.load p {}) (Scripted.ofInput [])) _ :=
    ⟨⟨30, rfl⟩, by rw [halt?_of_result hresult]; nofun⟩
  obtain ⟨hstart, hkept, hfresh, -⟩ := globals_start_fresh_without_frames_left (κ := Scripted) hp {}
  refine ⟨p, hp, _, hends, hresult, hfresh _ 30 ((hkept _ _ hends ?_).2 (hstart _))⟩
  rw [hresult]
  rfl

/-- A run that divides by zero in the entry function leaves its frame behind. The next one
initialises the variable of the file there, finds the value that the first one left, and divides by
one. -/
theorem frame_left_hides_initialiser :
    ∃ p, Program.parse "int n = 1; int main() { n = n + 1; return 1 / (n - 2); }" = .ok p ∧
      let image := Image.load p {}
      let start := State.initial image (Scripted.ofInput [])
      ∃ r, Ends image start r ∧ halt? r = some (.error (.fault (.divisionByZero .div) ⟨1, 47⟩)) ∧
        ¬ StartsFresh image 30 (endState r) ∧ result? (run image 30 (endState r)) = some 1 := by
  obtain ⟨p, hp, hhalt, hresult, hcalls, hitem, hstart⟩ : ∃ p,
      Program.parse "int n = 1; int main() { n = n + 1; return 1 / (n - 2); }" = .ok p ∧
        let image := Image.load p {}
        let first := run image 30 (State.initial image (Scripted.ofInput []))
        halt? first = some (.error (.fault (.divisionByZero .div) ⟨1, 47⟩)) ∧
          result? (run image 30 (endState first)) = some 1 ∧
            (endState first).stack.calls.isEmpty = false ∧
          .variable ⟨0⟩ ∈ p.items ∧
          (result? (startWith image (evaluator image 30) (endState first))).isSome = true :=
    Program.exists_of_parse (by decide +kernel)
  refine ⟨p, hp, _, ⟨⟨30, rfl⟩, ?_⟩, hhalt,
    not_startsFresh_of_calls_ne_nil ?_ hitem hstart, hresult⟩
  · rw [hhalt]
    nofun
  · intro hnil
    rw [hnil] at hcalls
    cases hcalls

end MiniC.Run
