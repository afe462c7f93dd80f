import MiniC.Proofs.Assertion

/-!
# Runs that are cut short

Two runs of a program under different configurations do the same until a limit or a check of the
first stops it. A `Cut` says which states of two such runs correspond, and what is known when the
first has halted and the second went on. A computation follows another one (`Run.Follows`) if from
corresponding states both end the same way in corresponding states, or the first is stopped as the
cut allows.

The configurations matter to few operations: accesses to the heap, input and output, reports, and
the limit on the depth of calls. Where a cut fits these (`Cut.Fits`), evaluation under the one
configuration follows evaluation under the other (`Run.followed_evaluator`), also with more fuel.
-/

set_option autoImplicit false

namespace MiniC

/-! ## What a run adds -/

/-- A console after some reading, writing and taking notice. -/
inductive Console.Later {κ : Type} [Console κ] : κ → κ → Prop
  | refl (c : κ) : Later c c
  | read {c d : κ} : Later c d → Later c (Console.readInt d).2
  | write {c d : κ} (value : Int32) : Later c d → Later c (Console.writeInt value d)
  | notify {c d : κ} (diagnostic : Diagnostic) : Later c d → Later c (Console.notify diagnostic d)

/-- A console that is later than a later one is later. -/
theorem Console.Later.trans {κ : Type} [Console κ] {a b c : κ} (hab : Later a b) (hbc : Later b c) :
    Later a c := by
  induction hbc with
  | refl => exact hab
  | read _ ih => exact ih.read
  | write value _ ih => exact ih.write value
  | notify diagnostic _ ih => exact ih.notify diagnostic

/-- What a scripted console has put out stays there. -/
theorem Scripted.output_isPrefix {c d : Scripted} (h : Console.Later c d) :
    c.output.toList <+: d.output.toList := by
  induction h with
  | refl => exact List.prefix_refl _
  | read _ ih => exact ih
  | @write d value _ ih =>
    obtain ⟨rest, hrest⟩ := ih
    refine ⟨rest ++ [value], ?_⟩
    rw [← List.append_assoc, hrest]
    exact Array.toList_push.symm
  | notify _ _ ih => exact ih

/-- A state after more of a run: output and diagnostics were only added to. -/
structure State.Later {κ : Type} [Console κ] (s t : State κ) : Prop where
  console : Console.Later s.console t.console
  diagnostics : s.diagnostics.toList <+: t.diagnostics.toList

theorem State.Later.trans {κ : Type} [Console κ] {s t u : State κ} (hst : s.Later t)
    (htu : t.Later u) :
    s.Later u :=
  ⟨hst.console.trans htu.console, hst.diagnostics.trans htu.diagnostics⟩

/-- A state after more of a run in which nothing was reported. -/
structure State.Silent {κ : Type} [Console κ] (s t : State κ) : Prop where
  console : Console.Later s.console t.console
  diagnostics : t.diagnostics = s.diagnostics

/-- A state with the same console and the same diagnostics. -/
theorem State.silent_of_eq {κ : Type} [Console κ] {s t : State κ} (hc : t.console = s.console)
    (hd : t.diagnostics = s.diagnostics) : s.Silent t := by
  constructor
  · rw [hc]
    exact .refl _
  · exact hd

/-- A state after which nothing was reported is later. -/
theorem State.Silent.later {κ : Type} [Console κ] {s t : State κ} (h : s.Silent t) : s.Later t := by
  constructor
  · exact h.console
  · exact h.diagnostics ▸ List.prefix_refl _

/-- A state with the same console and the same diagnostics counts as later. -/
theorem State.later_of_eq {κ : Type} [Console κ] {s t : State κ} (hc : t.console = s.console)
    (hd : t.diagnostics = s.diagnostics) : s.Later t :=
  (State.silent_of_eq hc hd).later

/-! ## Cuts -/

/-- The image of the same program with another configuration. -/
def Image.withConfig (image : Image) (config : Config) : Image := { image with config }

section WithConfig

variable (image : Image) (config : Config)

@[simp] theorem Image.withConfig_program : (image.withConfig config).program = image.program := rfl

@[simp] theorem Image.withConfig_config : (image.withConfig config).config = config := rfl

@[simp] theorem Image.withConfig_typeOf (e : ExprId) :
    (image.withConfig config).typeOf e = image.typeOf e := rfl

@[simp] theorem Image.withConfig_builtin? (d : DeclId) :
    (image.withConfig config).builtin? d = image.builtin? d := rfl

@[simp] theorem Image.withConfig_entry : (image.withConfig config).entry = image.entry := rfl

end WithConfig

/-- How a run may be cut short against another one: which states of the two correspond, and what is
known of the states when the first has halted for a reason while the second went on. Corresponding
states have the same call stack and the same arrays. -/
structure Cut (κ : Type) [Console κ] where
  related : State κ → State κ → Prop
  stopped : Halt → State κ → State κ → Prop
  stack : ∀ {s t}, related s t → t.stack = s.stack
  arrays : ∀ {s t}, related s t → t.arrays = s.arrays
  withStack : ∀ {s t}, related s t → ∀ stack, related { s with stack } { t with stack }
  withArrays : ∀ {s t}, related s t → ∀ arrays, related { s with arrays } { t with arrays }
  later : ∀ {h s t u}, stopped h s t → t.Later u → stopped h s u

namespace Run

variable {κ α β : Type} [Console κ]

/-- Computations that add to output and diagnostics may follow one another. -/
theorem laterEffects : Effects (State.Later (κ := κ)) State.Later where
  refl _ := State.later_of_eq rfl rfl
  trans := State.Later.trans
  halted _ := State.later_of_eq rfl rfl
  after := State.Later.trans

/-- Computations that report nothing may follow one another. -/
theorem silentEffects : Effects (State.Silent (κ := κ)) State.Silent where
  refl _ := State.silent_of_eq rfl rfl
  trans hst htu := ⟨hst.console.trans htu.console, htu.diagnostics.trans hst.diagnostics⟩
  halted _ := State.silent_of_eq rfl rfl
  after hst htu := ⟨hst.console.trans htu.console, htu.diagnostics.trans hst.diagnostics⟩

/-- The computation only adds to the output and to the diagnostics. -/
abbrev Adds (y : Run κ α) : Prop := Within State.Later State.Later y

/-- The computation only adds to the output. -/
abbrev Reportless (y : Run κ α) : Prop := Within State.Silent State.Silent y

/-- What reports nothing only adds to the output. -/
theorem Reportless.adds {y : Run κ α} (hy : Reportless y) : Adds y :=
  hy.mono (fun _ _ => State.Silent.later) fun _ _ => State.Silent.later

/-- The state in which a computation ends is later than the one it began in. -/
theorem Adds.later_endState {y : Run κ α} (hy : Adds y) (t : State κ) :
    t.Later (endState (y t)) := by
  have h := hy t
  unfold Ensures at h
  cases hr : y t with
  | ok a u =>
    rw [hr] at h
    exact h
  | error halt u =>
    rw [hr] at h
    exact h

section Operations

variable (image : Image)

/-- A report is added to the diagnostics, or stops the run. -/
theorem adds_report (e : ExprId) (construct : Unsupported) :
    Adds (report image e construct : Run κ Unit) := by
  unfold report
  dsimp only
  split
  · exact Within.of_readOnly laterEffects (readOnly_fault _ _)
  · apply Within.bind laterEffects
    · intro s
      constructor
      · exact .notify _ (.refl _)
      · exact ⟨_, Array.toList_push.symm⟩
    · intro _ s
      exact State.later_of_eq rfl rfl

theorem reportless_load (place : Place) : Reportless (load image place : Run κ Int32) :=
  .of_readOnly silentEffects (readOnly_load image place)

/-- Storing a value reports nothing. -/
theorem reportless_store (place : Place) (value : Int32) :
    Reportless (store image place value : Run κ Unit) := by
  intro s
  rw [store, ensures_bind, ensures_get]
  cases place with
  | heap address =>
    apply (readOnly_orFault image _).ensures_bind
    · exact fun _ => State.silent_of_eq rfl rfl
    · exact fun _ => silentEffects.halted s
  | array id index =>
    apply (readOnly_orFault image _).ensures_bind
    · exact fun _ => State.silent_of_eq rfl rfl
    · exact fun _ => silentEffects.halted s

/-- Reading a number reports nothing. -/
theorem reportless_callGet (e : ExprId) : Reportless (callGet image e : Run κ Unit) := by
  intro s
  rw [callGet, ensures_bind, ensures_get]
  dsimp only
  rw [ensures_bind, ensures_set]
  split
  · exact ⟨.read (.refl _), rfl⟩
  · exact ⟨.read (.refl _), rfl⟩

/-- Printing a number adds to the output only. -/
theorem reportless_callPrint (arg : ExprId) : Reportless (callPrint image arg : Run κ Unit) := by
  apply Within.bind silentEffects (Within.of_readOnly silentEffects (readOnly_valueOf image arg))
  intro value s
  exact ⟨.write value (.refl _), rfl⟩

/-- Handing out a block of the heap, whose size is known. -/
theorem reportless_allocate (e : ExprId) (size : Int32) :
    Reportless (do
      let s ← get
      let (address, heap) ← orFault image (s.heap.allocate size)
      set { s with heap }
      bindExpr e address : Run κ Unit) := by
  intro s
  rw [ensures_bind, ensures_get]
  apply (readOnly_orFault image _).ensures_bind
  · exact fun _ => State.silent_of_eq rfl rfl
  · exact fun _ => silentEffects.halted s

theorem reportless_callMalloc (e arg : ExprId) : Reportless (callMalloc image e arg : Run κ Unit) :=
  .bind silentEffects (.of_readOnly silentEffects (readOnly_valueOf image arg)) fun size =>
    reportless_allocate image e size

end Operations

/-- Both computations ended the same way in corresponding states, or the first was stopped. -/
inductive Matched (c : Cut κ) : EStateM.Result Halt (State κ) α →
    EStateM.Result Halt (State κ) α → Prop
  | ok {a : α} {s t : State κ} : c.related s t → Matched c (.ok a s) (.ok a t)
  | error {h : Halt} {s t : State κ} : c.related s t → Matched c (.error h s) (.error h t)
  | stopped {h : Halt} {s : State κ} {r : EStateM.Result Halt (State κ) α} :
      c.stopped h s (endState r) → Matched c (.error h s) r

/-- From corresponding states the first computation does what the second does, until it is
stopped. -/
structure Follows (c : Cut κ) (x y : Run κ α) : Prop where
  matched : ∀ {s t}, c.related s t → Matched c (x s) (y t)
  adds : Adds y

/-! ## Computations that follow one another -/

section Sequence

variable {c : Cut κ} {x y : Run κ α}

theorem Follows.pure (a : α) : Follows c (pure a) (pure a) := by
  constructor
  · intro s t hst
    exact .ok hst
  · exact Within.pure laterEffects a

/-- A computation that halts follows itself. -/
theorem Follows.throw (h : Halt) : Follows c (throw h : Run κ α) (throw h) := by
  constructor
  · intro s t hst
    exact .error hst
  · exact Within.throw laterEffects h

/-- A computation that is stopped at once follows every other one. -/
theorem Follows.of_stopped {h : Halt} (hx : ∀ s, x s = .error h s) (hy : Adds y)
    (hstop : ∀ {s t}, c.related s t → c.stopped h s t) : Follows c x y := by
  constructor
  · intro s t hst
    rw [hx s]
    apply Matched.stopped
    exact c.later (hstop hst) (hy.later_endState t)
  · exact hy

/-- Computations that follow others do so one after the other. -/
theorem Follows.bind {f g : α → Run κ β} (hxy : Follows c x y) (hfg : ∀ a, Follows c (f a) (g a)) :
    Follows c (x >>= f) (y >>= g) := by
  constructor
  · intro s t hst
    have hx := hxy.matched hst
    rw [bind_apply, bind_apply]
    generalize x s = r, y t = r' at hx
    cases hx with
    | ok h => exact (hfg _).matched h
    | error h => exact .error h
    | @stopped _ _ r' h =>
      -- the second computation goes on with `g`, which only adds to what it ended with
      apply Matched.stopped
      cases r' with
      | error _ _ => exact h
      | ok a u => exact c.later h ((hfg a).adds.later_endState u)
  · exact Within.bind laterEffects hxy.adds fun a => (hfg a).adds

/-- The call stack and the arrays are read, which are the same for both. -/
theorem Follows.of_get {f g : State κ → Run κ α}
    (hf : ∀ {s t : State κ}, t.stack = s.stack → t.arrays = s.arrays → f t = f s)
    (hfg : ∀ s, Follows c (f s) (g s)) : Follows c (get >>= f) (get >>= g) := by
  constructor
  · intro s t hst
    rw [bind_apply, bind_apply]
    change Matched c (f s s) (g t t)
    rw [← hf (c.stack hst) (c.arrays hst)]
    exact (hfg t).matched hst
  · apply Within.bind laterEffects (Within.of_readOnly laterEffects readOnly_get)
    intro t
    exact (hfg t).adds

theorem Follows.ite {p : Prop} [Decidable p] {x' y' : Run κ α} (hxy : Follows c x y)
    (hxy' : Follows c x' y') : Follows c (if p then x else x') (if p then y else y') := by
  by_cases h : p
  · rw [if_pos h, if_pos h]
    exact hxy
  · rw [if_neg h, if_neg h]
    exact hxy'

theorem follows_modifyStack (f : CallStack → CallStack) :
    Follows c (modifyStack f : Run κ Unit) (modifyStack f) := by
  constructor
  · intro s t hst
    apply Matched.ok
    change c.related { s with stack := f s.stack } { t with stack := f t.stack }
    rw [c.stack hst]
    exact c.withStack hst _
  · intro t
    exact State.later_of_eq rfl rfl

/-- Corresponding states have the same call stack, so a value is bound alike in both. -/
theorem follows_bindExpr (e : ExprId) (value : Int32) :
    Follows c (bindExpr e value : Run κ Unit) (bindExpr e value) := follows_modifyStack _

theorem follows_focusOn (focus : Focus) : Follows c (focusOn focus : Run κ Unit) (focusOn focus) :=
  follows_modifyStack _

/-- To follow another computation is kept by all ways of putting computations together. -/
theorem Follows.composes : Composes fun _ x y => Follows c x y := ⟨Follows.pure, Follows.bind⟩

end Sequence

/-! ## Reading the call stack -/

section Reading

variable {c : Cut κ} (image : Image)

/-- A fault is raised at the same place in corresponding states. -/
theorem follows_faultHere (cause : RuntimeFault) :
    Follows c (faultHere image cause : Run κ α) (faultHere image cause) := by
  have hlocation : Follows c (location image : Run κ Location) (location image) := by
    apply Follows.of_get
    · intro s t hstack _
      rw [hstack]
    · intro s
      exact .pure _
  exact hlocation.bind fun _ => .throw _

theorem follows_orFault (answer : Except MemoryFault α) :
    Follows c (orFault image answer : Run κ α) (orFault image answer) := by
  cases answer with
  | ok a => exact .pure a
  | error f => exact follows_faultHere image _

/-- The value of an expression is the same in corresponding states. -/
theorem follows_valueOf (e : ExprId) :
    Follows c (valueOf image e : Run κ Int32) (valueOf image e) := by
  apply Follows.of_get
  · intro s t hstack _
    rw [hstack]
  · intro s
    exact follows_orFault image _

theorem follows_valueOfDecl (d : DeclId) :
    Follows c (valueOfDecl image d : Run κ Int32) (valueOfDecl image d) := by
  apply Follows.of_get
  · intro s t hstack _
    rw [hstack]
  · intro s
    dsimp only
    split
    · exact .pure _
    · exact follows_faultHere image _

theorem follows_checkConversion (expected : CType) (source : ExprId) :
    Follows c (checkConversion image expected source : Run κ Unit)
      (checkConversion image expected source) := by
  unfold checkConversion
  dsimp only
  split
  · exact .throw _
  · exact .pure _

theorem follows_readReturned (e : ExprId) :
    Follows c (readReturned image e : Run κ Int32) (readReturned image e) := by
  apply Follows.of_get
  · intro s t hstack _
    rw [hstack]
  · intro s
    dsimp only
    split
    · apply Follows.ite
      · exact (follows_checkConversion image _ e).bind fun _ => follows_valueOf image e
      · exact follows_valueOf image e
    · exact follows_valueOf image e

theorem follows_checkArity (function : String) (expected got : Nat) :
    Follows c (checkArity image function expected got : Run κ Unit)
      (checkArity image function expected got) := by
  unfold checkArity
  split
  · exact follows_faultHere image _
  · exact .pure _

/-- The place of an element does not depend on the configuration. -/
theorem follows_elementPlace (base index : ExprId) :
    Follows c (elementPlace image base index : Run κ Place) (elementPlace image base index) :=
  (follows_valueOf image base).bind fun _ => (follows_valueOf image index).bind fun _ => .pure _

end Reading

end Run

/-! ## Operations -/

open Run in
/-- The operations that the configurations matter to are carried out under the second as under the
first, as far as the cut asks for. -/
structure Cut.Fits {κ : Type} [Console κ] (c : Cut κ) (image : Image) (config : Config) : Prop where
  report : ∀ e construct, Follows c (report image e construct)
    (report (image.withConfig config) e construct)
  load : ∀ address, Follows c (load image (.heap address))
    (load (image.withConfig config) (.heap address))
  store : ∀ address value,
    Follows c (store image (.heap address) value)
      (store (image.withConfig config) (.heap address) value)
  get : ∀ e, Follows c (callGet image e) (callGet (image.withConfig config) e)
  print : ∀ arg, Follows c (callPrint image arg) (callPrint (image.withConfig config) arg)
  malloc : ∀ e arg, Follows c (callMalloc image e arg) (callMalloc (image.withConfig config) e arg)
  /-- The limit on the depth of calls, and what is done if it is not exceeded. -/
  depth : ∀ {x y : Run κ Unit}, Follows c x y →
    Follows c
      (do
        if image.config.maxCallDepth < (← MonadState.get).stack.depth then
          faultHere image (.recursionLimit image.config.maxCallDepth)
        x)
      (do
        if config.maxCallDepth < (← MonadState.get).stack.depth then
          faultHere (image.withConfig config) (.recursionLimit config.maxCallDepth)
        y)

namespace Cut.Fits

open Run

variable {κ : Type} [Console κ] {c : Cut κ} {image : Image} {config : Config}
    (fits : c.Fits image config)
include fits

/-- A name stands for the same under both configurations, or is reported as the cut asks. -/
theorem reference (e : ExprId) (d : DeclId) :
    Follows c (reference image e d) (reference (image.withConfig config) e d) := by
  unfold Run.reference
  dsimp only [Image.withConfig_program, Image.withConfig_builtin?]
  cases (image.program.decl d).kind with
  | «variable» type init storage =>
    apply Follows.ite
    · exact (follows_valueOfDecl image d).bind fun value => follows_bindExpr e value
    · exact fits.report e _
  | function returnType params body =>
    apply Follows.ite
    · exact follows_bindExpr e 0
    · exact fits.report e _

omit fits in
theorem cast (e operand : ExprId) :
    Follows c (cast image e operand) (cast (image.withConfig config) e operand) := by
  apply Follows.ite
  · exact .pure _
  · exact (follows_valueOf image operand).bind fun value => follows_bindExpr e value

omit fits in
theorem sizeOf (e : ExprId) (type : CType) :
    Follows c (sizeOf image e type) (sizeOf (image.withConfig config) e type) := by
  apply Follows.ite
  · exact follows_bindExpr e _
  · apply Follows.ite
    · exact follows_bindExpr e _
    · exact .throw _

theorem loadAt (place : Place) :
    Follows c (Run.load image place) (Run.load (image.withConfig config) place) := by
  cases place with
  | heap address => exact fits.load address
  | array id index =>
    apply Follows.of_get
    · intro s t _ harrays
      rw [harrays]
    · intro s
      exact follows_orFault image _

/-- A value goes to the same place under both configurations, as far as the cut asks. -/
theorem storeAt (place : Place) (value : Int32) :
    Follows c (Run.store image place value) (Run.store (image.withConfig config) place value) := by
  cases place with
  | heap address => exact fits.store address value
  | array id index =>
    constructor
    · intro s t hst
      change Matched c ((orFault image (s.arrays.set id index value) >>= fun arrays =>
        set { s with arrays }) s)
        ((orFault image (t.arrays.set id index value) >>= fun arrays => set { t with arrays }) t)
      rw [c.arrays hst]
      cases s.arrays.set id index value with
      | ok arrays => exact .ok (c.withArrays hst arrays)
      | error f => exact (follows_faultHere (α := Unit) image (.memory f)).matched hst
    · exact (reportless_store _ _ value).adds

theorem subscript (e base index : ExprId) :
    Follows c (subscript image e base index) (subscript (image.withConfig config) e base index) :=
  (follows_elementPlace image base index).bind fun place =>
    (fits.loadAt place).bind fun value => follows_bindExpr e value

theorem unary (e : ExprId) (op : UnaryOp) (operand : ExprId) :
    Follows c (unary image e op operand) (unary (image.withConfig config) e op operand) := by
  unfold Run.unary
  split
  · apply (follows_valueOf image operand).bind
    intro address
    exact (fits.load address).bind fun value => follows_bindExpr e value
  · exact (follows_valueOf image operand).bind fun v => follows_bindExpr e _
  · exact fits.report e _

omit fits in
theorem arith (e : ExprId) (op : ArithOp) (lhs rhs : ExprId) :
    Follows c (arith image e op lhs rhs) (arith (image.withConfig config) e op lhs rhs) := by
  apply (follows_valueOf image lhs).bind
  intro l
  apply (follows_valueOf image rhs).bind
  intro r
  cases op with
  | additive op =>
    dsimp only [Image.withConfig_typeOf]
    split
    · exact follows_bindExpr e _
    · exact .throw _
  | multiplicative op =>
    dsimp only
    split
    · exact follows_bindExpr e _
    · exact .throw _

/-- An assignment is carried out alike, as far as the cut asks of its place. -/
theorem assignTarget (e target : ExprId) (value : Int32) :
    Follows c (assignTarget image e target value)
      (assignTarget (image.withConfig config) e target value) := by
  unfold Run.assignTarget
  dsimp only [Image.withConfig_program]
  split
  · split
    · exact .ite (fits.report e _) (follows_modifyStack _)
    · exact fits.report e _
  · exact (follows_valueOf image _).bind fun address => fits.store address value
  · exact (follows_elementPlace image _ _).bind fun place => fits.storeAt place value
  · exact fits.report e _

theorem assign (e lhs rhs : ExprId) :
    Follows c (assign image e lhs rhs) (assign (image.withConfig config) e lhs rhs) := by
  have hstore : Follows c (do
      let value ← valueOf image rhs
      bindExpr lhs value
      bindExpr e value
      Run.assignTarget image e (image.program.stripParens lhs) value) (do
      let value ← valueOf (image.withConfig config) rhs
      bindExpr lhs value
      bindExpr e value
      Run.assignTarget (image.withConfig config) e (image.program.stripParens lhs) value) := by
    apply (follows_valueOf image rhs).bind
    intro value
    apply (follows_bindExpr lhs value).bind
    intro _
    apply (follows_bindExpr e value).bind
    intro _
    exact fits.assignTarget e _ value
  apply Follows.ite
  · exact (follows_checkConversion image _ rhs).bind fun _ => hstore
  · exact hstore

theorem binary (e : ExprId) (op : BinaryOp) (lhs rhs : ExprId) :
    Follows c (binary image e op lhs rhs) (binary (image.withConfig config) e op lhs rhs) := by
  cases op with
  | assign => exact fits.assign e lhs rhs
  | arith op => exact Fits.arith e op lhs rhs
  | comparison op =>
    apply (follows_valueOf image lhs).bind
    intro l
    exact (follows_valueOf image rhs).bind fun r => follows_bindExpr e _
  | logical op => exact fits.report e _
  | bitwise op => exact fits.report e _
  | compoundAssign op => exact fits.report e _

omit fits in
theorem initialise (d : DeclId) :
    Follows c (initialise image d) (initialise (image.withConfig config) d) := by
  unfold Run.initialise
  dsimp only [Image.withConfig_program]
  split
  · exact .pure _
  · split
    · next length _ _ =>
      constructor
      · intro s t hst
        apply Matched.ok
        change c.related _ { t with
          arrays := (t.arrays.create length t.stack.calls.length).2
          stack :=
            t.stack.modifyTop (·.bindDecl d (t.arrays.create length t.stack.calls.length).1) }
        rw [c.stack hst, c.arrays hst]
        exact c.withStack (c.withArrays hst _) _
      · exact fun _ => State.later_of_eq rfl rfl
    · next init _ _ =>
      apply (follows_checkConversion image _ init).bind
      intro _
      exact (follows_valueOf image init).bind fun value => follows_modifyStack _
    · exact follows_modifyStack _

/-! ## Calls -/

/-- A built-in function is carried out alike, as far as the cut asks of input, output and heap. -/
theorem callBuiltin (e : ExprId) (b : Builtin) (args : List ExprId) :
    Follows c (callBuiltin image e b args) (callBuiltin (image.withConfig config) e b args) := by
  apply (follows_checkArity image b.name b.arity args.length).bind
  intro _
  split
  · exact fits.get e
  · exact fits.print _
  · exact fits.malloc e _
  · -- giving a block back leaves the heap as it is
    exact (follows_valueOf image _).bind fun _ => .pure ()
  · exact .pure _

omit fits in
/-- Opening a frame does not depend on the configuration. -/
theorem openFrame (function : DeclId) (body : StmtId) (bindings : List (DeclId × Int32)) :
    Follows c (openFrame function body bindings) (openFrame function body bindings) := by
  apply (follows_modifyStack _).bind
  intro _
  apply (Follows.composes.forM bindings fun _ _ => follows_modifyStack _).bind
  intro _
  exact follows_focusOn _

theorem enterBody (callee : DeclId) (params : List DeclId) (body : StmtId) (args : List ExprId) :
    Follows c (enterBody image callee params body args)
      (enterBody (image.withConfig config) callee params body args) := by
  apply (follows_checkArity image _ _ _).bind
  intro _
  apply (Follows.composes.forM (params.zip args) fun pair _ =>
    follows_checkConversion image _ pair.2).bind
  intro _
  apply (Follows.composes.mapM args fun a _ => follows_valueOf image a).bind
  intro values
  exact fits.depth (Fits.openFrame callee body (params.zip values))

/-- A call is made alike, up to what the cut asks of the limit on the depth. -/
theorem enterCall (e : ExprId) (callee : DeclId) (args : List ExprId) :
    Follows c (enterCall image e callee args)
      (enterCall (image.withConfig config) e callee args) := by
  unfold Run.enterCall
  dsimp only [Image.withConfig_program, Image.withConfig_builtin?]
  split
  · exact (fits.callBuiltin e _ args).bind fun _ => .pure _
  · split
    · exact (fits.enterBody callee _ _ args).bind fun _ => .pure _
    · exact follows_faultHere image _

omit fits in
/-- The entry function is entered without a look at the limit. -/
theorem enterMain : Follows c (enterMain image) (enterMain (image.withConfig config)) := by
  unfold Run.enterMain
  dsimp only [Image.withConfig_program, Image.withConfig_entry]
  split
  · exact .throw _
  · split
    · exact (Fits.openFrame _ _ _).bind fun _ => .pure _
    · exact .throw _

/-- All operations are carried out under the second configuration as under the first. -/
theorem operates : Operates (fun _ x y => Follows c x y) image (image.withConfig config) where
  toComposes := Follows.composes
  kinds := ⟨fun _ => rfl, fun _ => rfl, fun _ => rfl, rfl⟩
  focusOn := follows_focusOn
  bindExpr := follows_bindExpr
  valueOf := follows_valueOf image
  readReturned := follows_readReturned image
  reference := fits.reference
  cast := Fits.cast
  sizeOf := Fits.sizeOf
  subscript := fits.subscript
  unary := fits.unary
  binary := fits.binary
  initialise := Fits.initialise
  enterCall := fits.enterCall
  enterMain := Fits.enterMain
  pop := follows_modifyStack _

end Cut.Fits

/-! ## Evaluation -/

/-- A first computation that runs out of fuel is stopped, if the second one gets more of it. -/
def Cut.Spares {κ : Type} [Console κ] (c : Cut κ) (spare : Nat) : Prop :=
  0 < spare → ∀ {s t}, c.related s t → c.stopped .outOfFuel s t

namespace Run

variable {κ α : Type} [Console κ] {c : Cut κ}

/-- A computation without fuel is followed by every one, if that may have more fuel. -/
theorem follows_outOfFuel {spare : Nat} (hspare : c.Spares spare) {y : Run κ α} (hy : Adds y)
    (hzero : spare = 0 → y = throw .outOfFuel) : Follows c (throw .outOfFuel) y := by
  by_cases h : spare = 0
  · rw [hzero h]
    exact .throw _
  · exact .of_stopped (fun _ => rfl) hy (hspare (Nat.pos_of_ne_zero h))

/-- If the cut spares it, the second computation may go round its loops more often. -/
theorem follows_loops {spare : Nat} (hspare : c.Spares spare) (rounds : Nat) :
    Loops (fun _ x y => Follows c x y) rounds (rounds + spare) := by
  intro condition condition' action action' hc ha
  induction rounds with
  | zero =>
    apply follows_outOfFuel hspare
    · exact Within.whileHolds laterEffects hc.adds ha.adds _
    · rintro rfl
      rfl
  | succ rounds ih =>
    rw [Nat.add_right_comm]
    apply hc.bind
    intro holds
    cases holds with
    | false => exact .pure _
    | true =>
      apply ha.bind
      intro flow
      cases flow with
      | normal => exact ih
      | returned value => exact .pure _

/-- The nodes that a second evaluator carries out as the first, as far as the cut asks for. -/
abbrev Followed (c : Cut κ) (ev ev' : Evaluator κ) : Prop :=
  Related (fun _ x y => Follows c x y) ev ev'

/-- Where a cut fits, evaluation under the second configuration follows that under the first, with
the same fuel, and with more of it if nodes without fuel are followed. -/
theorem followed_evaluator {image : Image} {config : Config}
    (fits : c.Fits image config) {spare : Nat} (hspare : c.Spares spare)
    (hzero : Followed c (evaluator image 0) (evaluator (image.withConfig config) spare))
    (fuel : Nat) :
    Followed c (evaluator image fuel) (evaluator (image.withConfig config) (fuel + spare)) := by
  induction fuel with
  | zero =>
    rw [Nat.zero_add]
    exact hzero
  | succ fuel ih =>
    rw [Nat.add_right_comm]
    exact fits.operates.related_succ (follows_loops hspare fuel) ih

end Run

end MiniC
