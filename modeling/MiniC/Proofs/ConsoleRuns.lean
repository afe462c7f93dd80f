import MiniC.Proofs.RunOutcome

/-!
# Runs with two consoles

Runs of a program with two consoles are the same as long as the consoles give the same answers. A
`Console.Pairing` says which consoles do: they stay related while they are used, and are parted at
most where no integer could be read, since a run ends there. A computation mirrors itself on the
other console (`Run.Mirrors`): from states that are the same except for related consoles it ends
alike (`Run.mirrors_run`).
-/

set_option autoImplicit false

namespace MiniC

/-! ## Pairs of consoles -/

/-- Consoles that answer alike, and what is left of them when no integer could be read. -/
structure Console.Pairing (κ κ' : Type) [Console κ] [Console κ'] where
  related : κ → κ' → Prop
  parted : κ → κ' → Prop
  part : ∀ {c c'}, related c c' → parted c c'
  answer : ∀ {c c'}, related c c' → (Console.readInt c').1 = (Console.readInt c).1
  read : ∀ {c c'}, related c c' → (Console.readInt c).1 ≠ none →
    related (Console.readInt c).2 (Console.readInt c').2
  unread : ∀ {c c'}, related c c' → (Console.readInt c).1 = none →
    parted (Console.readInt c).2 (Console.readInt c').2
  write : ∀ {c c'} (value : Int32), related c c' →
    related (Console.writeInt value c) (Console.writeInt value c')
  notify : ∀ {c c'} (d : Diagnostic), related c c' →
    related (Console.notify d c) (Console.notify d c')

/-- States that are the same except for their consoles, which are related. -/
structure State.Paired {κ κ' : Type} (R : κ → κ' → Prop) (s : State κ) (t : State κ') : Prop where
  stack : t.stack = s.stack
  heap : t.heap = s.heap
  arrays : t.arrays = s.arrays
  diagnostics : t.diagnostics = s.diagnostics
  console : R s.console t.console

namespace Run

variable {κ κ' α β : Type} [Console κ] [Console κ'] {P : Console.Pairing κ κ'}

/-- Both computations ended alike. -/
inductive Mirrored (P : Console.Pairing κ κ') :
    EStateM.Result Halt (State κ) α → EStateM.Result Halt (State κ') α → Prop
  | ok {a : α} {s : State κ} {t : State κ'} : s.Paired P.related t → Mirrored P (.ok a s) (.ok a t)
  | error {h : Halt} {s : State κ} {t : State κ'} :
    s.Paired P.parted t → Mirrored P (.error h s) (.error h t)

/-- From states with related consoles the computations end alike. -/
def Mirrors (P : Console.Pairing κ κ') (x : Run κ α) (y : Run κ' α) : Prop :=
  ∀ s t, s.Paired P.related t → Mirrored P (x s) (y t)

/-- Consoles that still answer alike may be said to be parted. -/
theorem parted_of_related {s : State κ} {t : State κ'} (h : s.Paired P.related t) :
    s.Paired P.parted t :=
  ⟨h.stack, h.heap, h.arrays, h.diagnostics, P.part h.console⟩

namespace Mirrors

variable {x : Run κ α} {y : Run κ' α}

theorem pure (a : α) : Mirrors P (pure a : Run κ α) (pure a) := fun _ _ h => .ok h

/-- The same halt may be thrown on both consoles. -/
theorem throw (h : Halt) : Mirrors P (throw h : Run κ α) (throw h) :=
  fun _ _ hst => .error (parted_of_related hst)

/-- Computations that end alike may be carried out one after the other. -/
theorem bind {f : α → Run κ β} {g : α → Run κ' β} (hxy : Mirrors P x y)
    (hfg : ∀ a, Mirrors P (f a) (g a)) :
    Mirrors P (x >>= f) (y >>= g) := by
  intro s t hst
  have h := hxy s t hst
  rw [bind_apply, bind_apply]
  generalize x s = r, y t = r' at h
  cases h with
  | ok h => exact hfg _ _ _ h
  | error h => exact .error h

/-- What follows may depend on the state, which is the same up to the console. -/
theorem get {f : State κ → Run κ α} {g : State κ' → Run κ' α}
    (h : ∀ {s t}, s.Paired P.related t → Mirrors P (f s) (g t)) :
    Mirrors P (get >>= f) (get >>= g) :=
  fun s t hst => h hst s t hst

/-- Consoles that stay related may be put into the states. -/
theorem set {s : State κ} {t : State κ'} (h : s.Paired P.related t) :
    Mirrors P (set s : Run κ PUnit) (set t) := fun _ _ _ => .ok h

/-- To end alike is kept by all ways of putting computations together. -/
theorem composes : Composes fun _ x y => Mirrors P x y := ⟨pure, bind⟩

end Mirrors

/-! ## Operations -/

section Operations

variable (image : Image)

/-- The call stacks are the same, so they are changed alike. -/
theorem mirrors_modifyStack (f : CallStack → CallStack) :
    Mirrors P (modifyStack f : Run κ Unit) (modifyStack f) :=
  fun _ _ h => .ok { h with stack := congrArg f h.stack }

/-- A value is bound alike on both sides. -/
theorem mirrors_bindExpr (e : ExprId) (value : Int32) :
    Mirrors P (bindExpr e value : Run κ Unit) (bindExpr e value) := mirrors_modifyStack _

theorem mirrors_focusOn (focus : Focus) : Mirrors P (focusOn focus : Run κ Unit) (focusOn focus) :=
  mirrors_modifyStack _

/-- A fault is raised alike on both sides. -/
theorem mirrors_fault (cause : RuntimeFault) (loc : Location) :
    Mirrors P (fault cause loc : Run κ α) (fault cause loc) := .throw _

theorem mirrors_faultHere (cause : RuntimeFault) :
    Mirrors P (faultHere image cause : Run κ α) (faultHere image cause) := by
  refine .get fun {s t} hst => ?_
  rw [hst.stack]
  exact mirrors_fault _ _

theorem mirrors_orFault (answer : Except MemoryFault α) :
    Mirrors P (orFault image answer : Run κ α) (orFault image answer) := by
  cases answer with
  | ok a => exact .pure a
  | error f => exact mirrors_faultHere image _

/-- The value of an expression does not depend on the console. -/
theorem mirrors_valueOf (e : ExprId) :
    Mirrors P (valueOf image e : Run κ Int32) (valueOf image e) := by
  refine .get fun hst => ?_
  rw [hst.stack]
  exact mirrors_orFault image _

/-- The value of a variable does not depend on the console. -/
theorem mirrors_valueOfDecl (d : DeclId) :
    Mirrors P (valueOfDecl image d : Run κ Int32) (valueOfDecl image d) := by
  refine .get fun hst => ?_
  rw [hst.stack]
  dsimp only
  split
  · exact .pure _
  · exact mirrors_faultHere image _

/-- A construct without a meaning is reported alike on both sides. -/
theorem mirrors_report (e : ExprId) (construct : Unsupported) :
    Mirrors P (report image e construct : Run κ Unit) (report image e construct) := by
  unfold report
  dsimp only
  split
  · exact mirrors_fault _ _
  · refine .bind (fun _ _ h => .ok ?_) fun _ => mirrors_bindExpr e 0
    exact { h with diagnostics := by simp only [h.diagnostics], console := P.notify _ h.console }

theorem mirrors_checkConversion (expected : CType) (source : ExprId) :
    Mirrors P (checkConversion image expected source : Run κ Unit)
      (checkConversion image expected source) := by
  unfold checkConversion
  dsimp only
  split
  · exact mirrors_fault _ _
  · exact .pure ()

theorem mirrors_reference (e : ExprId) (d : DeclId) :
    Mirrors P (reference image e d : Run κ Unit) (reference image e d) := by
  unfold reference
  dsimp only
  split
  · split
    · exact (mirrors_valueOfDecl image d).bind fun _ => mirrors_bindExpr e _
    · exact mirrors_report image e _
  · split
    · exact mirrors_bindExpr e 0
    · exact mirrors_report image e _

theorem mirrors_cast (e operand : ExprId) :
    Mirrors P (cast image e operand : Run κ Unit) (cast image e operand) := by
  unfold cast
  split
  · exact .pure _
  · exact (mirrors_valueOf image operand).bind fun _ => mirrors_bindExpr e _

theorem mirrors_sizeOf (e : ExprId) (type : CType) :
    Mirrors P (sizeOf image e type : Run κ Unit) (sizeOf image e type) := by
  unfold sizeOf
  split
  · exact mirrors_bindExpr e _
  · split
    · exact mirrors_bindExpr e _
    · exact mirrors_fault _ _

/-- What is read of memory does not depend on the console. -/
theorem mirrors_load (place : Place) :
    Mirrors P (load image place : Run κ Int32) (load image place) := by
  refine .get fun hst => ?_
  rw [hst.heap, hst.arrays]
  cases place <;> exact mirrors_orFault image _

/-- What is stored in memory does not depend on the console. -/
theorem mirrors_store (place : Place) (value : Int32) :
    Mirrors P (store image place value : Run κ Unit) (store image place value) := by
  refine .get fun hst => ?_
  cases place with
  | heap address =>
    rw [hst.heap]
    exact (mirrors_orFault image _).bind fun heap => .set { hst with heap := rfl }
  | array id index =>
    rw [hst.arrays]
    exact (mirrors_orFault image _).bind fun arrays => .set { hst with arrays := rfl }

/-- The place of an element does not depend on the console. -/
theorem mirrors_elementPlace (base index : ExprId) :
    Mirrors P (elementPlace image base index : Run κ Place) (elementPlace image base index) :=
  (mirrors_valueOf image base).bind fun _ => (mirrors_valueOf image index).bind fun _ => .pure _

theorem mirrors_subscript (e base index : ExprId) :
    Mirrors P (subscript image e base index : Run κ Unit) (subscript image e base index) :=
  (mirrors_elementPlace image base index).bind fun place =>
    (mirrors_load image place).bind fun _ => mirrors_bindExpr e _

theorem mirrors_unary (e : ExprId) (op : UnaryOp) (operand : ExprId) :
    Mirrors P (unary image e op operand : Run κ Unit) (unary image e op operand) := by
  unfold unary
  split
  · exact (mirrors_valueOf image operand).bind fun address =>
      (mirrors_load image (.heap address)).bind fun _ => mirrors_bindExpr e _
  · exact (mirrors_valueOf image operand).bind fun _ => mirrors_bindExpr e _
  · exact mirrors_report image e _

theorem mirrors_arith (e : ExprId) (op : ArithOp) (lhs rhs : ExprId) :
    Mirrors P (arith image e op lhs rhs : Run κ Unit) (arith image e op lhs rhs) := by
  refine (mirrors_valueOf image lhs).bind fun l => (mirrors_valueOf image rhs).bind fun r => ?_
  cases op with
  | additive op =>
    dsimp only
    split
    · exact mirrors_bindExpr e _
    · exact mirrors_fault _ _
  | multiplicative op =>
    dsimp only
    split
    · exact mirrors_bindExpr e _
    · exact mirrors_fault _ _

theorem mirrors_assignDecl (d : DeclId) (value : Int32) :
    Mirrors P (assignDecl d value : Run κ Unit) (assignDecl d value) := mirrors_modifyStack _

theorem mirrors_assignTarget (e target : ExprId) (value : Int32) :
    Mirrors P (assignTarget image e target value : Run κ Unit)
      (assignTarget image e target value) := by
  unfold assignTarget
  split
  · split
    · split
      · exact mirrors_report image e _
      · exact mirrors_assignDecl _ value
    · exact mirrors_report image e _
  · exact (mirrors_valueOf image _).bind fun _ => mirrors_store image _ value
  · exact (mirrors_elementPlace image _ _).bind fun _ => mirrors_store image _ value
  · exact mirrors_report image e _

/-- An assignment does not look at the console. -/
theorem mirrors_assign (e lhs rhs : ExprId) :
    Mirrors P (assign image e lhs rhs : Run κ Unit) (assign image e lhs rhs) := by
  have hstore : Mirrors P (do
      let value ← valueOf image rhs
      bindExpr lhs value
      bindExpr e value
      assignTarget image e (image.program.stripParens lhs) value : Run κ Unit) (do
      let value ← valueOf image rhs
      bindExpr lhs value
      bindExpr e value
      assignTarget image e (image.program.stripParens lhs) value) :=
    (mirrors_valueOf image rhs).bind fun value => (mirrors_bindExpr lhs value).bind fun _ =>
      (mirrors_bindExpr e value).bind fun _ => mirrors_assignTarget image e _ value
  unfold assign
  dsimp only
  split
  · exact (mirrors_checkConversion image _ rhs).bind fun _ => hstore
  · exact hstore

/-- No operator looks at the console. -/
theorem mirrors_binary (e : ExprId) (op : BinaryOp) (lhs rhs : ExprId) :
    Mirrors P (binary image e op lhs rhs : Run κ Unit) (binary image e op lhs rhs) := by
  cases op with
  | assign => exact mirrors_assign image e lhs rhs
  | arith op => exact mirrors_arith image e op lhs rhs
  | comparison op =>
    exact (mirrors_valueOf image lhs).bind fun _ => (mirrors_valueOf image rhs).bind fun _ =>
      mirrors_bindExpr e _
  | logical op => exact mirrors_report image e _
  | bitwise op => exact mirrors_report image e _
  | compoundAssign op => exact mirrors_report image e _

/-- A variable is declared alike on both sides. -/
theorem mirrors_declare (d : DeclId) (value : Int32) :
    Mirrors P (declare d value : Run κ Unit) (declare d value) := mirrors_modifyStack _

/-- A variable is initialised alike on both sides. -/
theorem mirrors_initialise (d : DeclId) :
    Mirrors P (initialise image d : Run κ Unit) (initialise image d) := by
  unfold initialise
  split
  · exact .pure _
  · split
    · refine .get fun hst => ?_
      rw [hst.arrays, hst.stack]
      refine .bind (.set ?_) fun _ => mirrors_declare d _
      exact { hst with stack := rfl, arrays := rfl }
    · refine (mirrors_checkConversion image _ _).bind fun _ => ?_
      exact (mirrors_valueOf image _).bind fun _ => mirrors_declare d _
    · exact mirrors_declare d 0

/-! ## Calls -/

theorem mirrors_checkArity (function : String) (expected got : Nat) :
    Mirrors P (checkArity image function expected got : Run κ Unit)
      (checkArity image function expected got) := by
  unfold checkArity
  split
  · exact mirrors_faultHere image _
  · exact .pure ()

/-- The consoles give the same integer, or none, which ends both. -/
theorem mirrors_callGet (e : ExprId) :
    Mirrors P (callGet image e : Run κ Unit) (callGet image e) := by
  intro s t hst
  -- the read and what follows it, with the answer of each console in sight
  have hanswer := P.answer hst.console
  rw [callGet, callGet, bind_apply, bind_apply, get_apply, get_apply]
  dsimp only
  rw [bind_apply, bind_apply, set_apply, set_apply]
  dsimp only
  rw [hanswer]
  cases hread : (Console.readInt s.console).1 with
  | some value =>
    have hconsole := P.read hst.console (by rw [hread]; exact Option.some_ne_none value)
    exact mirrors_bindExpr e value _ _ { hst with console := hconsole }
  | none =>
    -- the consoles may be parted, since the run ends here
    have hend {κ : Type} (u : State κ) : (faultHere image .inputUnavailable : Run κ Unit) u =
        .error (.error (.fault .inputUnavailable (image.locationIn u.stack))) u := rfl
    dsimp only
    rw [hend, hend, hst.stack]
    exact .error { hst with stack := rfl, console := P.unread hst.console hread }

/-- A number is printed on both consoles. -/
theorem mirrors_callPrint (arg : ExprId) :
    Mirrors P (callPrint image arg : Run κ Unit) (callPrint image arg) :=
  (mirrors_valueOf image arg).bind fun value _ _ h =>
    .ok { h with console := P.write value h.console }

theorem mirrors_callMalloc (e arg : ExprId) :
    Mirrors P (callMalloc image e arg : Run κ Unit) (callMalloc image e arg) := by
  refine (mirrors_valueOf image arg).bind fun size => .get fun hst => ?_
  rw [hst.heap]
  refine (mirrors_orFault image _).bind fun block => .bind (.set ?_) fun _ => mirrors_bindExpr e _
  exact { hst with heap := rfl }

theorem mirrors_callFree (arg : ExprId) :
    Mirrors P (callFree image arg : Run κ Unit) (callFree image arg) :=
  (mirrors_valueOf image arg).bind fun address _ _ h =>
    .ok { h with heap := congrArg (·.free address) h.heap }

/-- A built-in function ends alike on consoles that answer alike. -/
theorem mirrors_callBuiltin (e : ExprId) (b : Builtin) (args : List ExprId) :
    Mirrors P (callBuiltin image e b args : Run κ Unit) (callBuiltin image e b args) := by
  refine (mirrors_checkArity image _ _ _).bind fun _ => ?_
  split
  · exact mirrors_callGet image e
  · exact mirrors_callPrint image _
  · exact mirrors_callMalloc image e _
  · exact mirrors_callFree image _
  · exact .pure _

theorem mirrors_openFrame (function : DeclId) (body : StmtId) (bindings : List (DeclId × Int32)) :
    Mirrors P (openFrame function body bindings : Run κ Unit) (openFrame function body bindings) :=
  (mirrors_modifyStack _).bind fun _ =>
    (Mirrors.composes.forM bindings fun _ _ => mirrors_declare _ _).bind fun _ => mirrors_focusOn _

/-- A body is entered alike on both sides. -/
theorem mirrors_enterBody (callee : DeclId) (params : List DeclId) (body : StmtId)
    (args : List ExprId) :
    Mirrors P (enterBody image callee params body args : Run κ Unit)
      (enterBody image callee params body args) := by
  refine (mirrors_checkArity image _ _ _).bind fun _ => ?_
  refine (Mirrors.composes.forM _ fun _ _ => mirrors_checkConversion image _ _).bind fun _ => ?_
  refine (Mirrors.composes.mapM args fun a _ => mirrors_valueOf image a).bind fun values =>
    .get fun hst => ?_
  rw [hst.stack]
  dsimp only
  split
  · exact (mirrors_faultHere image _).bind fun _ => mirrors_openFrame _ _ _
  · exact mirrors_openFrame _ _ _

/-- A call is made alike on both sides, or refused alike. -/
theorem mirrors_enterCall (e : ExprId) (callee : DeclId) (args : List ExprId) :
    Mirrors P (enterCall image e callee args : Run κ (Option StmtId))
      (enterCall image e callee args) := by
  unfold enterCall
  split
  · exact (mirrors_callBuiltin image e _ args).bind fun _ => .pure _
  · dsimp only
    split
    · exact (mirrors_enterBody image callee _ _ args).bind fun _ => .pure _
    · exact mirrors_faultHere image _

/-- The entry function is entered alike on both sides. -/
theorem mirrors_enterMain : Mirrors P (enterMain image : Run κ StmtId) (enterMain image) := by
  unfold enterMain
  split
  · exact .throw _
  · dsimp only
    split
    · exact (mirrors_openFrame _ _ _).bind fun _ => .pure _
    · exact mirrors_fault _ _

end Operations

/-! ## Evaluation -/

theorem mirrors_readReturned (image : Image) (e : ExprId) :
    Mirrors P (readReturned image e : Run κ Int32) (readReturned image e) := by
  refine .get fun hst => ?_
  rw [hst.stack]
  dsimp only
  split
  · split
    · exact (mirrors_checkConversion image _ e).bind fun _ => mirrors_valueOf image e
    · exact mirrors_valueOf image e
  · exact mirrors_valueOf image e

/-- Nothing that a node does depends on which of the consoles there is. -/
theorem mirrors_operates (image : Image) : Operates (fun _ x y => Mirrors P x y) image image where
  toComposes := Mirrors.composes
  kinds := .refl image
  focusOn := mirrors_focusOn
  bindExpr := mirrors_bindExpr
  valueOf := mirrors_valueOf image
  readReturned := mirrors_readReturned image
  reference := mirrors_reference image
  cast := mirrors_cast image
  sizeOf := mirrors_sizeOf image
  subscript := mirrors_subscript image
  unary := mirrors_unary image
  binary := mirrors_binary image
  initialise := mirrors_initialise image
  enterCall := mirrors_enterCall image
  enterMain := mirrors_enterMain image
  pop := mirrors_modifyStack _

/-- A run with one console ends like the run with the other one. -/
theorem mirrors_run (image : Image) (fuel : Nat) :
    Mirrors P (run image fuel : Run κ Int32) (run image fuel) :=
  (mirrors_operates image).run (fun _ => .throw _) fuel

end Run

end MiniC
