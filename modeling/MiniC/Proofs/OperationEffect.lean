import MiniC.Proofs.Occurrence
import MiniC.Proofs.RunOutcome

/-!
# Effects of operations

Whatever an operation does to the call stack consists of giving values to nodes, with one exception:
an assignment to a name changes a variable (`Program.assigned?`). So an operation stays within every
pair of relations that allows values of its nodes to change, and everything outside the stack
(`Run.NodeEffects`). A declaration changes one variable of the top frame (`Run.Declares`).
-/

set_option autoImplicit false

namespace MiniC

/-- The variable that an expression assigns a value to, where it assigns to a name. -/
def Program.assigned? (p : Program) (e : ExprId) : Option DeclId :=
  match (p.expr e).kind with
  | .binary .assign lhs _ =>
    match (p.expr (p.stripParens lhs)).kind with
    | .declRef d =>
      match (p.decl d).kind with
      | .variable type _ _ => if type.isArray then none else some d
      | .function .. => none
    | _ => none
  | _ => none

/-- The names that are assigned to are those of variables that are no arrays. -/
theorem Program.assigned?_eq_some_iff {p : Program} {e : ExprId} {d : DeclId} :
    p.assigned? e = some d ↔ ∃ lhs rhs type init storage,
      (p.expr e).kind = .binary .assign lhs rhs ∧ (p.expr (p.stripParens lhs)).kind = .declRef d ∧
        (p.decl d).kind = .variable type init storage ∧ type.isArray = false := by
  constructor
  · intro h
    unfold assigned? at h
    split at h
    · next lhs rhs hk =>
      split at h
      · next d' ht =>
        split at h
        · next type init storage hd =>
          split at h
          · cases h
          · next harray =>
            cases h
            exact ⟨lhs, rhs, type, init, storage, hk, ht, hd, Bool.eq_false_iff.2 harray⟩
        · cases h
      · cases h
    · cases h
  · rintro ⟨lhs, rhs, type, init, storage, hk, ht, hd, harray⟩
    simp only [assigned?, hk, ht, hd, harray, Bool.false_eq_true, if_false]

namespace Run

variable {κ α β : Type}

/-- Relations between the states before and after that hold where values of `nodes` change, or
anything outside the call stack. -/
structure NodeEffects (nodes : ExprId → Prop) (R E : State κ → State κ → Prop) : Prop
    extends Effects R E where
  bindExpr : ∀ {e : ExprId} (s : State κ) (value : Int32), nodes e →
    R s { s with stack := s.stack.modifyTop (·.bindExpr e value) }
  focusOn : ∀ (s : State κ) (focus : Focus),
    R s { s with stack := s.stack.modifyTop (·.focusOn focus) }
  outside : ∀ {s t : State κ}, t.stack = s.stack → R s t

/-- The top frame has a new value for a variable; nothing else on the stack is different. -/
def Declares (d : DeclId) (s t : State κ) : Prop :=
  ∃ value, t.stack = s.stack.modifyTop (·.bindDecl d value)

/-- The initialisation of a variable declares it, and does nothing to the stack if it halts. -/
theorem within_initialise (image : Image) {d : DeclId} {type : CType} {init : Option ExprId}
    {storage : Storage} (hk : (image.program.decl d).kind = .variable type init storage) :
    Within (Declares d) (fun s t => t.stack = s.stack) (initialise image d : Run κ Unit) := by
  intro s
  unfold initialise
  rw [hk]
  dsimp only
  split
  · rw [ensures_bind, ensures_get]
    exact ⟨_, rfl⟩
  · refine (readOnly_checkConversion image _ _).ensures_bind (fun _ => ?_) fun _ => rfl
    exact (readOnly_valueOf image _).ensures_bind (fun value => ⟨value, rfl⟩) fun _ => rfl
  · exact ⟨0, rfl⟩

namespace NodeEffects

variable {nodes : ExprId → Prop} {R E : State κ → State κ → Prop} (c : NodeEffects nodes R E)
include c

theorem within_bindExpr {e : ExprId} (he : nodes e) (value : Int32) :
    Within R E (Run.bindExpr e value) := fun s => c.bindExpr s value he

theorem within_focusOn (focus : Focus) : Within R E (Run.focusOn focus) :=
  fun s => c.focusOn s focus

/-- Operations may be put together from smaller ones. -/
theorem bind {x : Run κ α} {f : α → Run κ β} (hx : Within R E x) (hf : ∀ a, Within R E (f a)) :
    Within R E (x >>= f) := .bind c.toEffects hx hf

theorem readOnly {x : Run κ α} (hx : ReadOnly x) : Within R E x := .of_readOnly c.toEffects hx

/-- Reading first does not add to the effect. -/
theorem after_read {x : Run κ α} {f : α → Run κ β} (hx : ReadOnly x) (hf : ∀ a, Within R E (f a)) :
    Within R E (x >>= f) := c.bind (c.readOnly hx) hf

variable [Console κ] (image : Image) {e : ExprId} (he : nodes e)
include he

/-- A report gives the value zero to the node. -/
theorem report (construct : Unsupported) : Within R E (report image e construct : Run κ Unit) := by
  unfold Run.report
  dsimp only
  split
  · exact c.readOnly (readOnly_fault _ _)
  · exact c.bind (fun s => c.outside (s := s) rfl) fun _ => c.within_bindExpr he 0

/-- The value of a variable is given to the node. -/
theorem reference (d : DeclId) : Within R E (reference image e d : Run κ Unit) := by
  unfold Run.reference
  dsimp only
  split
  · split
    · exact c.after_read (readOnly_valueOfDecl image d) fun _ => c.within_bindExpr he _
    · exact c.report image he _
  · split
    · exact c.within_bindExpr he 0
    · exact c.report image he _

omit [Console κ] in
theorem cast (operand : ExprId) : Within R E (cast image e operand : Run κ Unit) := by
  unfold Run.cast
  split
  · exact c.readOnly (.pure _)
  · exact c.after_read (readOnly_valueOf image operand) fun _ => c.within_bindExpr he _

omit [Console κ] in
theorem sizeOf (type : CType) : Within R E (sizeOf image e type : Run κ Unit) := by
  unfold Run.sizeOf
  split
  · exact c.within_bindExpr he _
  · split
    · exact c.within_bindExpr he _
    · exact c.readOnly (readOnly_fault _ _)

omit [Console κ] he in
/-- Memory is outside the stack. -/
theorem store (place : Place) (value : Int32) :
    Within R E (store image place value : Run κ Unit) := by
  intro s
  rw [Run.store, ensures_bind, ensures_get]
  cases place with
  | heap address =>
    exact (readOnly_orFault image _).ensures_bind (fun _ => c.outside rfl) fun _ => c.halted s
  | array id index =>
    exact (readOnly_orFault image _).ensures_bind (fun _ => c.outside rfl) fun _ => c.halted s

omit [Console κ] in
/-- The value of an element is given to the node. -/
theorem subscript (base index : ExprId) : Within R E (subscript image e base index : Run κ Unit) :=
  c.after_read (readOnly_elementPlace image base index) fun place =>
    c.after_read (readOnly_load image place) fun _ => c.within_bindExpr he _

/-- The result of an operator is given to the node. -/
theorem unary (op : UnaryOp) (operand : ExprId) :
    Within R E (unary image e op operand : Run κ Unit) := by
  unfold Run.unary
  split
  · exact c.after_read (readOnly_valueOf image operand) fun address =>
      c.after_read (readOnly_load image (.heap address)) fun _ => c.within_bindExpr he _
  · exact c.after_read (readOnly_valueOf image operand) fun _ => c.within_bindExpr he _
  · exact c.report image he _

omit [Console κ] in
/-- The result of an arithmetic operator is given to the node. -/
theorem arith (op : ArithOp) (lhs rhs : ExprId) :
    Within R E (arith image e op lhs rhs : Run κ Unit) := by
  refine c.after_read (readOnly_valueOf image lhs) fun l => ?_
  refine c.after_read (readOnly_valueOf image rhs) fun r => ?_
  cases op with
  | additive op =>
    dsimp only
    split
    · exact c.within_bindExpr he _
    · exact c.readOnly (readOnly_fault _ _)
  | multiplicative op =>
    dsimp only
    split
    · exact c.within_bindExpr he _
    · exact c.readOnly (readOnly_fault _ _)

/-! ## Assignments -/

variable (hassign : ∀ d value, image.program.assigned? e = some d → Within R E (assignDecl d value))
include hassign

/-- If the target is a name, its variable changes; all other targets lie outside the stack. -/
theorem assignTarget {lhs rhs : ExprId} (hk : (image.program.expr e).kind = .binary .assign lhs rhs)
    (value : Int32) :
    Within R E (assignTarget image e (image.program.stripParens lhs) value : Run κ Unit) := by
  unfold Run.assignTarget
  split
  · next d htarget =>
    split
    · next type init storage hd =>
      split
      · exact c.report image he _
      · next harray =>
        refine hassign d value (Program.assigned?_eq_some_iff.2 ?_)
        exact ⟨lhs, rhs, type, init, storage, hk, htarget, hd, Bool.eq_false_iff.2 harray⟩
    · exact c.report image he _
  · exact c.after_read (readOnly_valueOf image _) fun _ => c.store image _ value
  · exact c.after_read (readOnly_elementPlace image _ _) fun _ => c.store image _ value
  · exact c.report image he _

/-- An assignment gives a value to its own node and to that of its target. -/
theorem assign {lhs rhs : ExprId} (hk : (image.program.expr e).kind = .binary .assign lhs rhs)
    (hl : nodes lhs) : Within R E (assign image e lhs rhs : Run κ Unit) := by
  have hstore : Within R E (do
      let value ← valueOf image rhs
      Run.bindExpr lhs value
      Run.bindExpr e value
      Run.assignTarget image e (image.program.stripParens lhs) value : Run κ Unit) := by
    refine c.after_read (readOnly_valueOf image rhs) fun value => ?_
    refine c.bind (c.within_bindExpr hl value) fun _ => ?_
    exact c.bind (c.within_bindExpr he value) fun _ => c.assignTarget image he hassign hk value
  unfold Run.assign
  dsimp only
  split
  · exact c.after_read (readOnly_checkConversion image _ rhs) fun _ => hstore
  · exact hstore

/-- An assignment also gives its value to the node of the target. -/
theorem binary {op : BinaryOp} {lhs rhs : ExprId}
    (hk : (image.program.expr e).kind = .binary op lhs rhs) (hl : nodes lhs) :
    Within R E (binary image e op lhs rhs : Run κ Unit) := by
  cases op with
  | assign => exact c.assign image he hassign hk hl
  | arith op => exact c.arith image he op lhs rhs
  | comparison op =>
    exact c.after_read (readOnly_valueOf image lhs) fun _ =>
      c.after_read (readOnly_valueOf image rhs) fun _ => c.within_bindExpr he _
  | logical op => exact c.report image he _
  | bitwise op => exact c.report image he _
  | compoundAssign op => exact c.report image he _

omit hassign

/-! ## Provided functions -/

theorem callGet : Within R E (callGet image e : Run κ Unit) := by
  intro s
  rw [Run.callGet, ensures_bind, ensures_get]
  dsimp only
  rw [ensures_bind, ensures_set]
  have hread : R s { s with console := (Console.readInt s.console).2 } := c.outside rfl
  split
  · exact c.trans hread (c.bindExpr _ _ he)
  · exact c.after hread (c.halted _)

omit he in
theorem callPrint (arg : ExprId) : Within R E (callPrint image arg : Run κ Unit) :=
  c.after_read (readOnly_valueOf image arg) fun _ s => c.outside (s := s) rfl

omit [Console κ] in
/-- The address of a new block is given to the node. -/
theorem callMalloc (arg : ExprId) : Within R E (callMalloc image e arg : Run κ Unit) := by
  refine c.after_read (readOnly_valueOf image arg) fun size => fun s => ?_
  rw [ensures_bind, ensures_get]
  refine (readOnly_orFault image _).ensures_bind (fun block => ?_) fun _ => c.halted s
  exact c.trans (t := { s with heap := block.2 }) (c.outside rfl) (c.bindExpr _ block.1 he)

omit [Console κ] he in
theorem callFree (arg : ExprId) : Within R E (callFree image arg : Run κ Unit) :=
  c.after_read (readOnly_valueOf image arg) fun _ s => c.outside (s := s) rfl

/-- A built-in function gives a value to the node at most. -/
theorem callBuiltin (b : Builtin) (args : List ExprId) :
    Within R E (callBuiltin image e b args : Run κ Unit) := by
  refine c.after_read (readOnly_checkArity image _ _ _) fun _ => ?_
  split
  · exact c.callGet image he
  · exact c.callPrint image _
  · exact c.callMalloc image he _
  · exact c.callFree image _
  · exact c.readOnly (.pure _)

end NodeEffects

end Run

end MiniC
