import MiniC.Proofs.EvaluationContract
import MiniC.Proofs.Fuel
import MiniC.Proofs.ParsedProgram
import MiniC.Proofs.ValueChanges

/-!
# Operations that fail

An `Operation` is what an expression or a declaration does once its operands have values. One that
fails has changed nothing (`Operation.perform_error`). The exception is an assignment, which gives
its own node and that of its target a value before it finds out whether the value can be put where
the target lies.

A computation is sparing (`Run.Sparing`) if it changes nothing where it halts but the values of some
nodes. An operation first reads and checks, and then makes changes that cannot fail; so it is
sparing because everything up to its last check only reads (`Sparing.after`).
-/

set_option autoImplicit false

namespace MiniC

/-! ## Operations -/

/-- What is done for an expression or for the declaration of a variable when the operands have
values. -/
inductive Operation where
  | reference (e : ExprId) (d : DeclId)
  | unary (e : ExprId) (op : UnaryOp) (operand : ExprId)
  | binary (e : ExprId) (op : BinaryOp) (lhs rhs : ExprId)
  | cast (e operand : ExprId)
  | subscript (e base index : ExprId)
  | sizeOf (e : ExprId) (type : CType)
  | initialise (d : DeclId)
  /-- Begins a call: a provided function acts, any other gets a frame. -/
  | call (e : ExprId) (callee : DeclId) (args : List ExprId)

namespace Operation

/-- Carries out an operation. -/
def perform {κ : Type} [Console κ] (image : Image) : Operation → Run κ Unit
  | reference e d => Run.reference image e d
  | unary e op operand => Run.unary image e op operand
  | binary e op lhs rhs => Run.binary image e op lhs rhs
  | cast e operand => Run.cast image e operand
  | subscript e base index => Run.subscript image e base index
  | sizeOf e type => Run.sizeOf image e type
  | initialise d => Run.initialise image d
  | call e callee args => do let _ ← Run.enterCall image e callee args

/-- The expressions that may get a value although the operation fails. -/
def touched : Operation → List ExprId
  | binary e .assign lhs _ => [lhs, e]
  | _ => []

end Operation

/-- A state before and after something failed: some expressions may have got values in the top
frame. -/
structure State.Spared {κ : Type} (nodes : List ExprId) (before after : State κ) : Prop
    extends State.SameButValues nodes before after where
  focus : after.stack.top.focus = before.stack.top.focus
  diagnostics : after.diagnostics = before.diagnostics

namespace State

variable {κ : Type} {nodes : List ExprId} {s t u : State κ}

theorem Spared.refl (s : State κ) : s.Spared nodes s := ⟨.refl s, rfl, rfl⟩

/-- What is spared twice is spared. -/
theorem Spared.trans (hst : s.Spared nodes t) (htu : t.Spared nodes u) : s.Spared nodes u where
  toSameButValues := hst.toSameButValues.trans htu.toSameButValues
  focus := htu.focus.trans hst.focus
  diagnostics := htu.diagnostics.trans hst.diagnostics

/-- An expression that may get a value may be given one. -/
theorem spared_bindExpr (s : State κ) {e : ExprId} (he : e ∈ nodes) (value : Int32) :
    s.Spared nodes { s with stack := s.stack.modifyTop (·.bindExpr e value) } where
  toSameButValues := s.sameButValues_bindExpr he value
  focus := by
    rw [CallStack.top_modifyTop]
    rfl
  diagnostics := rfl

end State

namespace Run

/-! ## Sparing computations -/

section Sparing

variable {κ α β : Type} {nodes : List ExprId}

/-- Where the computation halts, it has changed nothing but the values of some expressions. -/
def Sparing (nodes : List ExprId) (x : Run κ α) : Prop :=
  ∀ s, Ensures x s (fun _ _ => True) fun _ t => s.Spared nodes t

/-- A computation that does not halt. -/
def NeverHalts (x : Run κ α) : Prop := ∀ s, Ensures x s (fun _ _ => True) fun _ _ => False

/-- Of what never halts nothing has to be shown. -/
theorem NeverHalts.sparing {x : Run κ α} (hx : NeverHalts x) : Sparing nodes x :=
  fun s => (hx s).mono (fun _ _ _ => trivial) fun _ _ h => h.elim

/-- What only reads has changed nothing when it halts. -/
theorem ReadOnly.sparing {x : Run κ α} (hx : ReadOnly x) : Sparing nodes x := by
  intro s
  apply (hx s).mono
  · exact fun _ _ _ => trivial
  · rintro _ _ rfl
    exact .refl _

/-- A computation begins with reading and checking. -/
theorem Sparing.after {x : Run κ α} {f : α → Run κ β} (hx : ReadOnly x)
    (hf : ∀ a, Sparing nodes (f a)) :
    Sparing nodes (x >>= f) := fun s => hx.ensures_bind (fun a => hf a s) fun _ => .refl s

/-- A computation begins by giving an expression a value. -/
theorem Sparing.bindExpr_bind {e : ExprId} (he : e ∈ nodes) (value : Int32) {f : Unit → Run κ α}
    (hf : Sparing nodes (f ())) : Sparing nodes (bindExpr e value >>= f) := by
  intro s
  rw [ensures_bind, bindExpr, ensures_modifyStack]
  exact (hf _).mono (fun _ _ h => h) fun _ _ h => (s.spared_bindExpr he value).trans h

theorem sparing_modifyStack (f : CallStack → CallStack) :
    Sparing nodes (modifyStack f : Run κ Unit) :=
  NeverHalts.sparing fun _ => trivial

theorem sparing_bindExpr (e : ExprId) (value : Int32) :
    Sparing nodes (bindExpr e value : Run κ Unit) :=
  sparing_modifyStack _

variable (image : Image)

/-- A report is made before anything else happens. -/
theorem sparing_report [Console κ] (e : ExprId) (construct : Unsupported) :
    Sparing nodes (report image e construct : Run κ Unit) := by
  unfold report
  dsimp only
  split
  · exact (readOnly_fault _ _).sparing
  · exact NeverHalts.sparing fun _ => trivial

/-- The value at a place is looked up for an expression. -/
theorem sparing_load_bind (place : Place) (e : ExprId) :
    Sparing nodes (load image place >>= fun value => bindExpr e value : Run κ Unit) :=
  .after (readOnly_load image place) fun value => sparing_bindExpr e value

/-- A value is stored only if its place can be written to. -/
theorem sparing_store (place : Place) (value : Int32) :
    Sparing nodes (store image place value : Run κ Unit) := by
  apply Sparing.after readOnly_get
  intro s
  cases place with
  | heap address =>
    exact .after (readOnly_orFault image _) fun heap => NeverHalts.sparing fun _ => trivial
  | array id index =>
    exact .after (readOnly_orFault image _) fun arrays => NeverHalts.sparing fun _ => trivial

end Sparing

/-! ## Expressions -/

section Expressions

variable {κ : Type} {nodes : List ExprId} (image : Image)

/-- A name without a value has changed nothing. -/
theorem sparing_reference [Console κ] (e : ExprId) (d : DeclId) :
    Sparing nodes (reference image e d : Run κ Unit) := by
  unfold reference
  dsimp only
  split
  · split
    · exact .after (readOnly_valueOfDecl image d) fun value => sparing_bindExpr e value
    · exact sparing_report image e _
  · split
    · exact sparing_bindExpr e 0
    · exact sparing_report image e _

theorem sparing_cast (e operand : ExprId) : Sparing nodes (cast image e operand : Run κ Unit) := by
  unfold cast
  split
  · exact (ReadOnly.pure _).sparing
  · exact .after (readOnly_valueOf image operand) fun value => sparing_bindExpr e value

theorem sparing_sizeOf (e : ExprId) (type : CType) :
    Sparing nodes (sizeOf image e type : Run κ Unit) := by
  unfold sizeOf
  split
  · exact sparing_bindExpr e _
  · split
    · exact sparing_bindExpr e _
    · exact (readOnly_fault _ _).sparing

/-- An element that is not there has changed nothing. -/
theorem sparing_subscript (e base index : ExprId) :
    Sparing nodes (subscript image e base index : Run κ Unit) :=
  .after (readOnly_elementPlace image base index) fun place => sparing_load_bind image place e

/-- An operator that fails has changed nothing. -/
theorem sparing_unary [Console κ] (e : ExprId) (op : UnaryOp) (operand : ExprId) :
    Sparing nodes (unary image e op operand : Run κ Unit) := by
  have hread (f : Int32 → Run κ Unit) (hf : ∀ v, Sparing nodes (f v)) :
      Sparing nodes (valueOf image operand >>= f) := .after (readOnly_valueOf image operand) hf
  cases op with
  | deref => exact hread _ fun address => sparing_load_bind image (.heap address) e
  | neg | plus | not | bitNot => exact hread _ fun v => sparing_bindExpr e _
  | addressOf | preInc | preDec | postInc | postDec => exact sparing_report image e _

/-- Nor has an arithmetic operator. -/
theorem sparing_arith (e : ExprId) (op : ArithOp) (lhs rhs : ExprId) :
    Sparing nodes (arith image e op lhs rhs : Run κ Unit) := by
  apply Sparing.after (readOnly_valueOf image lhs)
  intro l
  apply Sparing.after (readOnly_valueOf image rhs)
  intro r
  cases op with
  | additive op | multiplicative op =>
    dsimp only
    split
    · exact sparing_bindExpr e _
    · exact (readOnly_fault _ _).sparing

theorem sparing_compare (e : ExprId) (op : Comparison) (lhs rhs : ExprId) :
    Sparing nodes (compare image e op lhs rhs : Run κ Unit) :=
  .after (readOnly_valueOf image lhs) fun _ =>
    .after (readOnly_valueOf image rhs) fun _ => sparing_bindExpr e _

/-- The place of a target is looked for before anything is written. -/
theorem sparing_assignTarget [Console κ] (e target : ExprId) (value : Int32) :
    Sparing nodes (assignTarget image e target value : Run κ Unit) := by
  unfold assignTarget
  split
  · split
    · split
      · exact sparing_report image e _
      · exact sparing_modifyStack _
    · exact sparing_report image e _
  · exact .after (readOnly_valueOf image _) fun address => sparing_store image (.heap address) value
  · exact .after (readOnly_elementPlace image _ _) fun place => sparing_store image place value
  · exact sparing_report image e _

/-- An assignment that fails may have given values to its own node and to its target's. -/
theorem sparing_assign [Console κ] (e lhs rhs : ExprId) :
    Sparing [lhs, e] (assign image e lhs rhs : Run κ Unit) := by
  have hstore : Sparing [lhs, e] (do
      let value ← valueOf image rhs
      bindExpr lhs value
      bindExpr e value
      assignTarget image e (image.program.stripParens lhs) value : Run κ Unit) := by
    apply Sparing.after (readOnly_valueOf image rhs)
    intro value
    apply Sparing.bindExpr_bind (by simp)
    apply Sparing.bindExpr_bind (by simp)
    exact sparing_assignTarget image e _ value
  unfold assign
  dsimp only
  split
  · exact .after (readOnly_checkConversion image _ rhs) fun _ => hstore
  · exact hstore

/-- An assignment gives values to two nodes before it writes; no other operator does anything before
it fails. -/
theorem sparing_binary [Console κ] (e : ExprId) (op : BinaryOp) (lhs rhs : ExprId) :
    Sparing (Operation.binary e op lhs rhs).touched (binary image e op lhs rhs : Run κ Unit) := by
  cases op with
  | assign => exact sparing_assign image e lhs rhs
  | arith op => exact sparing_arith image e op lhs rhs
  | comparison op => exact sparing_compare image e op lhs rhs
  | logical _ | bitwise _ | compoundAssign _ => exact sparing_report image e _

/-- An initialiser is checked before the variable is declared. -/
theorem sparing_initialise (d : DeclId) : Sparing nodes (initialise image d : Run κ Unit) := by
  unfold initialise
  split
  · exact (ReadOnly.pure _).sparing
  · split
    · exact NeverHalts.sparing fun _ => trivial
    · apply Sparing.after (readOnly_checkConversion image _ _)
      intro _
      exact .after (readOnly_valueOf image _) fun value => sparing_modifyStack _
    · exact sparing_modifyStack _

end Expressions

/-! ## Calls -/

section Calls

variable {nodes : List ExprId} (image : Image)

/-- Where a scripted console has no integer left, asking for one changes nothing. -/
theorem sparing_callGet (e : ExprId) : Sparing nodes (callGet image e : Run Scripted Unit) := by
  intro s
  rw [callGet, ensures_bind, ensures_get]
  dsimp only
  rw [ensures_bind, ensures_set]
  cases hinput : s.console.input with
  | nil =>
    have hconsole : (Console.readInt s.console).2 = s.console := by
      change { s.console with input := s.console.input.tail } = s.console
      rw [hinput, List.tail_nil, ← hinput]
    have hnone : (Console.readInt s.console).1 = none := by
      change s.console.input.head? = none
      rw [hinput, List.head?_nil]
    rw [hnone, hconsole]
    exact (readOnly_faultHere image _).sparing s
  | cons value rest =>
    have hsome : (Console.readInt s.console).1 = some value := by
      change s.console.input.head? = some value
      rw [hinput, List.head?_cons]
    rw [hsome]
    trivial

/-- An allocation that fails has handed out nothing. -/
theorem sparing_callMalloc (e arg : ExprId) :
    Sparing nodes (callMalloc image e arg : Run Scripted Unit) := by
  apply Sparing.after (readOnly_valueOf image arg)
  intro size
  apply Sparing.after readOnly_get
  intro s
  exact .after (readOnly_orFault image _) fun block => NeverHalts.sparing fun _ => trivial

/-- A built-in function that fails has changed nothing. -/
theorem sparing_callBuiltin (e : ExprId) (b : Builtin) (args : List ExprId) :
    Sparing nodes (callBuiltin image e b args : Run Scripted Unit) := by
  apply Sparing.after (readOnly_checkArity image _ _ _)
  intro _
  split
  · exact sparing_callGet image e
  · exact .after (readOnly_valueOf image _) fun value => NeverHalts.sparing fun _ => trivial
  · exact sparing_callMalloc image e _
  · exact .after (readOnly_valueOf image _) fun address => NeverHalts.sparing fun _ => trivial
  · exact (ReadOnly.pure _).sparing

/-- Values and conversions are checked before a frame is pushed. -/
theorem sparing_enterBody (callee : DeclId) (params : List DeclId) (body : StmtId)
    (args : List ExprId) :
    Sparing nodes (enterBody image callee params body args : Run Scripted Unit) := by
  unfold enterBody
  apply Sparing.after (readOnly_checkArity image _ _ _)
  intro _
  apply Sparing.after (.forM (fun _ => readOnly_checkConversion image _ _) _)
  intro _
  apply Sparing.after (.mapM (readOnly_valueOf image) args)
  intro values
  apply Sparing.after readOnly_get
  intro s
  dsimp only
  split
  · exact (readOnly_faultHere image _).sparing
  · -- every check is passed
    apply NeverHalts.sparing
    intro t
    rw [Ensures, openFrame_apply]
    trivial

/-- A call that is not made has pushed no frame. -/
theorem sparing_enterCall (e : ExprId) (callee : DeclId) (args : List ExprId) :
    Sparing nodes (enterCall image e callee args : Run Scripted (Option StmtId)) := by
  have hdone {x : Run Scripted Unit} (hx : Sparing nodes x) (result : Option StmtId) :
      Sparing nodes (do x; return result) := by
    intro s
    rw [ensures_bind]
    exact (hx s).mono (fun _ _ _ => trivial) fun _ _ h => h
  unfold enterCall
  split
  · exact hdone (sparing_callBuiltin image e _ args) none
  · dsimp only
    split
    · exact hdone (sparing_enterBody image callee _ _ args) _
    · exact (readOnly_faultHere image _).sparing

end Calls

end Run

/-! ## Every operation -/

namespace Operation

open Run

variable (image : Image)

/-- Whatever operation fails, only the nodes that it touches may have new values. -/
theorem sparing_perform (op : Operation) :
    Sparing op.touched (op.perform image : Run Scripted Unit) := by
  cases op with
  | reference e d => exact sparing_reference image e d
  | unary e op operand => exact sparing_unary image e op operand
  | binary e op lhs rhs => exact sparing_binary image e op lhs rhs
  | cast e operand => exact sparing_cast image e operand
  | subscript e base index => exact sparing_subscript image e base index
  | sizeOf e type => exact sparing_sizeOf image e type
  | initialise d => exact sparing_initialise image d
  | call e callee args =>
    intro s
    rw [perform, ensures_bind]
    exact (sparing_enterCall image e callee args s).mono (fun _ _ _ => trivial) fun _ _ h => h

variable {image}

/-- An operation that fails leaves everything as it was: the depth of the call stack, the variables
of every frame, the heap, the arrays, the input that is left, the output, the diagnostics and the
node that the top frame works on. Only a failed assignment may have given values to its own node and
to its target's. -/
theorem perform_error {op : Operation} {s t : State Scripted} {halt : Halt}
    (h : op.perform image s = .error halt t) : s.Spared op.touched t := by
  have hsparing := sparing_perform image op s
  rw [Ensures, h] at hsparing
  exact hsparing

/-- An assignment through a pointer that points nowhere fails after its nodes got the value. -/
theorem perform_error_of_wild_store :
    ∃ p, Program.parse "int main() { int *p = -1; *p = 7; return 0; }" = .ok p ∧
      let image := Image.load p {}
      let s := endOfRun image 100
      let store := Operation.binary ⟨5⟩ .assign ⟨3⟩ ⟨4⟩
      ∃ t, store.perform image s =
        .error (.error (.fault (.memory (.invalidHeapAccess (-1))) ⟨1, 30⟩)) t ∧
        s.Spared [⟨3⟩, ⟨5⟩] t := by
  obtain ⟨p, hp, hhalt⟩ :
    ∃ p, Program.parse "int main() { int *p = -1; *p = 7; return 0; }" = .ok p ∧
      halt? ((Operation.binary ⟨5⟩ .assign ⟨3⟩ ⟨4⟩).perform (Image.load p {})
        (endOfRun (Image.load p {}) 100)) =
        some (.error (.fault (.memory (.invalidHeapAccess (-1))) ⟨1, 30⟩)) :=
    Program.exists_of_parse (by decide +kernel)
  obtain ⟨t, ht⟩ := exists_of_halt? hhalt
  exact ⟨p, hp, t, ht, perform_error ht⟩

end Operation

end MiniC
