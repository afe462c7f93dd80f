import MiniC.Proofs.Arena
import MiniC.Proofs.Contract
import MiniC.Proofs.DirectSimulation
import MiniC.Proofs.StoreSeparation

/-!
# Contracts of operations

The evaluation of an expression is that of its operands, followed by what is done with their values
(`Run.exprStep_eq`). `Contract.Performs` collects what a contract has to admit of the elementary
actions for one expression: that it gets a value, that a variable is assigned to, that something
outside the frames changes, and the ways to halt. Then every operation fulfils the contract
(`Contract.Performs.conclude`), where the operands whose values it asks for were evaluated
(`Program.asked`).
-/

set_option autoImplicit false

namespace MiniC

/-! ## Operands -/

/-- The expressions whose values say where an assignment's target lies. -/
def ExprKind.locators : ExprKind → List ExprId
  | .unary .deref operand => [operand]
  | .subscript base index => [base, index]
  | _ => []

/-- The expressions whose values an expression asks for, once its operands are evaluated. -/
def Program.asked (p : Program) (e : ExprId) : List ExprId :=
  match (p.expr e).kind with
  | .binary op lhs rhs =>
    if op.isAssignment then rhs :: (p.expr (p.stripParens lhs)).kind.locators else [lhs, rhs]
  | kind => kind.operands

/-! ## Actions -/

namespace Contract

open Run

variable {κ : Type}

/-- The contract admits the elementary actions for an expression. -/
structure Performs (C : Contract κ) (image : Image) (e : ExprId) : Prop extends C.Admits image where
  bindExpr : ∀ {s : State κ} (value : Int32), C.inv s →
    C.Later s { s with stack := s.stack.modifyTop (·.bindExpr e value) } ∧
      C.evaluated e { s with stack := s.stack.modifyTop (·.bindExpr e value) }
  bindTarget : ∀ {s : State κ} {lhs rhs : ExprId} (value : Int32),
    (image.program.expr e).kind = .binary .assign lhs rhs → C.inv s →
      C.Later s { s with stack := s.stack.modifyTop (·.bindExpr lhs value) }
  assignDecl : ∀ {s : State κ} {d : DeclId} (value : Int32),
    image.program.assigned? e = some d → C.inv s →
    C.Later s { s with stack :=
      if (s.stack.top.decl? d).isSome then s.stack.modifyTop (·.bindDecl d value)
      else s.stack.modifyGlobal (·.bindDecl d value) }
  outside : ∀ {s t : State κ}, C.inv s → t.stack = s.stack →
    t.arrays.lengths = s.arrays.lengths → C.Later s t
  unbound : ∀ {s : State κ} {d : DeclId} {loc : Location},
    (image.program.expr e).kind = .declRef d → C.inv s →
    C.halt (.error (.fault (.unboundDeclaration (image.program.decl d).name) loc)) s
  array : ∀ {s : State κ} {c : ExprId} {id : Int32}, image.through? e = some c →
    (image.typeOf c).isPointer = false → C.inv s → s.stack.top.focus = some (.expr e) →
    s.stack.top.expr? c = some id → s.arrays.length? id = none →
      C.halt (.error (.fault (.memory (.invalidArray id)) (image.locationIn s.stack))) s
  valueless : ∀ {s : State κ}, image.Valueless e → C.inv s → C.evaluated e s

namespace Performs

variable {C : Contract κ} {image : Image} {e : ExprId} {given : List ExprId}
    (hC : C.Performs image e)
include hC

theorem fulfils_bindExpr (value : Int32) :
    C.Fulfils given [e] (Run.bindExpr e value : Run κ Unit) (Run.bindExpr e value) := by
  intro s hs _
  obtain ⟨hlater, he⟩ := hC.bindExpr value hs
  exact ⟨rfl, hlater, by simpa using he⟩

/-- Something outside the frames changes. -/
theorem fulfils_modify (f : State κ → State κ) (hstack : ∀ s, (f s).stack = s.stack)
    (harrays : ∀ s, (f s).arrays = s.arrays) :
    C.Fulfils given [] (modify f : Run κ PUnit) (modify f) :=
  fun s hs _ => ⟨rfl, hC.outside hs (hstack s) (by rw [harrays s]), nofun⟩

/-- A fault that is no failed look-up is admitted. -/
theorem fulfils_fault {α : Type} {gained : List ExprId} {cause : RuntimeFault}
    (h : cause.isLookup = false)
    (loc : Location) :
    C.Fulfils given gained (Run.fault cause loc : Run κ α) (Run.fault cause loc) :=
  fun _ hs _ => ⟨rfl, hC.fault loc h hs⟩

variable [Console κ]

/-- A report gives the node a value. -/
theorem fulfils_report (construct : Unsupported) :
    C.Fulfils given [e] (report image e construct : Run κ Unit) (report image e construct) := by
  unfold report
  dsimp only
  split
  · exact hC.fulfils_fault rfl _
  · refine Fulfils.andThen ?_ fun _ => hC.fulfils_bindExpr 0
    exact hC.fulfils_modify _ (fun _ => rfl) fun _ => rfl

/-- A name gives the node the value of the variable. -/
theorem fulfils_reference {d : DeclId} (hk : (image.program.expr e).kind = .declRef d) :
    C.Fulfils given [e] (reference image e d : Run κ Unit) (reference image e d) := by
  have hread : C.Fulfils given [] (valueOfDecl image d : Run κ Int32) (valueOfDecl image d) := by
    refine .of_readOnly (readOnly_valueOfDecl image d) fun s hs _ => ?_
    unfold Ensures
    cases hvalue : (s.stack.top.decl? d).or (s.stack.global.decl? d) with
    | some value =>
      rw [valueOfDecl_of_some image hvalue]
      trivial
    | none =>
      rw [valueOfDecl_of_none image hvalue]
      exact hC.unbound hk hs
  unfold reference
  dsimp only
  split
  · split
    · exact hread.andThen fun value => hC.fulfils_bindExpr value
    · exact hC.fulfils_report _
  · split
    · exact hC.fulfils_bindExpr 0
    · exact hC.fulfils_report _

omit [Console κ] in
/-- A conversion asks for the value of its operand. -/
theorem fulfils_cast {operand : ExprId} (hk : (image.program.expr e).kind = .cast operand)
    (ho : operand ∈ given) :
    C.Fulfils given [e] (Run.cast image e operand : Run κ Unit) (Run.cast image e operand) := by
  unfold Run.cast
  cases hvoid : (image.typeOf e).isVoid with
  | true =>
    rw [if_pos rfl]
    intro s hs _
    refine ⟨rfl, .refl hs, ?_⟩
    rw [List.forall_mem_singleton]
    exact hC.valueless (by simp only [Image.Valueless, hk, hvoid]) hs
  | false =>
    rw [if_neg Bool.false_ne_true]
    exact (hC.fulfils_valueOf operand ho).andThen fun value => hC.fulfils_bindExpr value

omit [Console κ] in
theorem fulfils_sizeOf (type : CType) :
    C.Fulfils given [e] (Run.sizeOf image e type : Run κ Unit) (Run.sizeOf image e type) := by
  unfold Run.sizeOf
  split
  · exact hC.fulfils_bindExpr _
  · split
    · exact hC.fulfils_bindExpr _
    · exact hC.fulfils_fault rfl _

/-! ## Places -/

/-- A place in an array belongs to the array that the base says. -/
def Locates (image : Image) (base : ExprId) (s : State κ) : Place → Prop
  | .heap _ => True
  | .array id _ => (image.typeOf base).isPointer = false ∧ s.stack.top.expr? base = some id

omit hC [Console κ] in
theorem locates_heap (base : ExprId) (s : State κ) (address : Int32) :
    Locates image base s (.heap address) := trivial

omit [Console κ] in
/-- The place of an element is located by base and index. -/
theorem ensures_elementPlace {base index : ExprId} {s : State κ} (hs : C.inv s)
    (hbase : C.evaluated base s) (hindex : C.evaluated index s) :
    Ensures (elementPlace image base index) s (fun place t => t = s ∧
      Locates image base s place) C.halt := by
  unfold elementPlace
  rw [ensures_bind]
  refine (hC.ensures_valueOf hs hbase).mono ?_ fun _ _ h => h
  rintro start _ ⟨rfl, hstart⟩
  rw [ensures_bind]
  refine (hC.ensures_valueOf hs hindex).mono ?_ fun _ _ h => h
  rintro i _ ⟨rfl, -⟩
  refine ⟨rfl, ?_⟩
  split
  · trivial
  · next hpointer => exact ⟨Bool.eq_false_iff.2 hpointer, hstart⟩

section Access

variable {base : ExprId} {s : State κ} {place : Place}
    (hthrough : image.through? e = some base) (hs : C.inv s)
  (hfocus : s.stack.top.focus = some (.expr e)) (hplace : Locates image base s place)
include hthrough hs hfocus hplace

omit [Console κ] in
/-- What is read leaves the state as it is. -/
theorem ensures_load : Ensures (load image place) s (fun _ t => t = s) C.halt := by
  rw [load, ensures_bind, ensures_get]
  cases place with
  | heap address =>
    dsimp only
    cases hread : s.heap.read address with
    | ok value => rfl
    | error f => exact hC.fault _ (Heap.isLookup_of_read hread) hs
  | array id index =>
    dsimp only
    cases hget : s.arrays.get id index with
    | ok value => rfl
    | error f =>
      obtain ⟨rfl, hnone⟩ | hf := ArrayStore.get_error hget
      · exact hC.array hthrough hplace.1 hs hfocus hplace.2 hnone
      · exact hC.fault _ hf hs

omit [Console κ] in
/-- What is stored is admitted. -/
theorem ensures_store (value : Int32) :
    Ensures (store image place value) s (fun _ t => C.Later s t) C.halt := by
  rw [store, ensures_bind, ensures_get]
  cases place with
  | heap address =>
    dsimp only
    cases hwrite : s.heap.write address value with
    | ok heap => exact hC.outside hs rfl rfl
    | error f => exact hC.fault _ (Heap.isLookup_of_write hwrite) hs
  | array id index =>
    dsimp only
    cases hset : s.arrays.set id index value with
    | ok arrays => exact hC.outside hs rfl (ArrayStore.lengths_set hset)
    | error f =>
      obtain ⟨rfl, hnone⟩ | hf := ArrayStore.set_error hset
      · exact hC.array hthrough hplace.1 hs hfocus hplace.2 hnone
      · exact hC.fault _ hf hs

end Access

omit [Console κ] in
/-- What is done for the expression begins with turning to it. -/
theorem fulfils_focused {gained : List ExprId} {x : Run κ Unit}
    (h : ∀ s, C.inv s → (∀ c ∈ given, C.evaluated c s) → s.stack.top.focus = some (.expr e) →
      Ensures x s (fun _ t => C.Later s t ∧ ∀ c ∈ gained, C.evaluated c t) C.halt) :
    C.Fulfils given gained (do Run.focusOn (.expr e); x) (do Run.focusOn (.expr e); x) := by
  intro s hs hknown
  have hlater := hC.focusOn (.expr e) hs
  refine ⟨rfl, ?_⟩
  rw [ensures_bind, Run.focusOn, ensures_modifyStack]
  refine (h _ hlater.inv (hlater.all hknown) ?_).mono
    (fun _ t ht => ⟨hlater.trans ht.1, ht.2⟩) fun _ _ h => h
  rw [CallStack.top_modifyTop]
  rfl

omit [Console κ] in
/-- The value that was found is given to the expression. -/
theorem ensures_bindExpr {s : State κ} (hs : C.inv s) (value : Int32) :
    Ensures (Run.bindExpr e value) s (fun _ t => C.Later s t ∧
      ∀ c ∈ [e], C.evaluated c t) C.halt := by
  obtain ⟨hlater, he⟩ := hC.bindExpr value hs
  exact ⟨hlater, by simpa using he⟩

omit [Console κ] in
/-- An element asks for the values of base and index. -/
theorem fulfils_subscript {base index : ExprId}
    (hk : (image.program.expr e).kind = .subscript base index) :
    C.Fulfils [base, index] [e] (do Run.focusOn (.expr e); subscript image e base index)
      (do Run.focusOn (.expr e); subscript image e base index : Run κ Unit) := by
  refine hC.fulfils_focused fun s hs hknown hfocus => ?_
  have hthrough : image.through? e = some base := by simp [Image.through?, hk, ExprKind.through?]
  rw [subscript, ensures_bind]
  refine (hC.ensures_elementPlace hs (hknown base (by simp)) (hknown index (by simp))).mono ?_
    fun _ _ h => h
  rintro place _ ⟨rfl, hplace⟩
  rw [ensures_bind]
  refine (hC.ensures_load hthrough hs hfocus hplace).mono ?_ fun _ _ h => h
  rintro value _ rfl
  exact hC.ensures_bindExpr hs value

/-- An operator asks for the value of its operand. -/
theorem fulfils_unary {op : UnaryOp} {operand : ExprId}
    (hk : (image.program.expr e).kind = .unary op operand) :
    C.Fulfils [operand] [e] (do Run.focusOn (.expr e); unary image e op operand)
      (do Run.focusOn (.expr e); unary image e op operand : Run κ Unit) := by
  have hread : C.Fulfils [operand] []
      (valueOf image operand : Run κ Int32) (valueOf image operand) :=
    hC.fulfils_valueOf operand (by simp)
  cases op with
  | deref =>
    refine hC.fulfils_focused fun s hs hknown hfocus => ?_
    have hthrough : image.through? e = some operand := by
      simp [Image.through?, hk, ExprKind.through?]
    change Ensures
      (do let address ← valueOf image operand; Run.bindExpr e (← load image (.heap address))) s _ _
    rw [ensures_bind]
    refine (hC.ensures_valueOf hs (hknown operand (by simp))).mono ?_ fun _ _ h => h
    rintro address _ ⟨rfl, -⟩
    rw [ensures_bind]
    refine (hC.ensures_load hthrough hs hfocus (locates_heap _ _ _)).mono ?_ fun _ _ h => h
    rintro value _ rfl
    exact hC.ensures_bindExpr hs value
  | neg | plus | not | bitNot =>
    exact (hC.fulfils_focusOn _).andThen fun _ => hread.andThen fun _ => hC.fulfils_bindExpr _
  | preInc | preDec | postInc | postDec | addressOf =>
    exact (hC.fulfils_focusOn _).andThen fun _ => hC.fulfils_report _

omit [Console κ] in
/-- An arithmetic operator asks for both operands. -/
theorem fulfils_arith (op : ArithOp) {lhs rhs : ExprId} (hl : lhs ∈ given) (hr : rhs ∈ given) :
    C.Fulfils given [e] (arith image e op lhs rhs : Run κ Unit) (arith image e op lhs rhs) := by
  refine (hC.fulfils_valueOf lhs hl).andThen fun l =>
    (hC.fulfils_valueOf rhs hr).andThen fun r => ?_
  cases op with
  | additive op =>
    dsimp only
    split
    · exact hC.fulfils_bindExpr _
    · exact hC.fulfils_fault rfl _
  | multiplicative op =>
    dsimp only
    split
    · exact hC.fulfils_bindExpr _
    · exact hC.fulfils_fault rfl _

/-! ## Assignments -/

/-- What an assignment writes is admitted where its target is located. -/
theorem ensures_assignTarget {lhs rhs : ExprId}
    (hk : (image.program.expr e).kind = .binary .assign lhs rhs) {s : State κ} (hs : C.inv s)
    (hknown : ∀ c ∈ (image.program.expr (image.program.stripParens lhs)).kind.locators,
      C.evaluated c s)
    (hfocus : s.stack.top.focus = some (.expr e)) (value : Int32) :
    Ensures (assignTarget image e (image.program.stripParens lhs) value) s
      (fun _ t => C.Later s t) C.halt := by
  -- what cannot be assigned to is a construct without a meaning
  have hreport : Ensures (report image e .assignmentTarget) s (fun _ t => C.Later s t) C.halt := by
    have hfulfils :
        C.Fulfils [] [e] (report image e .assignmentTarget) (report image e .assignmentTarget) :=
      hC.fulfils_report _
    exact (hfulfils s hs nofun).2.mono (fun _ _ ht => ht.1) fun _ _ h => h
  unfold assignTarget
  split
  · next d htarget =>
    split
    · next type init storage hd =>
      split
      · exact hreport
      · next harray =>
        refine hC.assignDecl value (Program.assigned?_eq_some_iff.2 ?_) hs
        exact ⟨lhs, rhs, type, init, storage, hk, htarget, hd, Bool.eq_false_iff.2 harray⟩
    · exact hreport
  · next operand htarget =>
    rw [htarget] at hknown
    have hthrough : image.through? e = some operand := by
      simp [Image.through?, hk, htarget, ExprKind.through?]
    rw [ensures_bind]
    refine (hC.ensures_valueOf hs (hknown operand (by simp [ExprKind.locators]))).mono ?_
      fun _ _ h => h
    rintro address _ ⟨rfl, -⟩
    exact hC.ensures_store hthrough hs hfocus (locates_heap _ _ _) value
  · next base index htarget =>
    rw [htarget] at hknown
    have hthrough : image.through? e = some base := by
      simp [Image.through?, hk, htarget, ExprKind.through?]
    rw [ensures_bind]
    refine (hC.ensures_elementPlace hs (hknown base (by simp [ExprKind.locators]))
      (hknown index (by simp [ExprKind.locators]))).mono ?_ fun _ _ h => h
    rintro place _ ⟨rfl, hplace⟩
    exact hC.ensures_store hthrough hs hfocus hplace value
  · exact hreport

/-- An assignment asks for its value and for what locates its target. -/
theorem fulfils_assign {lhs rhs : ExprId}
    (hk : (image.program.expr e).kind = .binary .assign lhs rhs) :
    C.Fulfils (rhs :: (image.program.expr (image.program.stripParens lhs)).kind.locators) [e]
      (do Run.focusOn (.expr e); assign image e lhs rhs)
      (do Run.focusOn (.expr e); assign image e lhs rhs : Run κ Unit) := by
  refine hC.fulfils_focused fun s hs hknown hfocus => ?_
  have hstore : Ensures (do
      let value ← valueOf image rhs
      Run.bindExpr lhs value
      Run.bindExpr e value
      assignTarget image e (image.program.stripParens lhs) value : Run κ Unit) s
      (fun _ t => C.Later s t ∧ ∀ c ∈ [e], C.evaluated c t) C.halt := by
    rw [ensures_bind]
    refine (hC.ensures_valueOf hs (hknown rhs (by simp))).mono ?_ fun _ _ h => h
    rintro value _ ⟨rfl, -⟩
    -- both nodes have the value before it is stored
    have htarget := hC.bindTarget value hk hs
    have hself := hC.bindExpr value htarget.inv
    have hboth := htarget.trans hself.1
    rw [ensures_bind, Run.bindExpr, ensures_modifyStack, ensures_bind, Run.bindExpr,
      ensures_modifyStack]
    refine (hC.ensures_assignTarget hk hboth.inv (fun c hc => ?_) ?_ value).mono (fun _ t ht => ?_)
      fun _ _ h => h
    · exact hboth.evaluated c (hknown c (by simp [hc]))
    · simp only [CallStack.top_modifyTop]
      exact hfocus
    · refine ⟨hboth.trans ht, ?_⟩
      rw [List.forall_mem_singleton]
      exact ht.evaluated e hself.2
  unfold assign
  dsimp only
  split
  · have hcheck := (hC.fulfils_checkConversion (image.typeOf lhs) rhs s hs hknown).2
    rw [ensures_bind]
    refine ((readOnly_checkConversion image _ rhs s).and hcheck).mono ?_ fun _ _ h => h.2
    rintro _ _ ⟨rfl, -⟩
    exact hstore
  · exact hstore

/-- Every operator asks for what it says. -/
theorem fulfils_binary {op : BinaryOp} {lhs rhs : ExprId}
    (hk : (image.program.expr e).kind = .binary op lhs rhs) :
    C.Fulfils (image.program.asked e) [e] (do Run.focusOn (.expr e); binary image e op lhs rhs)
      (do Run.focusOn (.expr e); binary image e op lhs rhs : Run κ Unit) := by
  unfold Program.asked
  rw [hk]
  cases op with
  | assign => exact hC.fulfils_assign hk
  | arith op =>
    exact (hC.fulfils_focusOn _).andThen fun _ =>
      hC.fulfils_arith op (by simp [BinaryOp.isAssignment]) (by simp [BinaryOp.isAssignment])
  | comparison op =>
    refine (hC.fulfils_focusOn _).andThen fun _ => ?_
    refine (hC.fulfils_valueOf lhs (by simp [BinaryOp.isAssignment])).andThen fun l => ?_
    refine (hC.fulfils_valueOf rhs (by simp [BinaryOp.isAssignment])).andThen fun r => ?_
    exact hC.fulfils_bindExpr _
  | logical _ | bitwise _ | compoundAssign _ =>
    exact (hC.fulfils_focusOn _).andThen fun _ => hC.fulfils_report _

/-! ## Provided functions -/

theorem fulfils_callGet : C.Fulfils given [e] (callGet image e : Run κ Unit) (callGet image e) := by
  intro s hs _
  refine ⟨rfl, ?_⟩
  have hread : C.Later s { s with console := (Console.readInt s.console).2 } :=
    hC.outside hs rfl rfl
  rw [callGet, ensures_bind, ensures_get]
  dsimp only
  rw [ensures_bind, ensures_set]
  split
  · exact (hC.ensures_bindExpr hread.inv _).mono
      (fun _ t ht => ⟨hread.trans ht.1, ht.2⟩) fun _ _ h => h
  · exact hC.fault _ rfl hread.inv

omit [Console κ] in
/-- An allocation asks for the number of bytes. -/
theorem fulfils_callMalloc {arg : ExprId} (ha : arg ∈ given) :
    C.Fulfils given [e] (callMalloc image e arg : Run κ Unit) (callMalloc image e arg) := by
  refine (hC.fulfils_valueOf arg ha).andThen fun size => fun s hs _ => ⟨rfl, ?_⟩
  rw [ensures_bind, ensures_get]
  dsimp only
  cases hallocate : s.heap.allocate size with
  | error f => exact hC.fault _ (Heap.isLookup_of_allocate hallocate) hs
  | ok block =>
    have hheap : C.Later s { s with heap := block.2 } := hC.outside hs rfl rfl
    simp only [orFault, pure_bind, ensures_bind, ensures_set]
    exact (hC.ensures_bindExpr hheap.inv block.1).mono
      (fun _ t ht => ⟨hheap.trans ht.1, ht.2⟩) fun _ _ h => h

omit [Console κ] in
/-- A call of a provided function that has no value. -/
theorem fulfils_valueless (hnone : image.Valueless e) {x : Run κ Unit}
    (hx : C.Fulfils given [] x x) :
    C.Fulfils given [e] x x := by
  intro s hs hknown
  refine ⟨rfl, (hx s hs hknown).2.mono (fun _ t ht => ⟨ht.1, ?_⟩) fun _ _ h => h⟩
  rw [List.forall_mem_singleton]
  exact hC.valueless hnone ht.1.inv

/-- A built-in function asks for its arguments. -/
theorem fulfils_callBuiltin {callee : DeclId} {args : List ExprId} {b : Builtin}
    (hk : (image.program.expr e).kind = .call callee args) (hb : image.builtin? callee = some b) :
    C.Fulfils args [e] (callBuiltin image e b args : Run κ Unit) (callBuiltin image e b args) := by
  have hnone (h : b = .print ∨ b = .free) : image.Valueless e := by
    simpa only [Image.Valueless, hk, hb, Option.some.injEq] using h
  unfold callBuiltin checkArity
  by_cases harity : b.arity = args.length
  · rw [if_neg (not_not_intro harity), pure_bind]
    rcases args with _ | ⟨arg, args⟩
    · cases b with
      | get => exact hC.fulfils_callGet
      | print | malloc | free => cases harity
    · have hread : C.Fulfils (arg :: args) []
          (valueOf image arg : Run κ Int32) (valueOf image arg) :=
        hC.fulfils_valueOf arg (by simp)
      cases b with
      | get => cases harity
      | malloc => exact hC.fulfils_callMalloc (by simp)
      | print =>
        refine hC.fulfils_valueless (hnone (.inl rfl)) (hread.andThen fun _ => ?_)
        exact hC.fulfils_modify _ (fun _ => rfl) fun _ => rfl
      | free =>
        refine hC.fulfils_valueless (hnone (.inr rfl)) (hread.andThen fun _ => ?_)
        exact hC.fulfils_modify _ (fun _ => rfl) fun _ => rfl
  · rw [if_pos harity]
    exact fun s hs _ => ⟨rfl, hC.fault _ rfl hs⟩

/-! ## Expressions -/

variable {ev ev' : Evaluator κ}

/-- What is done for an expression that is no call fulfils the contract. -/
theorem conclude (hcall : ∀ callee args, (image.program.expr e).kind ≠ .call callee args) :
    C.Fulfils (image.program.asked e) [e] (conclude image ev e) (conclude image ev' e) := by
  unfold Run.conclude
  cases hk : (image.program.expr e).kind with
  | intLiteral value => exact hC.fulfils_bindExpr value
  | declRef d => exact hC.fulfils_reference hk
  | sizeOf type => exact hC.fulfils_sizeOf type
  | paren inner =>
    refine (hC.fulfils_valueOf inner ?_).andThen fun value => hC.fulfils_bindExpr value
    simp [Program.asked, hk, ExprKind.operands]
  | cast operand =>
    exact hC.fulfils_cast hk (by simp [Program.asked, hk, ExprKind.operands])
  | unary op operand =>
    have hasked : image.program.asked e = [operand] := by
      simp [Program.asked, hk, ExprKind.operands]
    rw [hasked]
    exact hC.fulfils_unary hk
  | binary op lhs rhs => exact hC.fulfils_binary hk
  | subscript base index =>
    have hasked : image.program.asked e = [base, index] := by
      simp [Program.asked, hk, ExprKind.operands]
    rw [hasked]
    exact hC.fulfils_subscript hk
  | call callee args => exact absurd hk (hcall callee args)

/-- A call fulfils the contract if it does so where it opens the frame of a function of the
program. -/
theorem finishCall {callee : DeclId} {args : List ExprId}
    (hk : (image.program.expr e).kind = .call callee args)
    (hbody : ∀ returnType params body, image.builtin? callee = none →
      (image.program.decl callee).kind = .function returnType params (some body) →
        C.Fulfils args [e]
          (do enterBody image callee params body args; leaveCall e (← ev.stmt body).value)
          (do enterBody image callee params body args; leaveCall e (← ev'.stmt body).value)) :
    C.Fulfils args [e] (finishCall image ev e callee args)
      (finishCall image ev' e callee args) := by
  refine (hC.fulfils_focusOn _).andThen fun _ => ?_
  unfold enterCall
  cases hb : image.builtin? callee with
  | some b =>
    simp only [bind_assoc, pure_bind, bind_pure_unit]
    exact hC.fulfils_callBuiltin hk hb
  | none =>
    dsimp only
    split
    · next returnType params body hd =>
      simp only [bind_assoc, pure_bind, onOwnStack_eq]
      exact hbody returnType params body hb hd
    · exact fun s hs _ => ⟨rfl, hC.fault _ rfl hs⟩

end Performs

end Contract

end MiniC
