import MiniC.Proofs.Relabelling
import MiniC.Proofs.RunOutcome

/-!
# Runs with other names and places

A run carries names and places along for what it reports, and does not look at them. So a run of a
program with other names and places does the same: it ends with the same value, or for the same
reason with these names and places, in the same state but for the names and places of its
diagnostics (`Run.natural_run`).
-/

set_option autoImplicit false

namespace MiniC

/-! ## Nodes -/

namespace Program

variable {ρ : Relabelling} (hρ : ρ.place .nowhere = .nowhere) (p : Program)

section

include hρ

/-- An expression of the relabelled program is the relabelled expression. -/
theorem expr_relabel (e : ExprId) : (p.relabel ρ).expr e = (p.expr e).relabel ρ := by
  by_cases h : e.index < p.exprs.size
  · exact expr_relabel_of_lt h
  · simp [expr, relabel, Array.getD, h, Expr.relabel, default, hρ]

theorem stmt_relabel (id : StmtId) : (p.relabel ρ).stmt id = (p.stmt id).relabel ρ := by
  by_cases h : id.index < p.stmts.size
  · simp [stmt, relabel, Array.getD, h]
  · simp [stmt, relabel, Array.getD, h, Stmt.relabel, default, hρ]

theorem decl_relabel (d : DeclId) : (p.relabel ρ).decl d = (p.decl d).relabel ρ := by
  by_cases h : d.index < p.decls.size
  · exact decl_relabel_of_lt h
  · simp [decl, relabel, Array.getD, h, Decl.relabel, default, hρ, ρ.empty]

end

/-- What an expression is made of does not change. -/
theorem kind_expr_relabel (e : ExprId) : ((p.relabel ρ).expr e).kind = (p.expr e).kind := by
  by_cases h : e.index < p.exprs.size
  · rw [expr_relabel_of_lt h, Expr.kind_relabel]
  · simp [expr, relabel, Array.getD, h]

/-- Parentheses are where they were. -/
theorem stripParens_relabel (e : ExprId) : (p.relabel ρ).stripParens e = p.stripParens e := by
  have hwithin (bound : Nat) (e : ExprId) :
      (p.relabel ρ).stripParensWithin bound e = p.stripParensWithin bound e := by
    induction bound generalizing e with
    | zero => rfl
    | succ bound ih =>
      rw [stripParensWithin, stripParensWithin, kind_expr_relabel]
      cases (p.expr e).kind with
      | paren inner => exact ih inner
      | intLiteral _ | declRef _ | unary _ _ | binary _ _ _ | call _ _ | subscript _ _ | cast _
      | sizeOf _ => rfl
  rw [stripParens, stripParens, hwithin]
  simp [relabel]

end Program

namespace Run

variable {α β : Type} {ρ : Relabelling}

/-- On states with other names and places in their diagnostics, the second computation does what the
first one does. -/
def Natural (ρ : Relabelling) (x y : Run Scripted α) : Prop :=
  ∀ s : State Scripted, y (s.relabel ρ) = relabelOutcome ρ (x s)

namespace Natural

variable {x y : Run Scripted α}

theorem pure (a : α) : Natural ρ (pure a) (pure a) := fun _ => rfl

/-- A reason to halt is relabelled as a whole. -/
theorem throw (h : Halt) : Natural ρ (throw h : Run Scripted α) (throw (h.relabel ρ)) :=
  fun _ => rfl

/-- Natural computations follow one another. -/
theorem bind {f g : α → Run Scripted β} (hxy : Natural ρ x y) (hfg : ∀ a, Natural ρ (f a) (g a)) :
    Natural ρ (x >>= f) (y >>= g) := by
  intro s
  rw [bind_apply, bind_apply, hxy s]
  cases x s with
  | ok a t => exact hfg a t
  | error h t => rfl

/-- What follows may depend on the state, but not on its diagnostics. -/
theorem get {f g : State Scripted → Run Scripted α} (h : ∀ s, Natural ρ (f s) (g (s.relabel ρ))) :
    Natural ρ (get >>= f) (get >>= g) := fun s => h s s

theorem set (s : State Scripted) : Natural ρ (set s : Run Scripted PUnit) (set (s.relabel ρ)) :=
  fun _ => rfl

/-- To be natural is kept by all ways of putting computations together. -/
theorem composes : Composes fun _ x y => Natural ρ x y := ⟨pure, bind⟩

theorem ite {c : Prop} [Decidable c] {x' y' : Run Scripted α} (hxy : Natural ρ x y)
    (hxy' : Natural ρ x' y') :
    Natural ρ (if c then x else x') (if c then y else y') := by
  split
  · exact hxy
  · exact hxy'

end Natural

/-! ## Operations -/

section Operations

variable (hρ : ρ.place .nowhere = .nowhere) (image : Image)

theorem typeOf_relabel (e : ExprId) : (image.relabel ρ).typeOf e = image.typeOf e :=
  Program.type_expr_relabel e

theorem natural_modifyStack (f : CallStack → CallStack) :
    Natural ρ (modifyStack f) (modifyStack f) := fun _ => rfl

theorem natural_bindExpr (e : ExprId) (value : Int32) :
    Natural ρ (bindExpr e value) (bindExpr e value) :=
  natural_modifyStack _

theorem natural_focusOn (focus : Focus) : Natural ρ (focusOn focus) (focusOn focus) :=
  natural_modifyStack _

theorem natural_declare (d : DeclId) (value : Int32) :
    Natural ρ (declare d value) (declare d value) :=
  natural_modifyStack _

/-- A fault is raised with the new names at the new place. -/
theorem natural_fault (cause : RuntimeFault) (loc : Location) :
    Natural ρ (fault cause loc : Run Scripted α)
      (fault (cause.rename ρ.toRenaming) (ρ.place loc)) := .throw _

include hρ

/-- Where the relabelled program stands, it stands at the relabelled place. -/
theorem locationIn_relabel (stack : CallStack) :
    (image.relabel ρ).locationIn stack = ρ.place (image.locationIn stack) := by
  unfold Image.locationIn
  split
  · exact congrArg Stmt.loc (Program.stmt_relabel hρ image.program _)
  · exact congrArg Expr.loc (Program.expr_relabel hρ image.program _)
  · exact hρ.symm

theorem decl_relabel (d : DeclId) :
    (image.relabel ρ).program.decl d = (image.program.decl d).relabel ρ :=
  Program.decl_relabel hρ image.program d

theorem expr_relabel (e : ExprId) :
    (image.relabel ρ).program.expr e = (image.program.expr e).relabel ρ :=
  Program.expr_relabel hρ image.program e

/-- A fault is raised where the relabelled program stands. -/
theorem natural_faultHere (cause : RuntimeFault) :
    Natural ρ (faultHere image cause : Run Scripted α)
      (faultHere (image.relabel ρ) (cause.rename ρ.toRenaming)) := by
  intro s
  have hloc := locationIn_relabel hρ image s.stack
  exact congrArg (fun loc => EStateM.Result.error (Halt.error (.fault (cause.rename _) loc))
    (s.relabel ρ)) hloc

theorem natural_orFault (answer : Except MemoryFault α) :
    Natural ρ (orFault image answer) (orFault (image.relabel ρ) answer) := by
  cases answer with
  | ok a => exact .pure a
  | error f => exact natural_faultHere hρ image (.memory f)

theorem natural_valueOf (e : ExprId) : Natural ρ (valueOf image e) (valueOf (image.relabel ρ) e) :=
  .get fun _ => natural_orFault hρ image _

/-- A variable without a value is reported under its new name. -/
theorem natural_valueOfDecl (d : DeclId) :
    Natural ρ (valueOfDecl image d) (valueOfDecl (image.relabel ρ) d) := by
  apply Natural.get
  intro s
  rw [decl_relabel hρ]
  dsimp only [State.relabel]
  split
  · exact .pure _
  · exact natural_faultHere hρ image (.unboundDeclaration _)

/-- A construct without a meaning is reported with its new names at the new place. -/
theorem natural_report (e : ExprId) (construct : Unsupported) :
    Natural ρ (report image e construct)
      (report (image.relabel ρ) e (construct.rename ρ.toRenaming)) := by
  unfold report
  rw [expr_relabel hρ]
  apply Natural.ite
  · exact natural_fault (.unsupported construct) _
  · apply Natural.bind
    · intro s
      change EStateM.Result.ok _ _ = EStateM.Result.ok _ _
      simp [State.relabel, Diagnostic.relabel, Expr.relabel, Console.notify]
    · exact fun _ => natural_bindExpr e 0

theorem natural_checkConversion (expected : CType) (source : ExprId) :
    Natural ρ (checkConversion image expected source)
      (checkConversion (image.relabel ρ) expected source) := by
  unfold checkConversion
  rw [expr_relabel hρ]
  dsimp only [Expr.relabel]
  split
  · exact natural_fault (.arrayConversion _ _) _
  · exact .pure ()

theorem natural_reference (e : ExprId) (d : DeclId) :
    Natural ρ (reference image e d) (reference (image.relabel ρ) e d) := by
  unfold reference
  rw [decl_relabel hρ]
  dsimp only [Decl.kind_relabel, Decl.name_relabel]
  split
  · split
    · exact (natural_valueOfDecl hρ image d).bind fun _ => natural_bindExpr e _
    · exact natural_report hρ image e (.reference _ _)
  · change Natural ρ _ (if (image.builtin? d).isSome then bindExpr e 0
      else report (image.relabel ρ) e _)
    split
    · exact natural_bindExpr e 0
    · exact natural_report hρ image e (.functionReference _)

theorem natural_cast (e operand : ExprId) :
    Natural ρ (cast image e operand) (cast (image.relabel ρ) e operand) := by
  unfold cast
  rw [typeOf_relabel]
  split
  · exact .pure _
  · exact (natural_valueOf hρ image operand).bind fun _ => natural_bindExpr e _

theorem natural_sizeOf (e : ExprId) (type : CType) :
    Natural ρ (sizeOf image e type) (sizeOf (image.relabel ρ) e type) := by
  unfold sizeOf
  split
  · exact natural_bindExpr e _
  · split
    · exact natural_bindExpr e _
    · rw [expr_relabel hρ]
      exact natural_fault (.unsupportedSizeOf type) _

theorem natural_load (place : Place) :
    Natural ρ (load image place) (load (image.relabel ρ) place) := by
  apply Natural.get
  intro s
  cases place <;> exact natural_orFault hρ image _

theorem natural_store (place : Place) (value : Int32) :
    Natural ρ (store image place value) (store (image.relabel ρ) place value) := by
  apply Natural.get
  intro s
  cases place with
  | heap address => exact (natural_orFault hρ image _).bind fun heap => .set { s with heap }
  | array id index => exact (natural_orFault hρ image _).bind fun arrays => .set { s with arrays }

/-- The place of an element does not depend on names. -/
theorem natural_elementPlace (base index : ExprId) :
    Natural ρ (elementPlace image base index) (elementPlace (image.relabel ρ) base index) := by
  unfold elementPlace
  rw [typeOf_relabel]
  exact (natural_valueOf hρ image base).bind fun _ =>
    (natural_valueOf hρ image index).bind fun _ => .pure _

theorem natural_subscript (e base index : ExprId) :
    Natural ρ (subscript image e base index) (subscript (image.relabel ρ) e base index) :=
  (natural_elementPlace hρ image base index).bind fun place =>
    (natural_load hρ image place).bind fun _ => natural_bindExpr e _

theorem natural_unary (e : ExprId) (op : UnaryOp) (operand : ExprId) :
    Natural ρ (unary image e op operand) (unary (image.relabel ρ) e op operand) := by
  unfold unary
  split
  · apply (natural_valueOf hρ image operand).bind
    exact fun address => (natural_load hρ image (.heap address)).bind fun _ => natural_bindExpr e _
  · exact (natural_valueOf hρ image operand).bind fun _ => natural_bindExpr e _
  · exact natural_report hρ image e (.unaryOperator _)

theorem natural_arith (e : ExprId) (op : ArithOp) (lhs rhs : ExprId) :
    Natural ρ (arith image e op lhs rhs) (arith (image.relabel ρ) e op lhs rhs) := by
  apply (natural_valueOf hρ image lhs).bind
  intro l
  apply (natural_valueOf hρ image rhs).bind
  intro r
  rw [typeOf_relabel, typeOf_relabel, expr_relabel hρ, expr_relabel hρ]
  cases op with
  | additive op =>
    dsimp only
    split
    · exact natural_bindExpr e _
    · exact natural_fault (.invalidPointerArithmetic op) _
  | multiplicative op =>
    dsimp only
    split
    · exact natural_bindExpr e _
    · exact natural_fault (.divisionByZero op) _

/-- What an assignment writes does not depend on names. -/
theorem natural_assignTarget (e target : ExprId) (value : Int32) :
    Natural ρ (assignTarget image e target value)
      (assignTarget (image.relabel ρ) e target value) := by
  have hreport :
      Natural ρ (report image e .assignmentTarget) (report (image.relabel ρ) e .assignmentTarget) :=
    natural_report hρ image e .assignmentTarget
  unfold assignTarget
  rw [expr_relabel hρ, Expr.kind_relabel]
  split
  · rw [decl_relabel hρ, Decl.kind_relabel]
    split
    · exact .ite hreport (natural_modifyStack _)
    · exact hreport
  · exact (natural_valueOf hρ image _).bind fun _ => natural_store hρ image _ value
  · exact (natural_elementPlace hρ image _ _).bind fun _ => natural_store hρ image _ value
  · exact hreport

theorem natural_assign (e lhs rhs : ExprId) :
    Natural ρ (assign image e lhs rhs) (assign (image.relabel ρ) e lhs rhs) := by
  have hstore : Natural ρ (do
      let value ← valueOf image rhs
      bindExpr lhs value
      bindExpr e value
      assignTarget image e (image.program.stripParens lhs) value) (do
      let value ← valueOf (image.relabel ρ) rhs
      bindExpr lhs value
      bindExpr e value
      assignTarget (image.relabel ρ) e ((image.relabel ρ).program.stripParens lhs) value) := by
    rw [Image.relabel, Program.stripParens_relabel, ← Image.relabel]
    apply (natural_valueOf hρ image rhs).bind
    intro value
    apply (natural_bindExpr lhs value).bind
    exact fun _ => (natural_bindExpr e value).bind fun _ => natural_assignTarget hρ image e _ value
  unfold assign
  rw [typeOf_relabel]
  dsimp only
  split
  · exact (natural_checkConversion hρ image _ rhs).bind fun _ => hstore
  · exact hstore

theorem natural_binary (e : ExprId) (op : BinaryOp) (lhs rhs : ExprId) :
    Natural ρ (binary image e op lhs rhs) (binary (image.relabel ρ) e op lhs rhs) := by
  cases op with
  | assign => exact natural_assign hρ image e lhs rhs
  | arith op => exact natural_arith hρ image e op lhs rhs
  | comparison op =>
    apply (natural_valueOf hρ image lhs).bind
    exact fun _ => (natural_valueOf hρ image rhs).bind fun _ => natural_bindExpr e _
  | logical op => exact natural_report hρ image e (.binaryOperator (.logical op))
  | bitwise op => exact natural_report hρ image e (.binaryOperator (.bitwise op))
  | compoundAssign op => exact natural_report hρ image e (.binaryOperator (.compoundAssign op))

/-- A variable is initialised whatever its name is. -/
theorem natural_initialise (d : DeclId) :
    Natural ρ (initialise image d) (initialise (image.relabel ρ) d) := by
  unfold initialise
  rw [decl_relabel hρ, Decl.kind_relabel]
  split
  · exact .pure _
  · split
    · exact .get fun s => (Natural.set _).bind fun _ => natural_declare d _
    · apply (natural_checkConversion hρ image _ _).bind
      exact fun _ => (natural_valueOf hρ image _).bind fun _ => natural_declare d _
    · exact natural_declare d 0

/-! ## Calls -/

/-- A wrong number of arguments is reported under the new name of the function. -/
theorem natural_checkArity (function : String) (expected got : Nat) :
    Natural ρ (checkArity image function expected got)
      (checkArity (image.relabel ρ) (ρ.name function) expected got) := by
  unfold checkArity
  split
  · exact natural_faultHere hρ image (.arityMismatch _ _ _)
  · exact .pure ()

/-- A built-in function is known by its declaration, whose new name counts for messages only. -/
theorem natural_callGet (e : ExprId) :
    Natural ρ (callGet image e) (callGet (image.relabel ρ) e) := by
  apply Natural.get
  intro s
  apply (Natural.set { s with console := (Console.readInt s.console).2 }).bind
  intro _
  dsimp only [State.relabel]
  split
  · exact natural_bindExpr e _
  · exact natural_faultHere hρ image .inputUnavailable

theorem natural_callPrint (arg : ExprId) :
    Natural ρ (callPrint image arg) (callPrint (image.relabel ρ) arg) :=
  (natural_valueOf hρ image arg).bind fun _ _ => rfl

theorem natural_callMalloc (e arg : ExprId) :
    Natural ρ (callMalloc image e arg) (callMalloc (image.relabel ρ) e arg) := by
  apply (natural_valueOf hρ image arg).bind
  intro size
  apply Natural.get
  intro s
  apply (natural_orFault hρ image _).bind
  exact fun block => (Natural.set { s with heap := block.2 }).bind fun _ => natural_bindExpr e _

theorem natural_callFree (arg : ExprId) :
    Natural ρ (callFree image arg) (callFree (image.relabel ρ) arg) :=
  (natural_valueOf hρ image arg).bind fun _ _ => rfl

/-- The provided functions keep their names. -/
theorem natural_callBuiltin (e : ExprId) (b : Builtin) (args : List ExprId) :
    Natural ρ (callBuiltin image e b args) (callBuiltin (image.relabel ρ) e b args) := by
  have harity := natural_checkArity hρ image b.name b.arity args.length
  rw [ρ.builtin] at harity
  apply harity.bind
  intro _
  split
  · exact natural_callGet hρ image e
  · exact natural_callPrint hρ image _
  · exact natural_callMalloc hρ image e _
  · exact natural_callFree hρ image _
  · exact .pure _

omit hρ in
theorem natural_openFrame (function : DeclId) (body : StmtId) (bindings : List (DeclId × Int32)) :
    Natural ρ (openFrame function body bindings) (openFrame function body bindings) := by
  apply (natural_modifyStack _).bind
  exact fun _ => (Natural.composes.forM bindings fun _ _ => natural_declare _ _).bind fun _ =>
    natural_focusOn _

/-- A call gives its arguments to the parameters, whatever they are called. -/
theorem natural_enterBody (callee : DeclId) (params : List DeclId) (body : StmtId)
    (args : List ExprId) :
    Natural ρ (enterBody image callee params body args)
      (enterBody (image.relabel ρ) callee params body args) := by
  unfold enterBody
  rw [decl_relabel hρ, Decl.name_relabel]
  apply (natural_checkArity hρ image _ _ _).bind
  intro _
  apply Natural.bind
  · -- of a parameter, the check looks at the type
    apply Natural.composes.forM
    rintro ⟨param, arg⟩ -
    dsimp only
    rw [decl_relabel hρ, Decl.type_congr (Decl.kind_relabel (image.program.decl param))]
    exact natural_checkConversion hρ image _ arg
  intro _
  apply (Natural.composes.mapM args fun a _ => natural_valueOf hρ image a).bind
  intro values
  apply Natural.get
  intro s
  apply Natural.ite
  · exact (natural_faultHere hρ image (.recursionLimit _)).bind fun _ => natural_openFrame _ _ _
  · exact natural_openFrame _ _ _

/-- A call that is not made for the depth of calls fails at the new place. -/
theorem natural_enterCall (e : ExprId) (callee : DeclId) (args : List ExprId) :
    Natural ρ (enterCall image e callee args) (enterCall (image.relabel ρ) e callee args) := by
  unfold enterCall
  have hbuiltin : (image.relabel ρ).builtin? callee = image.builtin? callee := rfl
  rw [hbuiltin]
  cases image.builtin? callee with
  | some b => exact (natural_callBuiltin hρ image e b args).bind fun _ => .pure _
  | none =>
    dsimp only
    rw [decl_relabel hρ, Decl.kind_relabel]
    split
    · exact (natural_enterBody hρ image callee _ _ args).bind fun _ => .pure _
    · exact natural_faultHere hρ image (.undefinedFunction _)

theorem natural_enterMain : Natural ρ (enterMain image) (enterMain (image.relabel ρ)) := by
  unfold enterMain
  have hentry : (image.relabel ρ).entry = image.entry := rfl
  rw [hentry]
  cases image.entry with
  | none => exact .throw (.error .noEntryFunction)
  | some entry =>
    dsimp only
    rw [decl_relabel hρ, Decl.kind_relabel]
    split
    · exact (natural_openFrame _ _ _).bind fun _ => .pure _
    · exact natural_fault (.undefinedFunction _) _

theorem natural_readReturned (e : ExprId) :
    Natural ρ (readReturned image e) (readReturned (image.relabel ρ) e) := by
  apply Natural.get
  intro s
  dsimp only [State.relabel]
  split
  · next function _ =>
    rw [decl_relabel hρ, Decl.type_congr (Decl.kind_relabel (image.program.decl function))]
    apply Natural.ite
    · exact (natural_checkConversion hρ image _ e).bind fun _ => natural_valueOf hρ image e
    · exact natural_valueOf hρ image e
  · exact natural_valueOf hρ image e

/-- Relabelling leaves the forms of all nodes as they are. -/
theorem sameKinds_relabel : SameKinds image (image.relabel ρ) where
  expr := Program.kind_expr_relabel image.program
  stmt id := by
    rw [Image.relabel, Program.stmt_relabel hρ]
    rfl
  decl d := by rw [decl_relabel hρ, Decl.kind_relabel]
  items := rfl

/-- Nothing that a node does depends on names and places, but for what it reports. -/
theorem natural_operates : Operates (fun _ x y => Natural ρ x y) image (image.relabel ρ) where
  toComposes := Natural.composes
  kinds := sameKinds_relabel hρ image
  focusOn := natural_focusOn
  bindExpr := natural_bindExpr
  valueOf := natural_valueOf hρ image
  readReturned := natural_readReturned hρ image
  reference := natural_reference hρ image
  cast := natural_cast hρ image
  sizeOf := natural_sizeOf hρ image
  subscript := natural_subscript hρ image
  unary := natural_unary hρ image
  binary := natural_binary hρ image
  initialise := natural_initialise hρ image
  enterCall := natural_enterCall hρ image
  enterMain := natural_enterMain hρ image
  pop := natural_modifyStack _

/-- A run of the program with other names and places does the same, and reports these. -/
theorem natural_run (fuel : Nat) : Natural ρ (run image fuel) (run (image.relabel ρ) fuel) :=
  (natural_operates hρ image).run (fun _ => .throw .outOfFuel) fuel

end Operations

end Run

end MiniC
