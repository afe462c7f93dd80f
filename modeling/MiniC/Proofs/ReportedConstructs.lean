import MiniC.Proofs.Evaluation
import MiniC.Proofs.ParsedProgram
import MiniC.Proofs.ValueChanges

/-!
# Constructs that are reported

Some expressions have no meaning for the machine whatever the values of their operands: operators
that it does not carry out, assignments to what is no target, and functions that are named without
being called (`Image.unsupported?`). Where such constructs are no errors, the evaluation of such an
expression does nothing beyond that of its operands but to make it zero and to keep one diagnostic
(`Run.evaluates_unsupported`).
-/

set_option autoImplicit false

namespace MiniC

/-! ## Constructs without a meaning -/

/-- Whether something may be assigned to an expression that is no parenthesised one: a variable that
is no array, what a pointer points to, or an element. -/
def Program.isAssignable (p : Program) (target : ExprId) : Bool :=
  match (p.expr target).kind with
  | .declRef d =>
    match (p.decl d).kind with
    | .variable type _ _ => !type.isArray
    | .function .. => false
  | .unary .deref _ => true
  | .subscript .. => true
  | _ => false

/-- The construct without a meaning that an expression is, whatever the values of its operands. -/
def Image.unsupported? (image : Image) (e : ExprId) : Option Unsupported :=
  match (image.program.expr e).kind with
  | .binary (.logical op) _ _ => some (.binaryOperator (.logical op))
  | .binary (.bitwise op) _ _ => some (.binaryOperator (.bitwise op))
  | .binary (.compoundAssign op) _ _ => some (.binaryOperator (.compoundAssign op))
  | .binary .assign lhs _ =>
    if image.program.isAssignable (image.program.stripParens lhs) then none
      else some .assignmentTarget
  | .unary .deref _ => none
  | .unary op _ => if op.function?.isSome then none else some (.unaryOperator op)
  | .declRef d =>
    let decl := image.program.decl d
    if decl.isFunction && (image.builtin? d).isNone then some (.functionReference decl.name)
      else none
  | _ => none

/-- The expressions that get a value when the operands of an expression have theirs. -/
def Program.valued (p : Program) (e : ExprId) : List ExprId :=
  match (p.expr e).kind with
  | .binary .assign lhs _ => [lhs, e]
  | _ => [e]

theorem Program.mem_valued (p : Program) (e : ExprId) : e ∈ p.valued e := by
  unfold valued
  split <;> simp

namespace State

variable {κ : Type} [Console κ]

/-- The state once a diagnostic is kept, which the console takes notice of; a scripted one stays as
it is. -/
def noting (s : State κ) (d : Diagnostic) : State κ :=
  { s with
    diagnostics := s.diagnostics.push d
    console := Console.notify d s.console }

/-- Between two states a construct was reported for an expression, and nothing else was done. -/
structure Reported (image : Image) (e : ExprId) (construct : Unsupported)
    (before after : State κ) : Prop where
  value : after.stack.top.expr? e = some 0
  diagnostics : after.diagnostics = before.diagnostics.push ⟨construct, (image.program.expr e).loc⟩
  others : (before.noting ⟨construct, (image.program.expr e).loc⟩).SameButValues
    (image.program.valued e) after

variable {image : Image} {e : ExprId} {construct : Unsupported} {s s' t : State κ}

/-- What comes before the report gives values to nodes of the expression alone. -/
theorem Reported.after (hs : s.SameButValues (image.program.valued e) s')
    (hdiagnostics : s'.diagnostics = s.diagnostics) (h : s'.Reported image e construct t) :
    s.Reported image e construct t where
  value := h.value
  diagnostics := by rw [h.diagnostics, hdiagnostics]
  others := by
    have hnoting :
      (s.noting ⟨construct, (image.program.expr e).loc⟩).SameButValues (image.program.valued e)
        (s'.noting ⟨construct, (image.program.expr e).loc⟩) :=
      ⟨hs.depth, hs.callers, hs.global, hs.top, hs.heap, hs.arrays,
        congrArg (Console.notify _) hs.console⟩
    exact hnoting.trans h.others

end State

namespace Run

variable {κ : Type} [Console κ] {image : Image} {e : ExprId}
    {construct : Unsupported} {s t u : State κ}

/-! ## Reports -/

/-- Where constructs without a meaning are no errors, a report is a diagnostic and a zero. -/
theorem report_apply (hlenient : image.config.strict = false) (s : State κ) :
    report image e construct s = .ok () { s.noting ⟨construct, (image.program.expr e).loc⟩ with
      stack := s.stack.modifyTop (·.bindExpr e 0) } := by
  unfold report
  dsimp only
  rw [if_neg (by simp [hlenient])]
  rfl

theorem reported_of_report (hlenient : image.config.strict = false)
    (h : report image e construct s = .ok () t) : s.Reported image e construct t := by
  rw [report_apply hlenient] at h
  cases h
  constructor
  · rw [CallStack.top_modifyTop, Frame.expr?_bindExpr, if_pos rfl]
  · rfl
  · exact State.sameButValues_bindExpr (s.noting _) (image.program.mem_valued e) 0

/-! ## Expressions without a meaning -/

/-- A target that nothing may be assigned to is reported. -/
theorem assignTarget_eq_report {target : ExprId}
    (h : image.program.isAssignable target = false) (value : Int32) :
    (assignTarget image e target value : Run κ Unit) = report image e .assignmentTarget := by
  unfold assignTarget
  unfold Program.isAssignable at h
  cases hk : (image.program.expr target).kind with
  | declRef d =>
    rw [hk] at h
    dsimp only at h ⊢
    cases hd : (image.program.decl d).kind with
    | function _ _ _ => rfl
    | «variable» type init storage =>
      rw [hd] at h
      dsimp only
      rw [if_pos (by simpa using h)]
  | unary op operand =>
    cases op with
    | deref =>
      rw [hk] at h
      cases h
    | neg | plus | not | bitNot | preInc | preDec | postInc | postDec | addressOf => rfl
  | subscript base index =>
    rw [hk] at h
    cases h
  | intLiteral _ | binary _ _ _ | call _ _ | cast _ | paren _ | sizeOf _ => rfl

/-- An assignment to what is no target gives values to its own node and to the target's before the
report. -/
theorem reported_of_assign {lhs rhs : ExprId} (hlenient : image.config.strict = false)
    (hk : (image.program.expr e).kind = .binary .assign lhs rhs)
    (htarget : image.program.isAssignable (image.program.stripParens lhs) = false)
    (h : assign image e lhs rhs s = .ok () t) : s.Reported image e .assignmentTarget t := by
  rw [assign_eq_of_allowed (allowed_of_assign h)] at h
  obtain ⟨value, s', hvalue, hassigned⟩ := exists_of_bind_eq_ok h
  obtain rfl : s' = s := (readOnly_valueOf image rhs s).of_ok hvalue
  have hvalued : image.program.valued e = [lhs, e] := by simp [Program.valued, hk]
  have hbound : s'.SameButValues (image.program.valued e)
      { s' with stack := (s'.stack.modifyTop (·.bindExpr lhs value)).modifyTop (·.bindExpr e value)
        } := by
    rw [hvalued]
    exact (s'.sameButValues_bindExpr (by simp) value).trans
      (State.sameButValues_bindExpr _ (by simp) value)
  change assignTarget image e _ value
    { s' with stack := (s'.stack.modifyTop (·.bindExpr lhs value)).modifyTop (·.bindExpr e value)
      } = _ at hassigned
  rw [assignTarget_eq_report htarget] at hassigned
  exact State.Reported.after hbound rfl (reported_of_report hlenient hassigned)

/-- What is done with the operands of an expression without a meaning is to report it. -/
theorem reported_of_conclude {ev : Evaluator κ} (hlenient : image.config.strict = false)
    (hc : image.unsupported? e = some construct) (h : conclude image ev e s = .ok () t) :
    s.Reported image e construct t := by
  unfold conclude at h
  unfold Image.unsupported? at hc
  -- an operator turns to the expression first
  have hturned {x : Run κ Unit} (hx : (do focusOn (.expr e); x) s = .ok () t)
      (hreport : ∀ s', x s' = .ok () t → s'.Reported image e construct t) :
        s.Reported image e construct t := by
    rw [bind_apply, focusOn_apply] at hx
    exact State.Reported.after (s.sameButValues_focusOn _) rfl (hreport _ hx)
  cases hk : (image.program.expr e).kind with
  | declRef d =>
    rw [hk] at h hc
    dsimp only at h hc
    split at hc
    · next hfunction =>
      cases hc
      obtain ⟨hfunction, hbuiltin⟩ := Bool.and_eq_true_iff.1 hfunction
      unfold reference at h
      unfold Decl.isFunction at hfunction
      cases hd : (image.program.decl d).kind with
      | function _ _ _ =>
        rw [hd] at h
        dsimp only at h
        rw [if_neg (by simpa using hbuiltin)] at h
        exact reported_of_report hlenient h
      | «variable» _ _ _ =>
        rw [hd] at hfunction
        cases hfunction
    · cases hc
  | unary op operand =>
    rw [hk] at h hc
    cases op with
    | deref | neg | plus | not | bitNot => cases hc
    | preInc | preDec | postInc | postDec | addressOf =>
      cases hc
      exact hturned h fun _ hx => reported_of_report hlenient hx
  | binary op lhs rhs =>
    rw [hk] at h hc
    cases op with
    | arith _ | comparison _ => cases hc
    | logical _ | bitwise _ | compoundAssign _ =>
      cases hc
      exact hturned h fun _ hx => reported_of_report hlenient hx
    | assign =>
      dsimp only at hc
      split at hc
      · cases hc
      · next htarget =>
        cases hc
        exact hturned h fun _ hx => reported_of_assign hlenient hk (Bool.eq_false_iff.2 htarget) hx
  | intLiteral _ | call _ _ | subscript _ _ | cast _ | paren _ | sizeOf _ =>
    rw [hk] at hc
    cases hc

/-- Reporting has no effect beyond the report. Where constructs without a meaning are no errors and
the evaluation of such an expression has a result, this is what the evaluation of the operands led
to, with the expression zero and one more diagnostic, which names the construct and the place of the
expression. The operands of an assignment are its right side and the parts that say where a
dereference or an element on its left side lies. -/
theorem evaluates_unsupported {source : String} {p : Program}
    (h : Program.parse source = .ok p) {config : Config}
    (hlenient : config.strict = false) {e : ExprId} {construct : Unsupported}
    (hc : (Image.load p config).unsupported? e = some construct) {fuel : Nat} {s t : State κ}
    (ht : (evaluator (Image.load p config) fuel).expr e s = .ok () t) :
    ∃ u, EvaluatesAll (Image.load p config) (p.asked e) s u ∧
      u.Reported (Image.load p config) e construct t := by
  have htree : (Image.load p config).program.Tree := (Program.resolved_of_parse h).wellFormed.tree
  obtain ⟨_, u, hoperands, hconclude⟩ := exists_operands_of_evaluator htree ht
  have hreported := reported_of_conclude hlenient hc hconclude
  by_cases hasked : (Image.load p config).program.asked e = []
  · rw [hasked] at hoperands
    cases hoperands.unique (EvaluatesAll.nil _)
    refine ⟨s, ?_, State.Reported.after (s.sameButValues_focusOn _) rfl hreported⟩
    change EvaluatesAll _ ((Image.load p config).program.asked e) s s
    rw [hasked]
    exact .nil s
  · exact ⟨u, (EvaluatesAll.turnedTo_iff hasked).1 hoperands, hreported⟩

/-- Both operands of the connective are calls that change a variable. -/
theorem evaluates_unsupported_connective :
    ∃ p, Program.parse
      "int g; int h(int n) { g = n; return n; } int main() { return h(2) && h(3); }" = .ok p ∧
      let image := Image.load p {}
      let s := State.initial image (Scripted.ofInput [])
      ∃ t u, (evaluator image 20).expr ⟨8⟩ s = .ok () t ∧ EvaluatesAll image [⟨5⟩, ⟨7⟩] s u ∧
        u.Reported image ⟨8⟩ (.binaryOperator (.logical .and)) t ∧ t.console = u.console := by
  obtain ⟨p, hp, hc, hasked, hresult⟩ : ∃ p,
      Program.parse "int g; int h(int n) { g = n; return n; } int main() { return h(2) && h(3); }" =
        .ok p ∧ (Image.load p {}).unsupported? ⟨8⟩ = some (.binaryOperator (.logical .and)) ∧
        p.asked ⟨8⟩ = [⟨5⟩, ⟨7⟩] ∧
        result? ((evaluator (Image.load p {}) 20).expr ⟨8⟩
          (.initial (Image.load p {}) (Scripted.ofInput []))) = some () :=
    Program.exists_of_parse (by decide +kernel)
  obtain ⟨t, ht⟩ := exists_of_result? hresult
  obtain ⟨u, hoperands, hreported⟩ := evaluates_unsupported hp rfl hc ht
  rw [hasked] at hoperands
  exact ⟨p, hp, t, u, ht, hoperands, hreported, hreported.others.console⟩

end Run

end MiniC
