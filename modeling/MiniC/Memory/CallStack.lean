import Std.Data.TreeMap
import MiniC.Memory.Fault

/-!
# The call stack

Every active call has a frame, and so has the file as a whole: the global frame lies at the bottom
and is never removed. A frame remembers the values of declarations, the values that expressions had
when they were last evaluated in it, and the node that is being worked on, its focus.
-/

set_option autoImplicit false

namespace MiniC

/-- The node that a frame works on. -/
inductive Focus where
  | stmt (id : StmtId)
  | expr (id : ExprId)
  deriving DecidableEq

/-- The record of one call, or of the file where `function` is missing. -/
structure Frame where
  function : Option DeclId
  decls : Std.TreeMap Nat Int32
  exprs : Std.TreeMap Nat Int32
  focus : Option Focus

namespace Frame

/-- A frame without values. -/
def empty (function : Option DeclId) : Frame := ⟨function, ∅, ∅, none⟩

/-- The value of a declaration. -/
def decl? (frame : Frame) (d : DeclId) : Option Int32 := frame.decls[d.index]?

/-- Gives a declaration a value. -/
def bindDecl (frame : Frame) (d : DeclId) (value : Int32) : Frame :=
  { frame with decls := frame.decls.insert d.index value }

/-- The value of an expression, where it has one. -/
def expr? (frame : Frame) (e : ExprId) : Option Int32 := frame.exprs[e.index]?

/-- The value of an expression. -/
def expr (frame : Frame) (e : ExprId) : Except MemoryFault Int32 :=
  match frame.expr? e with
  | some value => pure value
  | none => throw (.unboundExpression e)

/-- Gives an expression a value. -/
def bindExpr (frame : Frame) (e : ExprId) (value : Int32) : Frame :=
  { frame with exprs := frame.exprs.insert e.index value }

/-- Turns to a node. -/
def focusOn (frame : Frame) (focus : Focus) : Frame :=
  { frame with focus := some focus }

/-- A variable has the value that was bound to it last. -/
theorem decl?_bindDecl (frame : Frame) (d d' : DeclId) (value : Int32) :
    (frame.bindDecl d value).decl? d' = if d' = d then some value else frame.decl? d' := by
  rcases d with ⟨i⟩
  rcases d' with ⟨j⟩
  by_cases h : j = i
  · simp [decl?, bindDecl, h]
  · simp [decl?, bindDecl, h, Std.TreeMap.getElem?_insert, Ne.symm h]

/-- An expression has the value that was bound to it last. -/
theorem expr?_bindExpr (frame : Frame) (e e' : ExprId) (value : Int32) :
    (frame.bindExpr e value).expr? e' = if e' = e then some value else frame.expr? e' := by
  rcases e with ⟨i⟩
  rcases e' with ⟨j⟩
  by_cases h : j = i
  · simp [expr?, bindExpr, h]
  · simp [expr?, bindExpr, h, Std.TreeMap.getElem?_insert, Ne.symm h]

@[simp] theorem expr?_bindDecl (frame : Frame) (d : DeclId) (value : Int32) (e : ExprId) :
    (frame.bindDecl d value).expr? e = frame.expr? e := rfl

@[simp] theorem decl?_bindExpr (frame : Frame) (e : ExprId) (value : Int32) (d : DeclId) :
    (frame.bindExpr e value).decl? d = frame.decl? d := rfl

@[simp] theorem expr?_focusOn (frame : Frame) (focus : Focus) (e : ExprId) :
    (frame.focusOn focus).expr? e = frame.expr? e := rfl

@[simp] theorem decl?_focusOn (frame : Frame) (focus : Focus) (d : DeclId) :
    (frame.focusOn focus).decl? d = frame.decl? d := rfl

@[simp] theorem expr?_empty (function : Option DeclId) (e : ExprId) :
    (empty function).expr? e = none := by
  simp [empty, expr?]

@[simp] theorem decl?_empty (function : Option DeclId) (d : DeclId) :
    (empty function).decl? d = none := by
  simp [empty, decl?]

/-- A value that is there is the answer of the frame. -/
theorem expr_of_expr? {frame : Frame} {e : ExprId} {value : Int32}
    (h : frame.expr? e = some value) :
    frame.expr e = .ok value := by
  simp [expr, h, pure, Except.pure]

/-- A value that is not there is a fault. -/
theorem expr_of_expr?_none {frame : Frame} {e : ExprId} (h : frame.expr? e = none) :
    frame.expr e = .error (.unboundExpression e) := by
  simp [expr, h, throw, throwThe, MonadExceptOf.throw]

end Frame

/-- The frames of the active calls, the latest first, above the frame of the file. -/
structure CallStack where
  calls : List Frame
  global : Frame

namespace CallStack

/-- The stack without calls. -/
def empty : CallStack := ⟨[], .empty none⟩

/-- The number of frames, that of the file included. -/
def depth (stack : CallStack) : Nat := stack.calls.length + 1

/-- The frame of the latest call; without calls, that of the file. -/
def top (stack : CallStack) : Frame := stack.calls.head?.getD stack.global

/-- Changes the top frame. -/
def modifyTop (stack : CallStack) (f : Frame → Frame) : CallStack :=
  match stack.calls with
  | frame :: callers => { stack with calls := f frame :: callers }
  | [] => { stack with global := f stack.global }

/-- Changes the frame of the file. -/
def modifyGlobal (stack : CallStack) (f : Frame → Frame) : CallStack :=
  { stack with global := f stack.global }

/-- Begins a call. -/
def push (stack : CallStack) (function : DeclId) : CallStack :=
  { stack with calls := .empty (some function) :: stack.calls }

/-- Ends the latest call, if there is one; its frame is the first component. -/
def pop (stack : CallStack) : Option Frame × CallStack :=
  match stack.calls with
  | frame :: callers => (some frame, { stack with calls := callers })
  | [] => (none, stack)

@[simp] theorem top_modifyTop (stack : CallStack) (f : Frame → Frame) :
    (stack.modifyTop f).top = f stack.top := by
  rcases stack with ⟨_ | _, _⟩ <;> rfl

/-- Changing the top frame adds no frame. -/
@[simp] theorem depth_modifyTop (stack : CallStack) (f : Frame → Frame) :
    (stack.modifyTop f).depth = stack.depth := by
  rcases stack with ⟨_ | _, _⟩ <;> rfl

@[simp] theorem tail_calls_modifyTop (stack : CallStack) (f : Frame → Frame) :
    (stack.modifyTop f).calls.tail = stack.calls.tail := by
  rcases stack with ⟨_ | _, _⟩ <;> rfl

@[simp] theorem calls_modifyTop_eq_nil (stack : CallStack) (f : Frame → Frame) :
    (stack.modifyTop f).calls = [] ↔ stack.calls = [] := by
  rcases stack with ⟨_ | _, _⟩ <;> simp [modifyTop]

/-- While a call is active, its frame is on top, and that of the file is left alone. -/
theorem global_modifyTop {stack : CallStack} (h : stack.calls ≠ []) (f : Frame → Frame) :
    (stack.modifyTop f).global = stack.global := by
  rcases stack with ⟨_ | _, _⟩
  · exact absurd rfl h
  · rfl

/-- Outside all calls the frame of the file is on top. -/
theorem top_of_calls_eq_nil {stack : CallStack} (h : stack.calls = []) :
    stack.top = stack.global := by
  simp [top, h]

/-- While a call is active, its frame is not touched by a change of that of the file. -/
theorem top_modifyGlobal {stack : CallStack} (h : stack.calls ≠ []) (f : Frame → Frame) :
    (stack.modifyGlobal f).top = stack.top := by
  rcases stack with ⟨_ | _, _⟩
  · exact absurd rfl h
  · rfl

/-- The frame of a new call is empty. -/
@[simp] theorem top_push (stack : CallStack) (function : DeclId) :
    (stack.push function).top = .empty (some function) := rfl

end CallStack

end MiniC
