import MiniC.Proofs.RunOutcome

/-!
# Changes of the values of expressions

Much of what a run does is to give expressions values in the top frame. `State.SameButValues nodes s
t` says that nothing else differs between two states but the node that the top frame works on, and
the diagnostics: the frames and their variables, the heap, the arrays and the console are the same,
and so is the value of every expression that is not listed.
-/

set_option autoImplicit false

namespace MiniC

/-- A frame before and after some expressions got values. -/
structure Frame.SameButValues (nodes : List ExprId) (before after : Frame) : Prop where
  function : after.function = before.function
  decls : after.decls = before.decls
  exprs : ∀ e, e ∉ nodes → after.expr? e = before.expr? e

/-- A state before and after some expressions got values in the top frame. -/
structure State.SameButValues {κ : Type} (nodes : List ExprId) (before after : State κ) : Prop where
  depth : after.stack.depth = before.stack.depth
  callers : after.stack.calls.tail = before.stack.calls.tail
  global : before.stack.calls ≠ [] → after.stack.global = before.stack.global
  top : before.stack.top.SameButValues nodes after.stack.top
  heap : after.heap = before.heap
  arrays : after.arrays = before.arrays
  console : after.console = before.console

/-! ## Frames -/

namespace Frame

variable {nodes : List ExprId} {f g h : Frame}

theorem SameButValues.refl (frame : Frame) : frame.SameButValues nodes frame :=
  ⟨rfl, rfl, fun _ _ => rfl⟩

/-- Values may change twice. -/
theorem SameButValues.trans (hfg : f.SameButValues nodes g) (hgh : g.SameButValues nodes h) :
    f.SameButValues nodes h where
  function := hgh.function.trans hfg.function
  decls := hgh.decls.trans hfg.decls
  exprs e he := (hgh.exprs e he).trans (hfg.exprs e he)

/-- More expressions may be said to have got values. -/
theorem SameButValues.mono {nodes' : List ExprId} (hfg : f.SameButValues nodes g)
    (h : ∀ e ∈ nodes, e ∈ nodes') : f.SameButValues nodes' g :=
  ⟨hfg.function, hfg.decls, fun e he => hfg.exprs e (mt (h e) he)⟩

/-- Binding an expression changes its value only. -/
theorem sameButValues_bindExpr (frame : Frame) {e : ExprId} (he : e ∈ nodes) (value : Int32) :
    frame.SameButValues nodes (frame.bindExpr e value) where
  function := rfl
  decls := rfl
  exprs e' he' := by
    rw [expr?_bindExpr, if_neg]
    rintro rfl
    exact he' he

/-- Turning to a node changes no value. -/
theorem sameButValues_focusOn (frame : Frame) (focus : Focus) :
    frame.SameButValues nodes (frame.focusOn focus) := ⟨rfl, rfl, fun _ _ => rfl⟩

end Frame

/-! ## States -/

namespace State

variable {κ : Type} {nodes : List ExprId} {s t u : State κ}

theorem SameButValues.refl (s : State κ) : s.SameButValues nodes s :=
  ⟨rfl, rfl, fun _ => rfl, .refl _, rfl, rfl, rfl⟩

/-- Both states have calls, or neither has. -/
theorem SameButValues.calls_eq_nil (h : s.SameButValues nodes t) :
    t.stack.calls = [] ↔ s.stack.calls = [] := by
  have hlength : t.stack.calls.length = s.stack.calls.length := Nat.succ.inj h.depth
  rw [← List.length_eq_zero_iff, hlength, List.length_eq_zero_iff]

theorem SameButValues.trans (hst : s.SameButValues nodes t) (htu : t.SameButValues nodes u) :
    s.SameButValues nodes u where
  depth := htu.depth.trans hst.depth
  callers := htu.callers.trans hst.callers
  global hs := (htu.global (mt hst.calls_eq_nil.1 hs)).trans (hst.global hs)
  top := hst.top.trans htu.top
  heap := htu.heap.trans hst.heap
  arrays := htu.arrays.trans hst.arrays
  console := htu.console.trans hst.console

theorem SameButValues.mono {nodes' : List ExprId} (hst : s.SameButValues nodes t)
    (h : ∀ e ∈ nodes, e ∈ nodes') : s.SameButValues nodes' t :=
  { hst with top := hst.top.mono h }

/-- A change of the values in the top frame is one of the state. -/
theorem sameButValues_modifyTop (s : State κ) {f : Frame → Frame}
    (hf : s.stack.top.SameButValues nodes (f s.stack.top)) :
    s.SameButValues nodes { s with stack := s.stack.modifyTop f } where
  depth := CallStack.depth_modifyTop _ _
  callers := CallStack.tail_calls_modifyTop _ _
  global hs := CallStack.global_modifyTop hs f
  top := by
    rw [CallStack.top_modifyTop]
    exact hf
  heap := rfl
  arrays := rfl
  console := rfl

theorem sameButValues_bindExpr (s : State κ) {e : ExprId} (he : e ∈ nodes) (value : Int32) :
    s.SameButValues nodes { s with stack := s.stack.modifyTop (·.bindExpr e value) } :=
  s.sameButValues_modifyTop (s.stack.top.sameButValues_bindExpr he value)

theorem sameButValues_focusOn (s : State κ) (focus : Focus) :
    s.SameButValues nodes { s with stack := s.stack.modifyTop (·.focusOn focus) } :=
  s.sameButValues_modifyTop (s.stack.top.sameButValues_focusOn focus)

end State

end MiniC
