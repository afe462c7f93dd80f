import Mathlib.Algebra.Group.Int.Defs
import MiniC.Proofs.ElementAccesses

/-!
# Pointer arithmetic

Sums and differences of pointers and numbers are computed in 32 bits, where a pointer counts in
elements of four bytes. Adding is commutative and associative, and what was added can be subtracted
again. The way back through the difference of two pointers is open only where four times a number
fits, or where the distance in bytes is a multiple of four (`Heap.div_stepSize_iff`,
`Heap.stepSize_div_iff`).

These are laws of expressions as they are evaluated (`Run.pointer_arithmetic_laws`). `PointerTerm`
says what an expression computes, `Run.Forms` which expressions compute it, with any operands that
have the values in question, and `PointerTerm.value?` which value this gives them.
-/

set_option autoImplicit false

namespace MiniC

/-! ## Distances -/

namespace Heap

theorem stepSize_add (n m : Int32) : stepSize (n + m) = stepSize n + stepSize m := Int32.add_mul

theorem toInt_stepSize (n : Int32) : (stepSize n).toInt = (4 * n.toInt).bmod Int32.size := by
  have h := toInt_add_stepSize 0 n
  rwa [Int32.zero_add, Int32.toInt_zero, Int.zero_add] at h

/-- A distance in bytes is divided by the size of an element toward zero. -/
theorem toInt_div_elementSize (d : Int32) :
    (d / elementSize).toInt = d.toInt / 4 + if 0 ≤ d.toInt ∨ 4 ∣ d.toInt then 0 else 1 := by
  have hlow := d.le_toInt
  have hhigh := d.toInt_lt
  have hsize : elementSize.toInt = 4 := rfl
  have hquotient : d.toInt.tdiv 4 = d.toInt / 4 + if 0 ≤ d.toInt ∨ 4 ∣ d.toInt then 0 else 1 :=
    Int.tdiv_eq_ediv
  rw [Int32.toInt_div, hsize, hquotient]
  apply Int.bmod_eq_of_le
  · omega
  · omega

/-- A number of elements is found again from their size if four times the number fits. -/
theorem div_stepSize_iff (n : Int32) :
    stepSize n / elementSize = n ↔ -2 ^ 29 ≤ n.toInt ∧ n.toInt < 2 ^ 29 := by
  have hlow := (stepSize n).le_toInt
  have hhigh := (stepSize n).toInt_lt
  rw [← Int32.toInt_inj, toInt_div_elementSize]
  constructor
  · intro h
    omega
  · rintro ⟨hn, hn'⟩
    have hsize : Int32.size = 4294967296 := rfl
    have hexact : (stepSize n).toInt = 4 * n.toInt := by
      rw [toInt_stepSize]
      exact Int.bmod_eq_of_le (by omega) (by omega)
    rw [hexact]
    omega

/-- A distance in bytes is found again from the number of elements if it is a multiple of their
size. -/
theorem stepSize_div_iff (d : Int32) : stepSize (d / elementSize) = d ↔ 4 ∣ d.toInt := by
  have hlow := d.le_toInt
  have hhigh := d.toInt_lt
  have hsize : Int32.size = 4294967296 := rfl
  have hexact : (stepSize (d / elementSize)).toInt = 4 * (d / elementSize).toInt := by
    rw [toInt_stepSize, toInt_div_elementSize]
    exact Int.bmod_eq_of_le (by omega) (by omega)
  rw [← Int32.toInt_inj, hexact, toInt_div_elementSize]
  omega

end Heap

/-! ## Terms -/

/-- A sum or difference of pointers and numbers, which are given by their values. -/
inductive PointerTerm where
  | pointer (value : Int32)
  | number (value : Int32)
  | op (op : AddOp) (left right : PointerTerm)

namespace PointerTerm

instance : Add PointerTerm := ⟨op .add⟩

instance : Sub PointerTerm := ⟨op .sub⟩

/-- A sum or difference is a pointer if exactly one of its operands is. -/
def isPointer : PointerTerm → Bool
  | pointer _ => true
  | number _ => false
  | op _ left right => left.isPointer != right.isPointer

/-- The value of a term, unless an operator in it has none for its operands. -/
def value? : PointerTerm → Option Int32
  | pointer value | number value => some value
  | op o left right => do
    let l ← left.value?
    let r ← right.value?
    o.value? left.isPointer right.isPointer l r

theorem exists_values_of_op {o : AddOp} {left right : PointerTerm} {value : Int32}
    (h : (op o left right).value? = some value) :
    ∃ l r, left.value? = some l ∧ right.value? = some r ∧
      o.value? left.isPointer right.isPointer l r = some value := by
  obtain ⟨l, hl, h⟩ := Option.bind_eq_some_iff.1 h
  obtain ⟨r, hr, h⟩ := Option.bind_eq_some_iff.1 h
  exact ⟨l, r, hl, hr, h⟩

end PointerTerm

/-! ## Types -/

namespace Program

/-- Expressions have the types that their forms give them. -/
def ObeysTypeRules (p : Program) : Prop :=
  ∀ {e : ExprId} {type : CType}, p.typeRule? (p.expr e).kind = some type → (p.expr e).type = type

variable {p : Program} {base index e lhs rhs : ExprId}

theorem obeysTypeRules_of_parse {source : String} (h : parse source = .ok p) :
    p.ObeysTypeRules := by
  intro e type hrule
  obtain ⟨stream, -, hreachable⟩ := reachable_of_parse h
  by_cases he : e.index < p.exprs.size
  · rcases hreachable.typed e he with hrule' | ⟨⟨operand, hcast⟩, -⟩
    · exact Option.some.inj (hrule'.symm.trans hrule)
    · rw [hcast] at hrule
      cases hrule
  · have houtside : p.expr e = default := by simp [expr, Array.getD, he]
    rw [houtside] at hrule ⊢
    cases hrule
    rfl

namespace ObeysTypeRules

variable (hp : p.ObeysTypeRules)
include hp

theorem paren {inner : ExprId} (hk : (p.expr e).kind = .paren inner) :
    (p.expr e).type = (p.expr inner).type :=
  hp (by rw [hk, typeRule?])

/-- Parentheses do not change the type. -/
theorem stripParens (ht : p.Tree) (e : ExprId) :
    (p.expr (p.stripParens e)).type = (p.expr e).type := by
  by_cases hparen : ∃ inner, (p.expr e).kind = .paren inner
  · obtain ⟨inner, hk⟩ := hparen
    have hlt : inner.index < e.index := ht.lt (mem_operands hk List.mem_cons_self)
    rw [ht.stripParens_paren hk, stripParens ht inner, hp.paren hk]
  · rw [stripParens_eq_self fun inner hk => hparen ⟨inner, hk⟩]
termination_by e.index

theorem isPointer_additive {o : AddOp}
    (hk : (p.expr e).kind = .binary (.arith (.additive o)) lhs rhs) :
    (p.expr e).type.isPointer = ((p.expr lhs).type.isPointer != (p.expr rhs).type.isPointer) := by
  have hint : CType.int.isPointer = false := rfl
  rw [hp (e := e) (by rw [hk, typeRule?]), BinaryOp.typeRule]
  cases hl : (p.expr lhs).type.isPointer <;> cases hr :
    (p.expr rhs).type.isPointer <;> simp [hl, hr, hint]

/-- The element of a pointer has the type that the pointer points to, in either form. -/
theorem locates (ht : p.Tree) (he : p.Locates base index e)
    (hbase : (p.expr base).type.isPointer = true)
    (hindex : (p.expr index).type.isPointer = false) :
    (p.expr e).type = (p.expr base).type.element := by
  cases he with
  | subscript hk => exact hp (by rw [hk, typeRule?])
  | @sum operand hk hsum =>
    have hoperand : (p.expr operand).type = (p.expr base).type := by
      rw [← hp.stripParens ht operand]
      apply hp
      rw [hsum, typeRule?, BinaryOp.typeRule, if_pos ⟨hbase, by simp [hindex]⟩]
    rw [← hoperand]
    exact hp (by rw [hk, typeRule?, UnaryOp.typeRule])

end ObeysTypeRules

end Program

/-! ## Evaluation of terms -/

namespace Run

variable {κ : Type} [Console κ] {image : Image} {e lhs rhs : ExprId} {value : Int32}
    {term : PointerTerm}
  {s t : State κ}

/-- The evaluation of an expression gives it a value. -/
def EvaluatesTo (image : Image) (e : ExprId) (s : State κ) (value : Int32) : Prop :=
  ∃ t, Evaluates image e s (.ok () t) ∧ t.stack.top.expr? e = some value

/-- From a state, the expression computes the term, in whatever parentheses. The pointers and
numbers of the term are any expressions that have or do not have the type of a pointer and are given
these values, each from the state that the evaluation of what is on its left leads to. -/
inductive Forms (image : Image) : ExprId → PointerTerm → State κ → Prop
  | pointer {e : ExprId} {value : Int32} {s : State κ} : (image.typeOf e).isPointer = true →
      EvaluatesTo image e s value → Forms image e (.pointer value) s
  | number {e : ExprId} {value : Int32} {s : State κ} : (image.typeOf e).isPointer = false →
      EvaluatesTo image e s value → Forms image e (.number value) s
  | paren {e inner : ExprId} {term : PointerTerm} {s : State κ} :
    (image.program.expr e).kind = .paren inner →
      Forms image inner term s → Forms image e term s
  | op {e lhs rhs : ExprId} {o : AddOp} {left right : PointerTerm} {s : State κ} :
      (image.program.expr e).kind = .binary (.arith (.additive o)) lhs rhs →
        Forms image lhs left s →
      (∀ t, Evaluates image lhs s (.ok () t) → Forms image rhs right t) →
        Forms image e (.op o left right) s

theorem EvaluatesTo.of_result? {fuel : Nat}
    (h : result? ((evaluator image fuel).expr e s) = some ())
    (hv : (endState ((evaluator image fuel).expr e s)).stack.top.expr? e = some value) :
    EvaluatesTo image e s value := by
  obtain ⟨t, ht⟩ := exists_of_result? h
  rw [ht] at hv
  exact ⟨t, .of_evaluator ht, hv⟩

/-- The right operand is looked at where the evaluation of the left one ends. -/
theorem Forms.op_of_result? {fuel : Nat} {o : AddOp} {left right : PointerTerm}
    (hk : (image.program.expr e).kind = .binary (.arith (.additive o)) lhs rhs)
    (hl : Forms image lhs left s)
    (h : result? ((evaluator image fuel).expr lhs s) = some ())
    (hr : Forms image rhs right (endState ((evaluator image fuel).expr lhs s))) :
    Forms image e (.op o left right) s := by
  obtain ⟨t, ht⟩ := exists_of_result? h
  rw [ht] at hr
  refine .op hk hl fun u hu => ?_
  cases hu.unique (Evaluates.of_evaluator ht)
  exact hr

/-- Evaluation gives no value to what lies outside of the expression. -/
theorem Evaluates.expr?_of_not_contains {c : ExprId} (h : Evaluates image e s (.ok () t))
    (hc : ¬ image.program.Contains e c) : t.stack.top.expr? c = s.stack.top.expr? c := by
  obtain ⟨fuel, hfuel⟩ := h
  have heffect := ((frameLocal_evaluator image fuel).expr e s).of_ok (hfuel fuel (Nat.le_refl _))
  exact heffect.exprs c hc

/-- An expression in parentheses fails as what is in them does. -/
theorem evaluates_paren_error {inner : ExprId} {halt : Halt}
    (hk : (image.program.expr e).kind = .paren inner)
    (h : Evaluates image inner s (.error halt t)) : Evaluates image e s (.error halt t) := by
  -- parentheses ask for nothing but what is in them
  have hoperands (ev : Evaluator κ) : evalOperands image ev e = ev.expr inner := by
    rw [evalOperands, hk]
  apply Evaluates.of_step
  simp only [exprStep_eq, hoperands]
  exact (Settles.of_eq fun _ => focusOn_apply s (.expr e)).bind
    (Evaluates.turnedTo_iff.2 h).bind_error

section Terms

variable (ht : image.program.Tree)
include ht

/-- Where both operands are given values, a sum or difference ends as the operator answers for
these. -/
theorem evaluates_op {o : AddOp} {l r : Int32}
    (hk : (image.program.expr e).kind = .binary (.arith (.additive o)) lhs rhs)
    (hl : EvaluatesTo image lhs s l)
    (hr : ∀ t, Evaluates image lhs s (.ok () t) → EvaluatesTo image rhs t r) :
    ∃ v : State κ, Evaluates image e s
      (match o.value? (image.typeOf lhs).isPointer (image.typeOf rhs).isPointer l r with
      | some value => .ok () { v with stack := v.stack.modifyTop (·.bindExpr e value) }
      | none =>
        .error (.error (.fault (.invalidPointerArithmetic o) (image.program.expr lhs).loc)) v) := by
  obtain ⟨t, hlhs, hl⟩ := hl
  obtain ⟨u, hrhs, hr⟩ := hr t hlhs
  -- the left operand does not lie inside the right one, so it keeps its value
  have hoperands : image.program.operands e = [lhs, rhs] := by
    rw [Program.operands, hk, ExprKind.operands]
  have hne : lhs ≠ rhs := by
    have hnodup := ht.nodup e
    rw [hoperands] at hnodup
    simpa using hnodup
  have hkept : u.stack.top.expr? lhs = some l := by
    rw [hrhs.expr?_of_not_contains (ht.not_contains_sibling (e := e) ?_ ?_ hne.symm), hl]
    · simp [hoperands]
    · simp [hoperands]
  exact ⟨_, evaluates_additive ht hk (.cons hlhs (.singleton hrhs)) hkept hr⟩

variable (hp : image.program.ObeysTypeRules)
include hp

/-- An expression that computes a term with a value is given this value, and is a pointer if the
term is one. -/
theorem Forms.evaluatesTo (h : Forms image e term s) (hvalue : term.value? = some value) :
    (image.typeOf e).isPointer = term.isPointer ∧ EvaluatesTo image e s value := by
  induction h generalizing value with
  | pointer hpointer hleaf | number hpointer hleaf =>
    cases hvalue
    exact ⟨hpointer, hleaf⟩
  | paren hk _ ih =>
    obtain ⟨htype, t, hinner, hv⟩ := ih hvalue
    refine ⟨(congrArg CType.isPointer (hp.paren hk)).trans htype, _,
      evaluates_paren ht hk hinner hv, ?_⟩
    simp [Frame.expr?_bindExpr]
  | @op e lhs rhs o left right s hk _ _ ihl ihr =>
    obtain ⟨l, r, hl, hr, hop⟩ := PointerTerm.exists_values_of_op hvalue
    obtain ⟨htypel, hlhs⟩ := ihl hl
    -- what the right operand computes is known where the left one leads; its type is the same
    -- everywhere
    have htyper : (image.typeOf rhs).isPointer = right.isPointer := by
      obtain ⟨t, hlhs, -⟩ := hlhs
      exact (ihr t hlhs hr).1
    obtain ⟨v, hv⟩ := evaluates_op ht hk hlhs fun t hlhs => (ihr t hlhs hr).2
    rw [htypel, htyper, hop] at hv
    refine ⟨?_, _, hv, by simp [Frame.expr?_bindExpr]⟩
    rw [PointerTerm.isPointer, ← htypel, ← htyper]
    exact hp.isPointer_additive hk

/-- A sum or difference for whose operands the operator has no value fails for the place of the left
one. -/
theorem Forms.fails {o : AddOp} {left right : PointerTerm} {l r : Int32}
    (h : Forms image e (.op o left right) s)
    (hl : left.value? = some l) (hr : right.value? = some r)
    (hop : o.value? left.isPointer right.isPointer l r = none) :
    ∃ loc t,
      Evaluates image e s (.error (.error (.fault (.invalidPointerArithmetic o) loc)) t) := by
  generalize hterm : PointerTerm.op o left right = term at h
  induction h with
  | pointer _ _ | number _ _ => cases hterm
  | paren hk _ ih =>
    obtain ⟨loc, t, hinner⟩ := ih hterm
    exact ⟨loc, t, evaluates_paren_error hk hinner⟩
  | @op e lhs rhs o left right s hk hleft hright _ _ =>
    cases hterm
    obtain ⟨htypel, hlhs⟩ := hleft.evaluatesTo ht hp hl
    have htyper : (image.typeOf rhs).isPointer = right.isPointer := by
      obtain ⟨t, hlhs, -⟩ := hlhs
      exact ((hright t hlhs).evaluatesTo ht hp hr).1
    obtain ⟨v, hv⟩ := evaluates_op ht hk hlhs fun t hlhs => ((hright t hlhs).evaluatesTo ht hp hr).2
    rw [htypel, htyper, hop] at hv
    exact ⟨_, v, hv⟩

end Terms

/-! ## Accesses -/

section Accesses

variable {base index : ExprId} {start i : Int32} {u : State κ}

/-- The base of an element is a pointer and its index a number, and these are their values. -/
structure Points (image : Image) (base index : ExprId) (start i : Int32) (u : State κ) : Prop where
  pointer : (image.typeOf base).isPointer = true
  number : (image.typeOf index).isPointer = false
  base : u.stack.top.expr? base = some start
  index : u.stack.top.expr? index = some i

/-- The expression reads the word at an address: it is given this word as its value, or it fails
because there is none; the heap is left as it is. -/
def Reads (image : Image) (e : ExprId) (s : State κ) (heap : Heap) (address : Int32) : Prop :=
  match heap.read address with
  | .ok word =>
    ∃ t, Evaluates image e s (.ok () t) ∧ t.stack.top.expr? e = some word ∧ t.heap = heap
  | .error fault =>
    ∃ t, Evaluates image e s
      (.error (.error (.fault (.memory fault) (image.program.expr e).loc)) t) ∧ t.heap = heap

/-- The expression stores the value of `rhs` where something of the type `target` lies: this is the
word at an address then, and the value of the expression, or there is no such word and the
expression fails. An array is not stored as a pointer. Where it fails, the heap is left as it is. -/
def Writes (image : Image) (e rhs : ExprId) (target : CType) (s : State κ) (heap : Heap)
    (address value : Int32) :
    Prop :=
  if target.isPointer = true ∧ (image.typeOf rhs).isArray = true then
    ∃ t, Evaluates image e s (.error (.error
      (.fault (.arrayConversion target (image.typeOf rhs)) (image.program.expr rhs).loc)) t) ∧
        t.heap = heap
  else match heap.write address value with
    | .ok after =>
      ∃ t, Evaluates image e s (.ok () t) ∧ t.stack.top.expr? e = some value ∧ t.heap = after
    | .error fault => ∃ t, Evaluates image e s (.error (.error
        (.fault (.memory fault) (image.program.expr e).loc)) t) ∧ t.heap = heap

variable (ht : image.program.Tree)
include ht

/-- Reading an element reads the word at the address that the sum of the pointer and the index
has. -/
theorem reads_of_locates (he : image.program.Locates base index e)
    (hpoints : Points image base index start i u)
    (hu : EvaluatesAll image [base, index] s u) :
    Reads image e s u.heap (start + Heap.stepSize i) := by
  obtain ⟨v, hheap, hevaluates⟩ :=
    evaluates_read ht he hpoints.pointer hpoints.number hu hpoints.base hpoints.index
  unfold Reads
  cases hread : u.heap.read (start + Heap.stepSize i) with
  | ok word =>
    rw [hread] at hevaluates
    exact ⟨_, hevaluates, by simp [Frame.expr?_bindExpr], hheap⟩
  | error fault =>
    rw [hread] at hevaluates
    exact ⟨v, hevaluates, hheap⟩

/-- An assignment to an element writes the word at this address. -/
theorem writes_of_locates (hp : image.program.ObeysTypeRules)
    (hk : (image.program.expr e).kind = .binary .assign lhs rhs)
    (he : image.program.Locates base index (image.program.stripParens lhs))
    (hpoints : Points image base index start i u) (hu : EvaluatesAll image [rhs, base, index] s u)
    (hvalue : u.stack.top.expr? rhs = some value) :
    Writes image e rhs (image.typeOf base).element s u.heap (start + Heap.stepSize i) value := by
  obtain ⟨hbase, hindex, hstart, hi⟩ := hpoints
  have htarget : image.typeOf lhs = (image.typeOf base).element :=
    (hp.stripParens ht lhs).symm.trans (hp.locates ht he hbase hindex)
  have harray : image.program.assignsArray e = true ↔
      (image.typeOf base).element.isPointer = true ∧ (image.typeOf rhs).isArray = true := by
    rw [Program.assignsArray, hk, ← htarget, Bool.and_eq_true]
    rfl
  -- the evaluation asks for the type of the target, which is that of an element in either form
  have hrejected := harray.symm.trans (Program.assignsArray_iff hk)
  unfold Writes
  split
  · next hstored =>
    obtain ⟨hpointer, hforbidden⟩ := hrejected.1 hstored
    have hfails := evaluates_rejected_write ht hk he hbase hindex hu hstart hi hpointer hforbidden
    rwa [htarget] at hfails
  · next hplain =>
    obtain ⟨v, hheap, hv, hevaluates⟩ :=
      evaluates_write ht hk he hbase hindex hu hstart hi (mt hrejected.2 hplain) hvalue
    cases hwrite : u.heap.write (start + Heap.stepSize i) value with
    | ok after =>
      rw [hwrite] at hevaluates
      exact ⟨_, hevaluates, hv, rfl⟩
    | error fault =>
      rw [hwrite] at hevaluates
      exact ⟨v, hevaluates, hheap⟩

end Accesses

/-! ## Laws -/

/-- Whatever computes the term is given this value. -/
def Yields (κ : Type) [Console κ] (image : Image) (term : PointerTerm) (value : Int32) : Prop :=
  ∀ (e : ExprId) (s : State κ), Forms image e term s → EvaluatesTo image e s value

/-- Whatever computes the term fails as an operation that makes no sense for pointers. -/
def Rejects (κ : Type) [Console κ] (image : Image) (op : AddOp) (term : PointerTerm) : Prop :=
  ∀ (e : ExprId) (s : State κ), Forms image e term s →
    ∃ loc t, Evaluates image e s (.error (.error (.fault (.invalidPointerArithmetic op) loc)) t)

open PointerTerm in
/-- The laws of pointer arithmetic, for pointers with the values `x` and `y` and numbers with the
values `n` and `m`. The sum of a pointer and a number is the same in either order, and numbers can
be added to a pointer one after the other; subtracting the number again leads back to the pointer.
Subtracting the pointer leads to the number just if `-2 ^ 29 ≤ n < 2 ^ 29`, and adding the
difference of two pointers to the one leads to the other just if this difference is a multiple of
four before it is divided. The element of a pointer at an index is, as `p[n]` and as `*(p + n)`, the
word at the address that their sum has as its value: both forms read and write this word, or fail
for the same reason. Two pointers have no sum, and a pointer is not subtracted from a number. -/
theorem pointer_arithmetic_laws {source : String} {p : Program}
    (h : Program.parse source = .ok p) (config : Config) (x y n m : Int32) :
    let image := Image.load p config
    (∃ v, Yields κ image (number n + pointer x) v ∧ Yields κ image (pointer x + number n) v) ∧
    (∃ v, Yields κ image (pointer x + number n + number m) v ∧
      Yields κ image (pointer x + (number n + number m)) v) ∧
    Yields κ image (pointer x + number n - number n) x ∧
    (∃ v, Yields κ image (pointer x + number n - pointer x) v ∧
      (v = n ↔ -2 ^ 29 ≤ n.toInt ∧ n.toInt < 2 ^ 29)) ∧
    (∃ v, Yields κ image (pointer x + (pointer y - pointer x)) v ∧ (v = y ↔ 4 ∣ (y - x).toInt)) ∧
    (∃ address, Yields κ image (pointer x + number n) address ∧
      (∀ (base index e : ExprId) (s u : State κ), p.Locates base index e →
        Points image base index x n u →
        EvaluatesAll image [base, index] s u → Reads image e s u.heap address) ∧
      ∀ (base index lhs rhs e : ExprId) (value : Int32) (s u : State κ),
        (p.expr e).kind = .binary .assign lhs rhs → p.Locates base index (p.stripParens lhs) →
        Points image base index x n u → EvaluatesAll image [rhs, base, index] s u →
        u.stack.top.expr? rhs = some value →
        Writes image e rhs (p.expr base).type.element s u.heap address value) ∧
    Rejects κ image .add (pointer x + pointer y) ∧ Rejects κ image .sub (number n - pointer x) := by
  intro image
  have ht : image.program.Tree := (Program.resolved_of_parse h).wellFormed.tree
  have hp : image.program.ObeysTypeRules := Program.obeysTypeRules_of_parse h
  -- a term has one value, whatever node it is written at
  have hyields {term : PointerTerm} {value : Int32} (hvalue : term.value? = some value) :
      Yields κ image term value :=
    fun e s hforms => (hforms.evaluatesTo ht hp hvalue).2
  refine ⟨?comm, ?assoc, ?cancel, ?number, ?difference, ?element, ?sum, ?subtrahend⟩
  case comm =>
    refine ⟨x + Heap.stepSize n, hyields ?_, hyields rfl⟩
    exact congrArg some (Int32.add_comm _ _)
  case assoc =>
    refine ⟨x + Heap.stepSize n + Heap.stepSize m, hyields rfl, hyields ?_⟩
    change some (x + Heap.stepSize (n + m)) = _
    rw [Heap.stepSize_add, Int32.add_assoc]
  case cancel =>
    refine hyields ?_
    exact congrArg some (Int32.add_sub_cancel _ _)
  case number =>
    -- scaling is undone by the division unless it went out of range
    refine ⟨(x + Heap.stepSize n - x) / Heap.elementSize, hyields rfl, ?_⟩
    rw [Int32.add_comm, Int32.add_sub_cancel]
    exact Heap.div_stepSize_iff n
  case difference =>
    -- and the division is undone by scaling if nothing is left over
    refine ⟨x + Heap.stepSize ((y - x) / Heap.elementSize), hyields rfl, ?_⟩
    rw [Int32.add_comm, ← Int32.eq_sub_iff_add_eq]
    exact Heap.stepSize_div_iff (y - x)
  case element =>
    refine ⟨x + Heap.stepSize n, hyields rfl, ?_, ?_⟩
    · exact fun base index e s u he hpoints hu => reads_of_locates ht he hpoints hu
    · exact fun base index lhs rhs e value s u hk he hpoints hu hvalue =>
        writes_of_locates ht hp hk he hpoints hu hvalue
  case sum => exact fun e s hforms => hforms.fails ht hp rfl rfl rfl
  case subtrahend => exact fun e s hforms => hforms.fails ht hp rfl rfl rfl

/-- A number whose fourfold does not fit is not what the difference of the pointers is. -/
theorem pointer_arithmetic_laws_out_of_range :
    ∃ p, Program.parse "int *p = 8; int main() { return (p + 536870912) - p; }" = .ok p ∧
      let image := Image.load p {}
      let s := endOfRun image 100
      Forms image ⟨6⟩ (.pointer 8 + .number 536870912 - .pointer 8) s ∧
        ∃ v, EvaluatesTo image ⟨6⟩ s v ∧ v ≠ 536870912 := by
  obtain ⟨p, hp, hdifference, hparen, hsum, hfirst, hnumber, hsecond, hvalues⟩ : ∃ p,
      Program.parse "int *p = 8; int main() { return (p + 536870912) - p; }" = .ok p ∧
      let image := Image.load p {}
      let eval := (evaluator image 10).expr
      let s := endOfRun image 100
      (p.expr ⟨6⟩).kind = .binary (.arith (.additive .sub)) ⟨4⟩ ⟨5⟩ ∧
        (p.expr ⟨4⟩).kind = .paren ⟨3⟩ ∧
        (p.expr ⟨3⟩).kind = .binary (.arith (.additive .add)) ⟨1⟩ ⟨2⟩ ∧
          (image.typeOf ⟨1⟩).isPointer = true ∧
        (image.typeOf ⟨2⟩).isPointer = false ∧ (image.typeOf ⟨5⟩).isPointer = true ∧
        (result? (eval ⟨1⟩ s) = some () ∧ (endState (eval ⟨1⟩ s)).stack.top.expr? ⟨1⟩ = some 8) ∧
        (result? (eval ⟨2⟩ (endState (eval ⟨1⟩ s))) = some () ∧
          (endState (eval ⟨2⟩ (endState (eval ⟨1⟩ s)))).stack.top.expr? ⟨2⟩ = some 536870912) ∧
        result? (eval ⟨4⟩ s) = some () ∧ result? (eval ⟨5⟩ (endState (eval ⟨4⟩ s))) = some () ∧
          (endState (eval ⟨5⟩ (endState (eval ⟨4⟩ s)))).stack.top.expr? ⟨5⟩ = some 8 :=
    Program.exists_of_parse (by decide +kernel)
  obtain ⟨⟨hleft, hx⟩, ⟨hright, hn⟩, hinner, hlast, hx'⟩ := hvalues
  have hforms : Forms (Image.load p {}) ⟨6⟩ (.pointer 8 + .number 536870912 - .pointer 8)
      (endOfRun (Image.load p {}) 100) := by
    refine .op_of_result? hdifference (.paren hparen ?_) hinner
      (.pointer hsecond (.of_result? hlast hx'))
    exact .op_of_result? hsum (.pointer hfirst (.of_result? hleft hx)) hleft
      (.number hnumber (.of_result? hright hn))
  obtain ⟨v, hyields, hrange⟩ :=
    (pointer_arithmetic_laws (κ := Scripted) hp {} 8 8 536870912 0).2.2.2.1
  exact ⟨p, hp, hforms, v, hyields _ _ hforms, mt hrange.1 (by decide)⟩

end Run

end MiniC
