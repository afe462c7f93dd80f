import MiniC.Memory.Heap
import MiniC.Program.Operator

/-!
# Arithmetic

The values of operators on 32-bit integers, which wrap around. An operator that has no value for its
operands answers nothing: a quotient or remainder by zero, and a sum or difference that makes no
sense for pointers. A pointer counts in elements: `AddOp.value?` scales the other operand by the
size of an element, and divides the difference of two pointers by it.
-/

set_option autoImplicit false

namespace MiniC

/-- The number that stands for a truth value. -/
def truthValue (b : Bool) : Int32 := if b then 1 else 0

/-- The function of a unary operator that is a function of its operand's value. -/
def UnaryOp.function? : UnaryOp → Option (Int32 → Int32)
  | .neg => some fun v => -v
  | .plus => some fun v => v
  | .bitNot => some fun v => ~~~v
  | .not => some fun v => truthValue (v = 0)
  | .deref | .addressOf | .preInc | .preDec | .postInc | .postDec => none

/-- A sum or difference, where the first two arguments say which operands are pointers. -/
def AddOp.value? (op : AddOp) (leftPointer rightPointer : Bool) (l r : Int32) : Option Int32 :=
  match op, leftPointer, rightPointer with
  | .add, false, false => some (l + r)
  | .sub, false, false => some (l - r)
  | .add, true, false => some (l + Heap.stepSize r)
  | .sub, true, false => some (l - Heap.stepSize r)
  | .add, false, true => some (Heap.stepSize l + r)
  | .sub, true, true => some ((l - r) / Heap.elementSize)
  | .add, true, true | .sub, false, true => none

/-- A product, quotient or remainder; quotients are rounded toward zero. -/
def MulOp.value? (op : MulOp) (l r : Int32) : Option Int32 :=
  match op with
  | .mul => some (l * r)
  | .div => if r = 0 then none else some (l / r)
  | .mod => if r = 0 then none else some (l % r)

/-- Whether a comparison holds. -/
def Comparison.holds (op : Comparison) (l r : Int32) : Bool :=
  match op with
  | .eq => l = r
  | .ne => l ≠ r
  | .lt => l < r
  | .le => l ≤ r
  | .gt => r < l
  | .ge => r ≤ l

end MiniC
