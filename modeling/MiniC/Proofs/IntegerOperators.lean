import Mathlib.Data.Int.ModEq
import MiniC.Proofs.Assertion
import MiniC.Proofs.Fuel
import MiniC.Proofs.ParsedProgram
import MiniC.Proofs.ProgramStructure

/-!
# Operators on integers

Where no pointer takes part, the operators compute what the integers say, wrapped around to 32 bits:
sums, differences, products, and the two signs in front of an operand are the one 32-bit number
congruent to the exact result (`WrapsTo`), quotients and remainders are those of the division that
rounds toward zero (`DividesTo`), and comparisons and the negation of a truth value agree with the
order of the integers (`Comparison.Says`). Only a division by zero fails.
`Run.integer_operators_exact` says this of the operations as they are carried out, in every state
where the operands have values.
-/

set_option autoImplicit false

namespace MiniC

/-! ## Integers and 32-bit numbers -/

/-- The 32-bit number is congruent to the integer, and no other one is. -/
def WrapsTo (n : Int) (v : Int32) : Prop := ∀ w : Int32, w.toInt ≡ n [ZMOD 2 ^ 32] ↔ w = v

theorem wrapsTo_of_toInt_eq {n : Int} {v : Int32} (h : v.toInt = n.bmod (2 ^ 32)) :
    WrapsTo n v := by
  intro w
  constructor
  · intro hw
    -- a 32-bit number is its own residue, so congruent ones are equal
    have hresidue : (w.toInt % (2 ^ 32 : Nat)).bmod (2 ^ 32) = (n % (2 ^ 32 : Nat)).bmod (2 ^ 32) :=
      congrArg (Int.bmod · (2 ^ 32)) hw
    rw [Int.emod_bmod, Int.emod_bmod, ← h] at hresidue
    exact Int32.toInt_inj.1 (w.toInt_bmod.symm.trans hresidue)
  · rintro rfl
    rw [h]
    exact Int.bmod_emod

theorem WrapsTo.modEq {n : Int} {v : Int32} (h : WrapsTo n v) : v.toInt ≡ n [ZMOD 2 ^ 32] :=
  (h v).2 rfl

/-- `q` and `r` are quotient and remainder of `a` by `b`, where the quotient is rounded toward
zero. -/
structure DividesTo (a b q r : Int32) : Prop where
  quotient : WrapsTo (a.toInt.tdiv b.toInt) q
  remainder : r.toInt = a.toInt.tmod b.toInt
  /-- Multiplying leads back to the dividend, up to a multiple of `2 ^ 32`. -/
  sum : q.toInt * b.toInt + r.toInt ≡ a.toInt [ZMOD 2 ^ 32]
  small : r.toInt.natAbs < b.toInt.natAbs
  sign : r = 0 ∨ r.toInt.sign = a.toInt.sign

theorem dividesTo_div_mod (a : Int32) {b : Int32} (hb : b ≠ 0) : DividesTo a b (a / b) (a % b) := by
  have hquotient : WrapsTo (a.toInt.tdiv b.toInt) (a / b) :=
    wrapsTo_of_toInt_eq (Int32.toInt_div a b)
  have hremainder : (a % b).toInt = a.toInt.tmod b.toInt := Int32.toInt_mod a b
  have hb' : b.toInt ≠ 0 := by
    intro hzero
    exact hb (Int32.toInt_inj.1 hzero)
  refine ⟨hquotient, hremainder, ?_, ?_, ?_⟩
  · calc (a / b).toInt * b.toInt + (a % b).toInt
        ≡ a.toInt.tdiv b.toInt * b.toInt + a.toInt.tmod b.toInt [ZMOD 2 ^ 32] := by
          rw [hremainder]
          exact (hquotient.modEq.mul_right _).add_right _
      _ = a.toInt := Int.tdiv_mul_add_tmod _ _
  · rw [hremainder, Int.natAbs_tmod]
    exact Nat.mod_lt _ (Int.natAbs_pos.2 hb')
  · have hsign := Int.sign_tmod a.toInt b.toInt
    by_cases hdvd : b.toInt ∣ a.toInt
    · left
      apply Int32.toInt_inj.1
      rw [hremainder, Int.tmod_eq_zero_of_dvd hdvd]
      rfl
    · right
      rw [hremainder, hsign, if_neg hdvd]

/-- What a comparison says of two integers. -/
def Comparison.Says : Comparison → Int → Int → Prop
  | .eq, x, y => x = y
  | .ne, x, y => x ≠ y
  | .lt, x, y => x < y
  | .le, x, y => x ≤ y
  | .gt, x, y => x > y
  | .ge, x, y => x ≥ y

instance (op : Comparison) (x y : Int) : Decidable (op.Says x y) := by
  cases op <;> unfold Comparison.Says <;> infer_instance

/-- Numbers of 32 bits are ordered as the integers that they are. -/
theorem Comparison.holds_iff (op : Comparison) (a b : Int32) :
    op.holds a b = true ↔ op.Says a.toInt b.toInt := by
  cases op <;> simp [holds, Says, Int32.toInt_inj, Int32.lt_iff_toInt_lt, Int32.le_iff_toInt_le]

/-! ## Operations -/

namespace Run

variable {κ α : Type} {image : Image} {e c lhs rhs : ExprId} {a b : Int32} {s : State κ}

theorem valueOf_bind (h : s.stack.top.expr? c = some a) (f : Int32 → Run κ α) :
    (valueOf image c >>= f) s = f a s := by
  rw [bind_apply, valueOf_of_expr? image h]

/-- The operation gives the expression a value, and does nothing else. -/
def Binds (x : Run κ Unit) (e : ExprId) (s : State κ) (v : Int32) : Prop :=
  x s = .ok () { s with stack := s.stack.modifyTop (·.bindExpr e v) }

section Operands

variable [Console κ] (ha : s.stack.top.expr? lhs = some a)
include ha

theorem binds_unary {op : UnaryOp} {f : Int32 → Int32} (hop : op.function? = some f) :
    Binds (unary image e op lhs) e s (f a) := by
  cases op with
  | neg | plus | bitNot | not =>
    cases hop
    exact valueOf_bind ha _
  | deref | addressOf | preInc | preDec | postInc | postDec => cases hop

variable (hb : s.stack.top.expr? rhs = some b)
include hb

theorem binds_comparison (op : Comparison) :
    Binds (binary image e (.comparison op) lhs rhs) e s (if op.Says a.toInt b.toInt then 1
      else 0) := by
  have hvalue : truthValue (op.holds a b) = if op.Says a.toInt b.toInt then 1 else 0 := by
    simp only [truthValue, op.holds_iff a b]
  rw [Binds, ← hvalue, binary, Run.compare, valueOf_bind ha, valueOf_bind hb]
  rfl

theorem binds_multiplicative {op : MulOp} {v : Int32} (hop : op.value? a b = some v) :
    Binds (binary image e (.arith (.multiplicative op)) lhs rhs) e s v := by
  rw [Binds, binary, arith, valueOf_bind ha, valueOf_bind hb]
  dsimp only
  rw [hop]
  rfl

theorem fails_multiplicative {op : MulOp} (hop : op.value? a b = none) :
    binary image e (.arith (.multiplicative op)) lhs rhs s =
      .error (.error (.fault (.divisionByZero op) (image.program.expr rhs).loc)) s := by
  rw [binary, arith, valueOf_bind ha, valueOf_bind hb]
  dsimp only
  rw [hop]
  rfl

theorem binds_additive {op : AddOp} {v : Int32}
    (hop : op.value? (image.typeOf lhs).isPointer (image.typeOf rhs).isPointer a b = some v) :
    Binds (binary image e (.arith (.additive op)) lhs rhs) e s v := by
  rw [Binds, binary, arith, valueOf_bind ha, valueOf_bind hb]
  dsimp only
  rw [hop]
  rfl

end Operands

/-- Operators on integers are exact modulo `2 ^ 32`. For operands that are no pointers and have the
values `a` and `b`, in any state: sum, difference, product, negation and complement are the one
32-bit number congruent to the exact integer result. Quotient and remainder by a number that is not
zero are those of the division that rounds toward zero, and each of them fails, for the place of the
divisor and with nothing changed, just if the divisor is zero. The comparisons and `!` are `1` or
`0` as the integers are ordered. -/
theorem integer_operators_exact [Console κ] (image : Image) (e : ExprId)
    (hlhs : (image.typeOf lhs).isPointer = false) (hrhs : (image.typeOf rhs).isPointer = false)
    (ha : s.stack.top.expr? lhs = some a) (hb : s.stack.top.expr? rhs = some b) :
    let arithmetic (op : ArithOp) : Run κ Unit := binary image e (.arith op) lhs rhs
    (∃ v, Binds (arithmetic (.additive .add)) e s v ∧ WrapsTo (a.toInt + b.toInt) v) ∧
    (∃ v, Binds (arithmetic (.additive .sub)) e s v ∧ WrapsTo (a.toInt - b.toInt) v) ∧
    (∃ v, Binds (arithmetic (.multiplicative .mul)) e s v ∧ WrapsTo (a.toInt * b.toInt) v) ∧
    (∃ v, Binds (unary image e .neg lhs) e s v ∧ WrapsTo (-a.toInt) v) ∧
    (∃ v, Binds (unary image e .bitNot lhs) e s v ∧ WrapsTo (-a.toInt - 1) v) ∧
    (b ≠ 0 → ∃ q r, Binds (arithmetic (.multiplicative .div)) e s q ∧
      Binds (arithmetic (.multiplicative .mod)) e s r ∧ DividesTo a b q r) ∧
    (∀ op ∈ [MulOp.div, MulOp.mod], b = 0 ↔ arithmetic (.multiplicative op) s =
      .error (.error (.fault (.divisionByZero op) (image.program.expr rhs).loc)) s) ∧
    (∀ op : Comparison, Binds (binary image e (.comparison op) lhs rhs) e s
      (if op.Says a.toInt b.toInt then 1 else 0)) ∧
    Binds (unary image e .not lhs) e s (if a.toInt = 0 then 1 else 0) := by
  intro arithmetic
  have hadditive {op : AddOp} {v : Int32} (hop : op.value? false false a b = some v) :
      Binds (arithmetic (.additive op)) e s v := binds_additive ha hb (by rw [hlhs, hrhs, hop])
  refine ⟨?sum, ?difference, ?product, ?negation, ?complement, ?division, ?zero,
    ?comparison, ?truth⟩
  case sum => exact ⟨a + b, hadditive rfl, wrapsTo_of_toInt_eq (Int32.toInt_add a b)⟩
  case difference => exact ⟨a - b, hadditive rfl, wrapsTo_of_toInt_eq (Int32.toInt_sub a b)⟩
  case product =>
    exact ⟨a * b, binds_multiplicative ha hb rfl, wrapsTo_of_toInt_eq (Int32.toInt_mul a b)⟩
  case negation => exact ⟨-a, binds_unary ha rfl, wrapsTo_of_toInt_eq (Int32.toInt_neg a)⟩
  case complement => exact ⟨~~~a, binds_unary ha rfl, wrapsTo_of_toInt_eq (Int32.toInt_not a)⟩
  case division =>
    intro hne
    have hdiv : MulOp.value? .div a b = some (a / b) := if_neg hne
    have hmod : MulOp.value? .mod a b = some (a % b) := if_neg hne
    exact ⟨a / b, a % b, binds_multiplicative ha hb hdiv, binds_multiplicative ha hb hmod,
      dividesTo_div_mod a hne⟩
  case zero =>
    intro op hop
    constructor
    · rintro rfl
      have hnone : op.value? a 0 = none := by
        simp only [List.mem_cons, List.not_mem_nil, or_false] at hop
        rcases hop with rfl | rfl <;> rfl
      exact fails_multiplicative ha hb hnone
    · intro hfails
      by_contra hne
      -- a divisor other than zero gives a value, and then nothing fails
      have hsome : (op.value? a b).isSome = true := by cases op <;> simp [MulOp.value?, hne]
      obtain ⟨v, hv⟩ := Option.isSome_iff_exists.1 hsome
      have hbinds : Binds (arithmetic (.multiplicative op)) e s v := binds_multiplicative ha hb hv
      rw [Binds, hfails] at hbinds
      cases hbinds
  case comparison => exact binds_comparison ha hb
  case truth =>
    have hvalue : truthValue (a = 0) = if a.toInt = 0 then 1 else 0 := by
      simp [truthValue, ← Int32.toInt_inj]
    have hop : UnaryOp.function? .not = some fun v => truthValue (v = 0) := rfl
    rw [← hvalue]
    exact binds_unary ha hop

/-- The least number divided by `-1`: the one quotient that does not fit is wrapped around, and
nothing fails. -/
theorem integer_operators_exact_at_least_number :
    ∃ p, Program.parse "int main() { return (-2147483647 - 1) / -1; }" = .ok p ∧
      let image := Image.load p {}
      let s := endState ((evaluator image 10).expr ⟨7⟩ (endOfRun image 100))
      (p.expr ⟨7⟩).kind = .binary (.arith (.multiplicative .div)) ⟨4⟩ ⟨6⟩ ∧
        s.stack.top.expr? ⟨4⟩ = some (-2147483648) ∧ s.stack.top.expr? ⟨6⟩ = some (-1) ∧
        ∃ q r, Binds (binary image ⟨7⟩ (.arith (.multiplicative .div)) ⟨4⟩ ⟨6⟩) ⟨7⟩ s q ∧
          Binds (binary image ⟨7⟩ (.arith (.multiplicative .mod)) ⟨4⟩ ⟨6⟩) ⟨7⟩ s r ∧
          DividesTo (-2147483648) (-1) q r := by
  obtain ⟨p, hp, hkind, hlhs, hrhs, ha, hb⟩ : ∃ p,
      Program.parse "int main() { return (-2147483647 - 1) / -1; }" = .ok p ∧
      let image := Image.load p {}
      let s := endState ((evaluator image 10).expr ⟨7⟩ (endOfRun image 100))
      (p.expr ⟨7⟩).kind = .binary (.arith (.multiplicative .div)) ⟨4⟩ ⟨6⟩ ∧
        (image.typeOf ⟨4⟩).isPointer = false ∧ (image.typeOf ⟨6⟩).isPointer = false ∧
        s.stack.top.expr? ⟨4⟩ = some (-2147483648) ∧ s.stack.top.expr? ⟨6⟩ = some (-1) :=
    Program.exists_of_parse (by decide +kernel)
  obtain ⟨_, _, _, _, _, hdivides, _⟩ := integer_operators_exact _ ⟨7⟩ hlhs hrhs ha hb
  exact ⟨p, hp, hkind, ha, hb, hdivides (by decide)⟩

end Run

end MiniC
