import MiniC.Proofs.AssignedTargets
import MiniC.Proofs.Evaluation
import MiniC.Proofs.ValueChanges

/-!
# Accesses to elements of the heap

The element of a pointer at an index is four bytes of the heap. Reading it and assigning to it, as
`p[i]` or as `*(p + i)`, succeed just if these bytes lie in the heap, and otherwise fail and leave
the heap as it is (`Run.element_access_checked`). Where they lie is computed in 32 bits: the address
is the exact one wrapped around, so an element far outside of the heap can turn up inside
(`Run.element_access_wraps`).

Both forms come down to one place of the heap (`Run.exists_located`): the sum of a pointer and a
number, in whatever parentheses, has the address of the element as its value.
-/

set_option autoImplicit false

namespace MiniC

/-! ## Addresses -/

namespace Heap

/-- The address of an element is the exact one, wrapped around. -/
theorem toInt_add_stepSize (start i : Int32) :
    (start + stepSize i).toInt = (start.toInt + 4 * i.toInt).bmod Int32.size := by
  have hsize : elementSize.toInt = 4 := rfl
  rw [stepSize, Int32.toInt_add, Int32.toInt_mul, hsize, Int.add_bmod_bmod, Int.mul_comm]

/-- There is a word at an address if its four bytes lie in the heap. -/
theorem wordStart?_isSome_iff (h : Heap) (address : Int32) :
    (h.wordStart? address).isSome = true ↔ 0 ≤ address.toInt ∧
      address.toInt ≤ (h.capacity : Int) - 4 := by
  rw [wordStart?_eq, Option.isSome_ite]
  omega

end Heap

/-! ## Elements and accesses -/

namespace Program

/-- The expression stands for the element of `base` at `index`: it is `base[index]`, or `*(base +
index)` in whatever parentheses. -/
inductive Locates (p : Program) (base index e : ExprId) : Prop
  | subscript : (p.expr e).kind = .subscript base index → Locates p base index e
  | sum {operand : ExprId} : (p.expr e).kind = .unary .deref operand →
      (p.expr (p.stripParens operand)).kind = .binary (.arith (.additive .add)) base index →
        Locates p base index e

theorem Locates.isPlace {p : Program} {base index e : ExprId} (h : p.Locates base index e) :
    (p.expr e).kind.isPlace = true := by
  cases h with
  | subscript hk => rw [hk, ExprKind.isPlace]
  | sum hk _ => rw [hk, ExprKind.isPlace]

/-- The expression reads the element of `base` at `index` or assigns to it; the list has the right
side of the assignment, the base and the index in the order of their evaluation. -/
inductive Accesses (p : Program) (base index e : ExprId) : List ExprId → Prop
  | read : p.Locates base index e → Accesses p base index e [base, index]
  | write {lhs rhs : ExprId} : (p.expr e).kind = .binary .assign lhs rhs →
      p.Locates base index (p.stripParens lhs) → Accesses p base index e [rhs, base, index]

/-- Whether an expression assigns an array to something whose type is a pointer. -/
def assignsArray (p : Program) (e : ExprId) : Bool :=
  match (p.expr e).kind with
  | .binary .assign lhs rhs => (p.expr lhs).type.isPointer && (p.expr rhs).type.isArray
  | _ => false

/-- An array is what must not be assigned to a pointer. -/
theorem assignsArray_iff {p : Program} {e lhs rhs : ExprId}
    (hk : (p.expr e).kind = .binary .assign lhs rhs) :
    p.assignsArray e = true ↔ (p.expr lhs).type.isPointer = true ∧
      Run.isForbiddenConversion (p.expr lhs).type (p.expr rhs).type = true := by
  unfold assignsArray
  rw [hk, Bool.and_eq_true]
  refine and_congr_right fun hpointer => ?_
  simp [Run.isForbiddenConversion, hpointer, CType.isArray_eq_false_of_isPointer hpointer]

theorem Locates.assignsArray {p : Program} {base index e : ExprId} (h : p.Locates base index e) :
    p.assignsArray e = false := by
  cases h with
  | subscript hk => rw [Program.assignsArray, hk]
  | sum hk _ => rw [Program.assignsArray, hk]

end Program

namespace Run

variable {κ : Type} [Console κ] {image : Image} {base index e : ExprId}
    {start i value : Int32} {s t u : State κ}

/-! ## Sums and parentheses -/

/-- A sum or difference of operands that have values is evaluated by the operator on these values:
where the operator has no value for them, the evaluation fails for the place of the left one. -/
theorem evaluates_additive (ht : image.program.Tree) {op : AddOp} {lhs rhs : ExprId} {l r : Int32}
    (hk : (image.program.expr e).kind = .binary (.arith (.additive op)) lhs rhs)
    (hu : EvaluatesAll image [lhs, rhs] s u) (hl : u.stack.top.expr? lhs = some l)
    (hr : u.stack.top.expr? rhs = some r) :
    let v := turnedTo u (.expr e)
    Evaluates image e s
        (match op.value? (image.typeOf lhs).isPointer (image.typeOf rhs).isPointer l r with
      | some value => .ok () { v with stack := v.stack.modifyTop (·.bindExpr e value) }
      | none =>
        .error
          (.error (.fault (.invalidPointerArithmetic op) (image.program.expr lhs).loc)) v) := by
  intro v
  have hasked : image.program.asked e = [lhs, rhs] := by
    simp [Program.asked, hk, BinaryOp.isAssignment]
  -- the operands have their values wherever the frame works
  have hl' : v.stack.top.expr? lhs = some l := by rw [expr?_turnedTo, hl]
  have hr' : v.stack.top.expr? rhs = some r := by rw [expr?_turnedTo, hr]
  apply Evaluates.of_operands ht (by simp [hasked]) (hasked ▸ hu)
  refine Settles.of_eq fun ev => ?_
  unfold conclude
  rw [hk]
  change arith image e (.additive op) lhs rhs v = _
  rw [arith, bind_apply, valueOf_of_expr? image hl']
  dsimp only
  rw [bind_apply, valueOf_of_expr? image hr']
  dsimp only
  cases op.value? (image.typeOf lhs).isPointer (image.typeOf rhs).isPointer l r <;> rfl

/-- The sum of a pointer and a number is the address of an element. -/
theorem evaluates_sum (ht : image.program.Tree)
    (hk : (image.program.expr e).kind = .binary (.arith (.additive .add)) base index)
    (hbase : (image.typeOf base).isPointer = true) (hindex : (image.typeOf index).isPointer = false)
    (hu : EvaluatesAll image [base, index] s u) (hstart : u.stack.top.expr? base = some start)
    (hi : u.stack.top.expr? index = some i) :
    ∃ t, Evaluates image e s (.ok () t) ∧ t.stack.top.expr? e = some (start + Heap.stepSize i) ∧
      u.SameButValues [e] t := by
  have hsum := evaluates_additive ht hk hu hstart hi
  rw [hbase, hindex] at hsum
  refine ⟨_, hsum, ?_, ?_⟩
  · simp [Frame.expr?_bindExpr]
  · exact (u.sameButValues_focusOn (.expr e)).trans
      (State.sameButValues_bindExpr _ List.mem_cons_self _)

/-- An expression in parentheses has the value of what is in them. -/
theorem evaluates_paren (ht : image.program.Tree) {inner : ExprId}
    (hk : (image.program.expr e).kind = .paren inner)
    (h : Evaluates image inner s (.ok () t)) (hv : t.stack.top.expr? inner = some value) :
    Evaluates image e s (.ok () { t with stack := t.stack.modifyTop (·.bindExpr e value) }) := by
  have hasked : image.program.asked e = [inner] := by simp [Program.asked, hk, ExprKind.operands]
  apply Evaluates.of_operands ht (by simp [hasked]) (hasked ▸ EvaluatesAll.singleton h)
  refine Settles.of_eq fun ev => ?_
  unfold conclude
  rw [hk]
  dsimp only
  rw [bind_apply, valueOf_of_expr? image hv]
  rfl

/-- The evaluation of an expression in parentheses is that of the expression, whose value is handed
on. -/
theorem evaluates_parens (ht : image.program.Tree) (e : ExprId)
    (h : Evaluates image (image.program.stripParens e) s (.ok () t))
    (hv : t.stack.top.expr? (image.program.stripParens e) = some value) :
    ∃ t' nodes, Evaluates image e s (.ok () t') ∧ t'.stack.top.expr? e = some value ∧
      t.SameButValues nodes t' ∧ ∀ c ∈ nodes, image.program.Contains e c := by
  by_cases hparen : ∃ inner, (image.program.expr e).kind = .paren inner
  · obtain ⟨inner, hk⟩ := hparen
    -- what is in the parentheses comes before them
    have hmem : inner ∈ image.program.operands e := Program.mem_operands hk List.mem_cons_self
    have hlt : inner.index < e.index := ht.lt hmem
    rw [ht.stripParens_paren hk] at h hv
    obtain ⟨u, nodes, hinner, hu, hsame, hnodes⟩ := evaluates_parens ht inner h hv
    refine ⟨_, e :: nodes, evaluates_paren ht hk hinner hu, ?_, ?_, ?_⟩
    · simp [Frame.expr?_bindExpr]
    · have hu : u.SameButValues (e :: nodes) _ := u.sameButValues_bindExpr List.mem_cons_self value
      exact (hsame.mono fun c hc => List.mem_cons_of_mem e hc).trans hu
    · intro c hc
      obtain rfl | hc := List.mem_cons.1 hc
      · exact .self c
      · exact .operand hmem (hnodes c hc)
  · have hself := Program.stripParens_eq_self fun inner hk => hparen ⟨inner, hk⟩
    rw [hself] at h hv
    exact ⟨t, [], h, hv, .refl t, by simp⟩
termination_by e.index

/-- The base and the index of an element lead to its place in the heap: what locates it is evaluated
to a state that differs by values of its parts. -/
theorem exists_located (ht : image.program.Tree) (he : image.program.Locates base index e)
    (hbase : (image.typeOf base).isPointer = true) (hindex : (image.typeOf index).isPointer = false)
    (hu : EvaluatesAll image [base, index] s u) (hstart : u.stack.top.expr? base = some start)
    (hi : u.stack.top.expr? index = some i) :
    ∃ u' nodes, EvaluatesAll image (image.program.expr e).kind.locators s u' ∧
      image.place? e u'.stack.top = some (.heap (start + Heap.stepSize i)) ∧
      u.SameButValues nodes u' ∧ ∀ c ∈ nodes, image.program.Contains e c := by
  cases he with
  | subscript hk =>
    refine ⟨u, [], ?_, ?_, .refl u, nofun⟩
    · rw [hk]
      exact hu
    · simp [Image.place?, hk, hstart, hi, hbase]
  | @sum operand hk hsum =>
    have hmem : operand ∈ image.program.operands e := Program.mem_operands hk List.mem_cons_self
    obtain ⟨t, hsum, hvalue, hsum_same⟩ := evaluates_sum ht hsum hbase hindex hu hstart hi
    obtain ⟨u', nodes, hoperand, hvalue', hsame, hnodes⟩ := evaluates_parens ht operand hsum hvalue
    refine ⟨u', image.program.stripParens operand :: nodes, ?_, ?_, ?_, ?_⟩
    · rw [hk]
      exact .singleton hoperand
    · simp [Image.place?, hk, hvalue']
    · exact (hsum_same.mono fun c hc => List.mem_cons.2 (.inl (List.mem_singleton.1 hc))).trans
        (hsame.mono fun c hc => List.mem_cons_of_mem _ hc)
    · intro c hc
      refine .operand hmem ?_
      obtain rfl | hc := List.mem_cons.1 hc
      · exact Program.contains_stripParensWithin _
      · exact hnodes c hc

/-! ## Accesses -/

omit [Console κ] in
theorem locationIn_turnedTo (image : Image) (s : State κ) (e : ExprId) :
    image.locationIn (turnedTo s (.expr e)).stack = (image.program.expr e).loc := by
  unfold Image.locationIn turnedTo
  rw [CallStack.top_modifyTop]
  rfl

/-- The evaluation of an expression uses the word at an address: it has a result if the word is
there, and otherwise fails and leaves the heap as it is. -/
structure Uses (image : Image) (e : ExprId) (address : Int32) (s u : State κ) : Prop where
  result : (u.heap.wordStart? address).isSome = true → ∃ t, Evaluates image e s (.ok () t)
  failure : u.heap.wordStart? address = none → ∃ t, Evaluates image e s
    (.error (.error (.fault (.memory (.invalidHeapAccess address)) (image.program.expr e).loc)) t) ∧
      t.heap = u.heap

/-- What is done with the values of what locates a dereference or an element is to read it. -/
theorem conclude_of_isPlace (h : (image.program.expr e).kind.isPlace = true)
    (ev : Evaluator κ) (u : State κ) :
    conclude image ev e u = readTarget image e (turnedTo u (.expr e)) := by
  unfold ExprKind.isPlace at h
  split at h
  · next operand hk =>
    rw [conclude, readTarget, hk]
    rfl
  · next base index hk =>
    rw [conclude, readTarget, hk]
    rfl
  · cases h

/-- A dereference or an element is evaluated by evaluating what locates it, and then read. -/
theorem evaluates_place (ht : image.program.Tree) (he : (image.program.expr e).kind.isPlace = true)
    (h : EvaluatesAll image (image.program.expr e).kind.locators s u) :
    Evaluates image e s (readTarget image e (turnedTo u (.expr e))) := by
  obtain ⟨hasked, hsome⟩ := Program.asked_of_isPlace he
  exact Evaluates.of_operands ht (hasked ▸ hsome) (hasked ▸ h) (.of_eq fun ev =>
    conclude_of_isPlace he ev u)

/-- To read an element is to read its word once the operands have values. -/
theorem evaluates_read (ht : image.program.Tree) (he : image.program.Locates base index e)
    (hbase : (image.typeOf base).isPointer = true) (hindex : (image.typeOf index).isPointer = false)
    (hu : EvaluatesAll image [base, index] s u) (hstart : u.stack.top.expr? base = some start)
    (hi : u.stack.top.expr? index = some i) :
    ∃ v : State κ, v.heap = u.heap ∧
      Evaluates image e s (match u.heap.read (start + Heap.stepSize i) with
      | .ok word => .ok () { v with stack := v.stack.modifyTop (·.bindExpr e word) }
      | .error fault => .error (.error (.fault (.memory fault) (image.program.expr e).loc)) v) := by
  obtain ⟨u', nodes, hlocators, hplace, hsame, -⟩ := exists_located ht he hbase hindex hu hstart hi
  let v := turnedTo u' (.expr e)
  have hheap : v.heap = u.heap := hsame.heap
  have hplace' : image.place? e v.stack.top = some (.heap (start + Heap.stepSize i)) := by
    rw [place?_congr fun c _ => expr?_turnedTo u' (.expr e) c, hplace]
  have hevaluates := evaluates_place ht he.isPlace hlocators
  rw [readTarget_of_place hplace', bind_apply, load_apply, Place.answer, hheap,
    locationIn_turnedTo] at hevaluates
  refine ⟨v, hheap, ?_⟩
  cases hread : u.heap.read (start + Heap.stepSize i) with
  | ok word =>
    rw [hread] at hevaluates
    exact hevaluates
  | error fault =>
    rw [hread] at hevaluates
    exact hevaluates

/-- To read an element is to use its word. -/
theorem uses_of_read (ht : image.program.Tree) (he : image.program.Locates base index e)
    (hbase : (image.typeOf base).isPointer = true) (hindex : (image.typeOf index).isPointer = false)
    (hu : EvaluatesAll image [base, index] s u) (hstart : u.stack.top.expr? base = some start)
    (hi : u.stack.top.expr? index = some i) : Uses image e (start + Heap.stepSize i) s u := by
  obtain ⟨v, hheap, hevaluates⟩ := evaluates_read ht he hbase hindex hu hstart hi
  constructor
  · intro hword
    obtain ⟨a, ha⟩ := Option.isSome_iff_exists.1 hword
    rw [Heap.read_of_wordStart? ha] at hevaluates
    exact ⟨_, hevaluates⟩
  · intro hword
    rw [Heap.read_of_wordStart?_none hword] at hevaluates
    exact ⟨v, hevaluates, hheap⟩

section Write

variable {lhs rhs : ExprId}

/-- An assignment is evaluated by evaluating its right side and what locates its target, and then
carried out. -/
theorem evaluates_assign (ht : image.program.Tree)
    (hk : (image.program.expr e).kind = .binary .assign lhs rhs)
    (h : EvaluatesAll image
      (rhs :: (image.program.expr (image.program.stripParens lhs)).kind.locators) s u) :
    Evaluates image e s (assign image e lhs rhs (turnedTo u (.expr e))) := by
  have hasked := Program.asked_of_assign hk
  apply Evaluates.of_operands ht (by simp [hasked]) (hasked ▸ h)
  refine Settles.of_eq fun ev => ?_
  rw [conclude, hk]
  rfl

variable (ht : image.program.Tree) (hk : (image.program.expr e).kind = .binary .assign lhs rhs)
  (he : image.program.Locates base index (image.program.stripParens lhs))
  (hbase : (image.typeOf base).isPointer = true) (hindex : (image.typeOf index).isPointer = false)
  (hu : EvaluatesAll image [rhs, base, index] s u)
  (hstart : u.stack.top.expr? base = some start) (hi : u.stack.top.expr? index = some i)
include ht hk he hbase hindex hu hstart hi

/-- To assign to an element what may go there is to write its word once the operands have values. -/
theorem evaluates_write (hallowed : ¬ ((image.typeOf lhs).isPointer = true ∧
      isForbiddenConversion (image.typeOf lhs) (image.typeOf rhs) = true))
    (hvalue : u.stack.top.expr? rhs = some value) :
    ∃ v : State κ, v.heap = u.heap ∧ v.stack.top.expr? e = some value ∧
      Evaluates image e s (match u.heap.write (start + Heap.stepSize i) value with
        | .ok heap => .ok () { v with heap }
        | .error fault =>
          .error (.error (.fault (.memory fault) (image.program.expr e).loc)) v) := by
  obtain ⟨s', hrhs, hu'⟩ := hu.of_cons
  obtain ⟨u', nodes, hlocators, hplace, hsame, hnodes⟩ :=
    exists_located ht he hbase hindex hu' hstart hi
  -- what locates the target lies inside it, so the right side keeps its value
  have hvalue' : u'.stack.top.expr? rhs = some value := by
    rw [hsame.top.exprs rhs, hvalue]
    intro hrhs
    exact ht.not_contains_right hk ((Program.contains_stripParensWithin _).trans (hnodes rhs hrhs))
  let v := assigning (turnedTo u' (.expr e)) e lhs value
  have hheap : v.heap = u.heap := hsame.heap
  -- the assignment first gives values to its target's node and to its own, neither of which locates
  -- the target
  have hplace' : image.place? (image.program.stripParens lhs) v.stack.top =
      some (.heap (start + Heap.stepSize i)) := by
    rw [place?_congr, hplace]
    intro c hc
    have hne := ht.ne_of_asked hk (c := c) (by simp [Program.asked_of_assign hk, hc])
    rw [expr?_assigning hne.1 hne.2, expr?_turnedTo]
  have hevaluates := evaluates_assign ht hk (.cons hrhs hlocators)
  rw [assign_apply hallowed ((expr?_turnedTo u' (.expr e) rhs).trans hvalue'),
    assignTarget_of_place hplace', store_apply, Place.put, hheap, locationIn_assigning,
    locationIn_turnedTo] at hevaluates
  refine ⟨v, hheap, by simp [v, assigning, Frame.expr?_bindExpr], ?_⟩
  cases hwrite : u.heap.write (start + Heap.stepSize i) value with
  | ok heap =>
    rw [hwrite] at hevaluates
    exact hevaluates
  | error fault =>
    rw [hwrite] at hevaluates
    exact hevaluates

/-- To assign to an element what may go there is to use its word. -/
theorem uses_of_write (hallowed : ¬ ((image.typeOf lhs).isPointer = true ∧
      isForbiddenConversion (image.typeOf lhs) (image.typeOf rhs) = true))
    (hvalue : u.stack.top.expr? rhs = some value) : Uses image e (start + Heap.stepSize i) s u := by
  obtain ⟨v, hheap, -, hevaluates⟩ :=
    evaluates_write ht hk he hbase hindex hu hstart hi hallowed hvalue
  constructor
  · intro hword
    obtain ⟨a, ha⟩ := Option.isSome_iff_exists.1 hword
    obtain ⟨heap, hwrite, -⟩ := Heap.write_of_wordStart? ha value
    rw [hwrite] at hevaluates
    exact ⟨_, hevaluates⟩
  · intro hword
    rw [Heap.write_of_wordStart?_none hword] at hevaluates
    exact ⟨v, hevaluates, hheap⟩

/-- What must not be assigned to a pointer is not assigned to an element, wherever this lies. -/
theorem evaluates_rejected_write (hpointer : (image.typeOf lhs).isPointer = true)
    (hforbidden : isForbiddenConversion (image.typeOf lhs) (image.typeOf rhs) = true) :
    ∃ t, Evaluates image e s
      (.error (.error (.fault (.arrayConversion (image.typeOf lhs) (image.typeOf rhs))
      (image.program.expr rhs).loc)) t) ∧ t.heap = u.heap := by
  obtain ⟨s', hrhs, hu'⟩ := hu.of_cons
  obtain ⟨u', nodes, hlocators, -, hsame, -⟩ := exists_located ht he hbase hindex hu' hstart hi
  have hevaluates := evaluates_assign ht hk (.cons hrhs hlocators)
  rw [assign_eq_fault hpointer hforbidden] at hevaluates
  exact ⟨turnedTo u' (.expr e), hevaluates, hsame.heap⟩

end Write

/-- Accesses to elements are checked after the address was computed in 32 bits. Let the operands of
an access to the element of a pointer at an index have values. Unless the access assigns an array to
a pointer, it has a result just if the address of the element, wrapped around, is that of four bytes
in the heap, and otherwise it fails as an access to this address, with the heap as it was. An
address that fits into 32 bits is the exact one. An access that assigns an array to a pointer fails
for that reason, with the heap as it was. -/
theorem element_access_checked {source : String} {p : Program}
    (h : Program.parse source = .ok p) (config : Config)
    {operands : List ExprId} (he : p.Accesses base index e operands)
    (hbase : (p.expr base).type.isPointer = true) (hindex : (p.expr index).type.isPointer = false)
    (hu : EvaluatesAll (Image.load p config) operands s u)
    (hbound : ∀ c ∈ operands, (u.stack.top.expr? c).isSome)
    (hstart : u.stack.top.expr? base = some start) (hi : u.stack.top.expr? index = some i) :
    let image := Image.load p config
    let exact := start.toInt + 4 * i.toInt
    let address := exact.bmod Int32.size
    let inside := 0 ≤ address ∧ address ≤ (u.heap.capacity : Int) - 4
    (Int32.minValue.toInt ≤ exact → exact ≤ Int32.maxValue.toInt → address = exact) ∧
    (p.assignsArray e = false →
      ((∃ t, Evaluates image e s (.ok () t)) ↔ inside) ∧
      (¬ inside → ∃ t, Evaluates image e s (.error (.error
        (.fault (.memory (.invalidHeapAccess (Int32.ofInt address))) (p.expr e).loc)) t) ∧
          t.heap = u.heap)) ∧
    (p.assignsArray e = true →
      ∃ expected found loc t, Evaluates image e s (.error (.error
        (.fault (.arrayConversion expected found) loc)) t) ∧ t.heap = u.heap) := by
  intro image exact address inside
  have htree : image.program.Tree := (Program.resolved_of_parse h).wellFormed.tree
  have haddress : (start + Heap.stepSize i).toInt = address := Heap.toInt_add_stepSize start i
  have hofInt : Int32.ofInt address = start + Heap.stepSize i := by
    rw [← haddress, Int32.ofInt_toInt]
  refine ⟨fun hlow hhigh => ?_, fun hplain => ?_, fun harray => ?_⟩
  · rw [Int32.toInt_minValue] at hlow
    rw [Int32.toInt_maxValue] at hhigh
    have hsize : Int32.size = 4294967296 := rfl
    exact Int.bmod_eq_of_le (by omega) (by omega)
  · have huses : Uses image e (start + Heap.stepSize i) s u := by
      cases he with
      | read hlocates => exact uses_of_read htree hlocates hbase hindex hu hstart hi
      | @write lhs rhs hk hlocates =>
        obtain ⟨value, hvalue⟩ := Option.isSome_iff_exists.1 (hbound rhs (by simp))
        refine uses_of_write htree hk hlocates hbase hindex hu hstart hi
          (fun hrejected => ?_) hvalue
        rw [(Program.assignsArray_iff hk).2 hrejected] at hplain
        cases hplain
    have hword : (u.heap.wordStart? (start + Heap.stepSize i)).isSome = true ↔ inside := by
      rw [Heap.wordStart?_isSome_iff, haddress]
    have hfailure (houtside : ¬ inside) :=
      huses.failure (Option.not_isSome_iff_eq_none.1 (mt hword.1 houtside))
    rw [hofInt]
    refine ⟨⟨?_, fun hinside => huses.result (hword.2 hinside)⟩, hfailure⟩
    -- an evaluation that has a result does not fail
    rintro ⟨t, ht⟩
    by_contra houtside
    obtain ⟨t', hfails, -⟩ := hfailure houtside
    cases ht.unique hfails
  · cases he with
    | read hlocates =>
      rw [hlocates.assignsArray] at harray
      cases harray
    | write hk hlocates =>
      obtain ⟨hpointer, hforbidden⟩ := (Program.assignsArray_iff hk).1 harray
      obtain ⟨t, hrejected, hheap⟩ :=
        evaluates_rejected_write htree hk hlocates hbase hindex hu hstart hi hpointer hforbidden
      exact ⟨_, _, _, t, hrejected, hheap⟩

/-- The word after the last one of the heap is not assigned to. -/
theorem element_access_checked_at_end :
    ∃ p, Program.parse "int main() { int *p = 4092; *((p + 1)) = 7; return 0; }" = .ok p ∧
      ∃ t, Evaluates (Image.load p {}) ⟨8⟩ (endOfRun (Image.load p {}) 100)
        (.error (.error (.fault (.memory (.invalidHeapAccess 4096)) (p.expr ⟨8⟩).loc)) t) := by
  obtain ⟨p, hp, hwrite, htarget, hsum, hbase, hindex, hplain, hresult, hbound, hstart,
    hi, hcapacity⟩ : ∃ p,
      Program.parse "int main() { int *p = 4092; *((p + 1)) = 7; return 0; }" = .ok p ∧
      let r :=
        [⟨7⟩, ⟨1⟩, ⟨2⟩].forM (evaluator (Image.load p {}) 10).expr (endOfRun (Image.load p {}) 100);
      (p.expr ⟨8⟩).kind = .binary .assign ⟨6⟩ ⟨7⟩ ∧
        (p.expr (p.stripParens ⟨6⟩)).kind = .unary .deref ⟨5⟩ ∧
        (p.expr (p.stripParens ⟨5⟩)).kind = .binary (.arith (.additive .add)) ⟨1⟩ ⟨2⟩ ∧
        (p.expr ⟨1⟩).type.isPointer = true ∧ (p.expr ⟨2⟩).type.isPointer = false ∧
        p.assignsArray ⟨8⟩ = false ∧ result? r = some () ∧
        (∀ c ∈ [ExprId.mk 7, ⟨1⟩, ⟨2⟩], ((endState r).stack.top.expr? c).isSome) ∧
        (endState r).stack.top.expr? ⟨1⟩ = some 4092 ∧ (endState r).stack.top.expr? ⟨2⟩ = some 1 ∧
        (endState r).heap.capacity = 4096 := Program.exists_of_parse (by decide +kernel)
  have hchecked := (element_access_checked hp {} (.write hwrite (.sum htarget hsum)) hbase hindex
    (.of_result? hresult) hbound hstart hi).2.1 hplain
  rw [hcapacity] at hchecked
  obtain ⟨t, hfails, -⟩ := hchecked.2 (by decide)
  exact ⟨p, hp, t, hfails⟩

/-- An element that lies outside of the heap is read, because its address wraps around into the
heap, and an array that is assigned to an element outside of the heap is rejected as an array. -/
theorem element_access_wraps :
    (∃ p, Program.parse "int *p = 0; int main() { return p[1073741824]; }" = .ok p ∧
      let image := Image.load p {}
      let s := endOfRun image 100
      p.Accesses ⟨1⟩ ⟨2⟩ ⟨3⟩ [⟨1⟩, ⟨2⟩] ∧ (p.expr ⟨1⟩).type.isPointer = true ∧
        (p.expr ⟨2⟩).type.isPointer = false ∧
      ∃ u start i, EvaluatesAll image [⟨1⟩, ⟨2⟩] s u ∧
        u.stack.top.expr? ⟨1⟩ = some start ∧ u.stack.top.expr? ⟨2⟩ = some i ∧
        (u.heap.capacity : Int) - 4 < start.toInt + 4 * i.toInt ∧
          ∃ t, Evaluates image ⟨3⟩ s (.ok () t)) ∧
    ∃ p, Program.parse "int main() { int **p = 0; int a[2]; p[5000] = a; return 0; }" = .ok p ∧
      let image := Image.load p {}
      let s := endOfRun image 100
      p.Accesses ⟨1⟩ ⟨2⟩ ⟨5⟩ [⟨4⟩, ⟨1⟩, ⟨2⟩] ∧ (p.expr ⟨1⟩).type.isPointer = true ∧
      (p.expr ⟨2⟩).type.isPointer = false ∧
      ∃ u start i, EvaluatesAll image [⟨4⟩, ⟨1⟩, ⟨2⟩] s u ∧
        u.stack.top.expr? ⟨1⟩ = some start ∧ u.stack.top.expr? ⟨2⟩ = some i ∧
        (u.heap.capacity : Int) - 4 < start.toInt + 4 * i.toInt ∧
        ∃ expected found loc t,
          Evaluates image ⟨5⟩ s
            (.error (.error (.fault (.arrayConversion expected found) loc)) t) := by
  constructor
  · obtain ⟨p, hp, hread, hbase, hindex, hresult, hstart, hi, houtside, hread'⟩ : ∃ p,
        Program.parse "int *p = 0; int main() { return p[1073741824]; }" = .ok p ∧
        let s := endOfRun (Image.load p {}) 100;
        let r := [⟨1⟩, ⟨2⟩].forM (evaluator (Image.load p {}) 10).expr s;
        (p.expr ⟨3⟩).kind = .subscript ⟨1⟩ ⟨2⟩ ∧ (p.expr ⟨1⟩).type.isPointer = true ∧
          (p.expr ⟨2⟩).type.isPointer = false ∧ result? r = some () ∧
          (endState r).stack.top.expr? ⟨1⟩ = some 0 ∧
            (endState r).stack.top.expr? ⟨2⟩ = some 1073741824 ∧
          ((endState r).heap.capacity : Int) - 4 < (0 : Int32).toInt + 4 *
            (1073741824 : Int32).toInt ∧
          result? ((evaluator (Image.load p {}) 10).expr ⟨3⟩ s) = some () :=
      Program.exists_of_parse (by decide +kernel)
    obtain ⟨t, ht⟩ := exists_of_result? hread'
    exact ⟨p, hp, .read (.subscript hread), hbase, hindex, _, 0, 1073741824, .of_result? hresult,
      hstart, hi, houtside, t, .of_evaluator ht⟩
  · obtain ⟨p, hp, hwrite, htarget, hbase, hindex, hresult, hstart, hi, houtside, hhalt⟩ : ∃ p,
        Program.parse "int main() { int **p = 0; int a[2]; p[5000] = a; return 0; }" = .ok p ∧
        let s := endOfRun (Image.load p {}) 100;
        let r := [⟨4⟩, ⟨1⟩, ⟨2⟩].forM (evaluator (Image.load p {}) 10).expr s;
        (p.expr ⟨5⟩).kind = .binary .assign ⟨3⟩ ⟨4⟩ ∧
          (p.expr (p.stripParens ⟨3⟩)).kind = .subscript ⟨1⟩ ⟨2⟩ ∧
          (p.expr ⟨1⟩).type.isPointer = true ∧ (p.expr ⟨2⟩).type.isPointer = false ∧
            result? r = some () ∧
          (endState r).stack.top.expr? ⟨1⟩ = some 0 ∧ (endState r).stack.top.expr? ⟨2⟩ = some 5000 ∧
          ((endState r).heap.capacity : Int) - 4 < (0 : Int32).toInt + 4 * (5000 : Int32).toInt ∧
          halt? ((evaluator (Image.load p {}) 10).expr ⟨5⟩ s) =
            some (.error (.fault (.arrayConversion (p.expr ⟨3⟩).type (p.expr ⟨4⟩).type)
              (p.expr ⟨4⟩).loc)) :=
      Program.exists_of_parse (by decide +kernel)
    obtain ⟨t, ht⟩ := exists_of_halt? hhalt
    exact ⟨p, hp, .write hwrite (.subscript htarget), hbase, hindex, _, 0, 5000,
      .of_result? hresult, hstart, hi, houtside, _, _, _, t, .of_halt? ht nofun⟩

end Run

end MiniC
