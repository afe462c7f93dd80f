import MiniC.Proofs.DeclaredTypes
import MiniC.Proofs.Fuel
import MiniC.Proofs.OperationContract
import MiniC.Proofs.ProgramStructure
import MiniC.Proofs.StoredValues

/-!
# Assignments write where reading reads

A variable, what a pointer points to and an element are read and assigned to by different
operations, which choose by the form of the target and by the type of its base. They mean the same
place (`Run.assigned_where_read`): after an assignment that reported nothing the target reads as the
value that was assigned, and a dereference or an element can be assigned to unless it cannot be
read, and then fails in the same way.

The place of a dereference or an element is a function of the values of the parts that locate it
(`Image.place?`), which an assignment leaves alone, since they lie inside its target.
-/

set_option autoImplicit false

namespace MiniC

open Run (Place)

/-! ## Parts that locate a target -/

/-- Whether an expression stands for something outside the frames: what a pointer points to, or an
element. -/
def ExprKind.isPlace : ExprKind → Bool
  | .unary .deref _ => true
  | .subscript .. => true
  | _ => false

theorem ExprKind.mem_operands_of_mem_locators {kind : ExprKind} {c : ExprId}
    (h : c ∈ kind.locators) :
    c ∈ kind.operands := by
  unfold locators at h
  split at h
  · exact h
  · exact h
  · cases h

/-- What locates the target of an assignment lies inside it. -/
theorem Program.Tree.locator_lt {p : Program} (ht : p.Tree) {lhs c : ExprId}
    (h : c ∈ (p.expr (p.stripParens lhs)).kind.locators) : c.index < lhs.index :=
  Nat.lt_of_lt_of_le (ht.lt (ExprKind.mem_operands_of_mem_locators h))
    (ht.stripParensWithin_index_le _)

section Operands

variable {p : Program} {e lhs rhs c : ExprId}

/-- An assignment asks for its right side and for what locates its target. -/
theorem Program.asked_of_assign (hk : (p.expr e).kind = .binary .assign lhs rhs) :
    p.asked e = rhs :: (p.expr (p.stripParens lhs)).kind.locators := by
  simp [asked, hk, BinaryOp.isAssignment]

/-- A dereference or an element asks for what locates it, which there is. -/
theorem Program.asked_of_isPlace (h : (p.expr e).kind.isPlace = true) :
    p.asked e = (p.expr e).kind.locators ∧ (p.expr e).kind.locators ≠ [] := by
  unfold ExprKind.isPlace at h
  split at h
  · next operand hk => simp [asked, hk, ExprKind.operands, ExprKind.locators]
  · next base index hk => simp [asked, hk, ExprKind.operands, ExprKind.locators]
  · cases h

/-- The right operand does not lie inside the left one. -/
theorem Program.Tree.not_contains_right (ht : p.Tree) {op : BinaryOp}
    (hk : (p.expr e).kind = .binary op lhs rhs) : ¬ p.Contains lhs rhs := by
  have hoperands : p.operands e = [lhs, rhs] := by rw [operands, hk, ExprKind.operands]
  have hnodup := ht.nodup e
  rw [hoperands] at hnodup
  exact ht.not_contains_sibling (e := e) (by simp [hoperands]) (by simp [hoperands])
    (by simpa using hnodup)

/-- What an assignment asks for is neither its target nor itself. -/
theorem Program.Tree.ne_of_asked (ht : p.Tree) (hk : (p.expr e).kind = .binary .assign lhs rhs)
    (h : c ∈ p.asked e) : c ≠ lhs ∧ c ≠ e := by
  have hoperands : p.operands e = [lhs, rhs] := by rw [operands, hk, ExprKind.operands]
  have hlhs : lhs.index < e.index := ht.lt (by simp [hoperands])
  have hrhs : rhs.index < e.index := ht.lt (by simp [hoperands])
  rw [asked_of_assign hk, List.mem_cons] at h
  obtain rfl | h := h
  · constructor
    · rintro rfl
      exact ht.not_contains_right hk (.self c)
    · rintro rfl
      exact Nat.lt_irrefl _ hrhs
  · have hlt := ht.locator_lt h
    constructor
    · rintro rfl
      exact Nat.lt_irrefl _ hlt
    · rintro rfl
      exact Nat.lt_asymm hlt hlhs

end Operands

/-- The place that a dereference or an element stands for, where the parts that locate it have
values. -/
def Image.place? (image : Image) (target : ExprId) (frame : Frame) : Option Place :=
  match (image.program.expr target).kind with
  | .unary .deref operand => (frame.expr? operand).map .heap
  | .subscript base index =>
    (frame.expr? base).bind fun start => (frame.expr? index).map fun i =>
      if (image.typeOf base).isPointer then .heap (start + Heap.stepSize i) else .array start i
  | _ => none

namespace Run

variable {κ : Type} [Console κ] {image : Image} {e target : ExprId} {place : Place}
    {value : Int32} {s t : State κ}

/-- Reads what a target stands for, when the parts that locate it have values. -/
def readTarget (image : Image) (target : ExprId) : Run κ Unit :=
  match (image.program.expr target).kind with
  | .declRef d => reference image target d
  | .unary op operand => unary image target op operand
  | .subscript base index => subscript image target base index
  | _ => return ()

/-! ## Places -/

omit [Console κ] in
theorem exists_place (hplace : (image.program.expr target).kind.isPlace = true)
    (hbound : ∀ c ∈ (image.program.expr target).kind.locators, (s.stack.top.expr? c).isSome) :
    ∃ place, image.place? target s.stack.top = some place := by
  unfold Image.place?
  unfold ExprKind.isPlace at hplace
  split at hplace
  · next operand hk =>
    rw [hk] at hbound
    obtain ⟨address, haddress⟩ :=
      Option.isSome_iff_exists.1 (hbound operand (by simp [ExprKind.locators]))
    exact ⟨.heap address, by simp [haddress]⟩
  · next base index hk =>
    rw [hk] at hbound
    obtain ⟨start, hstart⟩ := Option.isSome_iff_exists.1 (hbound base (by simp [ExprKind.locators]))
    obtain ⟨i, hi⟩ := Option.isSome_iff_exists.1 (hbound index (by simp [ExprKind.locators]))
    exact ⟨_, by simp [hstart, hi]; rfl⟩
  · cases hplace

omit [Console κ] in
/-- The place depends on the values of the parts that locate it alone. -/
theorem place?_congr {f g : Frame}
    (h : ∀ c ∈ (image.program.expr target).kind.locators, g.expr? c = f.expr? c) :
    image.place? target g = image.place? target f := by
  unfold Image.place?
  split
  · next operand hk =>
    rw [hk] at h
    rw [h operand (by simp [ExprKind.locators])]
  · next base index hk =>
    rw [hk] at h
    rw [h base (by simp [ExprKind.locators]), h index (by simp [ExprKind.locators])]
  · rfl

/-- Reading a dereference or an element gives it the value at its place. -/
theorem readTarget_of_place (h : image.place? target s.stack.top = some place) :
    readTarget image target s = (load image place >>= fun value => bindExpr target value) s := by
  unfold Image.place? at h
  unfold readTarget
  split at h
  · next operand hk =>
    obtain ⟨address, haddress, rfl⟩ := Option.map_eq_some_iff.1 h
    rw [hk]
    change (valueOf image operand >>= fun address =>
      load image (.heap address) >>= fun value => _) s = _
    rw [bind_apply, valueOf_of_expr? image haddress]
  · next base index hk =>
    obtain ⟨start, hstart, hindex⟩ := Option.bind_eq_some_iff.1 h
    obtain ⟨i, hi, rfl⟩ := Option.map_eq_some_iff.1 hindex
    rw [hk]
    dsimp only
    rw [subscript, elementPlace]
    simp only [bind_assoc, pure_bind]
    rw [bind_apply, valueOf_of_expr? image hstart]
    dsimp only
    rw [bind_apply, valueOf_of_expr? image hi]
  · cases h

/-- Assigning to a dereference or an element stores the value at its place. -/
theorem assignTarget_of_place (h : image.place? target s.stack.top = some place) :
    assignTarget image e target value s = store image place value s := by
  unfold Image.place? at h
  unfold assignTarget
  split at h
  · next operand hk =>
    obtain ⟨address, haddress, rfl⟩ := Option.map_eq_some_iff.1 h
    rw [hk]
    dsimp only
    rw [bind_apply, valueOf_of_expr? image haddress]
  · next base index hk =>
    obtain ⟨start, hstart, hindex⟩ := Option.bind_eq_some_iff.1 h
    obtain ⟨i, hi, rfl⟩ := Option.map_eq_some_iff.1 hindex
    rw [hk]
    dsimp only
    rw [elementPlace]
    simp only [bind_assoc, pure_bind]
    rw [bind_apply, valueOf_of_expr? image hstart]
    dsimp only
    rw [bind_apply, valueOf_of_expr? image hi]
  · cases h

/-! ## Variables -/

/-- A variable that was assigned to is read with the new value. -/
theorem readTarget_of_assignDecl {d : DeclId} {type : CType} {init : Option ExprId}
    {storage : Storage} (hk : (image.program.expr target).kind = .declRef d)
    (hd : (image.program.decl d).kind = .variable type init storage)
    (htype : type.isInteger = true ∨ type.isPointer = true) (h : assignDecl d value s = .ok () t) :
    readTarget image target t = .ok
      () { t with stack := t.stack.modifyTop (·.bindExpr target value) } := by
  -- the value is in the frame that is read first, or in that of the file where the first has none
  have hvalue : (t.stack.top.decl? d).or (t.stack.global.decl? d) = some value := by
    cases h
    dsimp only
    split
    · rw [CallStack.top_modifyTop, Frame.decl?_bindDecl, if_pos rfl, Option.some_or]
    · next hheld =>
      have hglobal : ((s.stack.modifyGlobal (·.bindDecl d value)).global.decl? d) = some value := by
        change (s.stack.global.bindDecl d value).decl? d = _
        rw [Frame.decl?_bindDecl, if_pos rfl]
      by_cases hcalls : s.stack.calls = []
      · have htop : (s.stack.modifyGlobal (·.bindDecl d value)).top =
            (s.stack.modifyGlobal (·.bindDecl d value)).global :=
              CallStack.top_of_calls_eq_nil hcalls
        rw [htop, hglobal, Option.some_or]
      · rw [CallStack.top_modifyGlobal hcalls, hglobal,
          Option.not_isSome_iff_eq_none.1 hheld, Option.none_or]
  have hreadable : (type.isInteger || type.isPointer || type.isArray) = true := by
    rcases htype with htype | htype <;> simp [htype]
  unfold readTarget reference
  rw [hk]
  dsimp only
  rw [hd]
  dsimp only
  rw [if_pos hreadable, bind_apply, valueOfDecl_of_some image hvalue]
  rfl

omit [Console κ] in
/-- Assigning to a variable changes the value of no expression. -/
theorem expr?_of_assignDecl {d : DeclId} (h : assignDecl d value s = .ok () t) (c : ExprId) :
    t.stack.top.expr? c = s.stack.top.expr? c := by
  cases h
  dsimp only
  split
  · rw [CallStack.top_modifyTop, Frame.expr?_bindDecl]
  · by_cases hcalls : s.stack.calls = []
    · have htop : (s.stack.modifyGlobal (·.bindDecl d value)).top =
          s.stack.global.bindDecl d value :=
        CallStack.top_of_calls_eq_nil hcalls
      rw [htop, Frame.expr?_bindDecl, CallStack.top_of_calls_eq_nil hcalls]
    · rw [CallStack.top_modifyGlobal hcalls]

/-- A report is kept. -/
theorem diagnostics_of_report {construct : Unsupported}
    (h : report image e construct s = .ok () t) :
    t.diagnostics ≠ s.diagnostics := by
  unfold report at h
  split at h
  · cases h
  · cases h
    intro hsame
    have hsize := congrArg Array.size hsame
    simp at hsize

/-! ## Assignments -/

/-- The state in which the target of an assignment is looked at: its node and the assignment have
the value. -/
def assigning (s : State κ) (e lhs : ExprId) (value : Int32) : State κ :=
  { s with stack := (s.stack.modifyTop (·.bindExpr lhs value)).modifyTop (·.bindExpr e value) }

section Assigning

variable {lhs rhs c : ExprId}

omit [Console κ] in
theorem expr?_assigning (hlhs : c ≠ lhs) (he : c ≠ e) (value : Int32) :
    (assigning s e lhs value).stack.top.expr? c = s.stack.top.expr? c := by
  simp [assigning, Frame.expr?_bindExpr, hlhs, he]

omit [Console κ] in
theorem locationIn_assigning (image : Image) (s : State κ) (e lhs : ExprId) (value : Int32) :
    image.locationIn (assigning s e lhs value).stack = image.locationIn s.stack := by
  unfold Image.locationIn assigning
  simp only [CallStack.top_modifyTop]
  rfl

/-- An assignment whose right side has a value that may go there puts it where the target lies. -/
theorem assign_apply (hallowed : ¬ ((image.typeOf lhs).isPointer = true ∧
      isForbiddenConversion (image.typeOf lhs) (image.typeOf rhs) = true))
    (hvalue : s.stack.top.expr? rhs = some value) :
    assign image e lhs rhs s =
      assignTarget image e (image.program.stripParens lhs) value (assigning s e lhs value) := by
  rw [assign_eq_of_allowed hallowed, bind_apply, valueOf_of_expr? image hvalue]
  rfl

end Assigning

/-- Reading a place that was stored to gives the stored value. -/
theorem readTarget_of_store (hplace : image.place? target s.stack.top = some place)
    (h : store image place value s = .ok () t) :
    t.stack = s.stack ∧
      readTarget image target t = .ok
        () { t with stack := t.stack.modifyTop (·.bindExpr target value) } := by
  rw [store_apply] at h
  cases hput : place.put value s with
  | error fault =>
    rw [hput] at h
    cases h
  | ok t' =>
    rw [hput] at h
    cases h
    have hstack := Place.stack_of_put hput
    refine ⟨hstack, ?_⟩
    have hplace' : image.place? target t.stack.top = some place := by rw [hstack, hplace]
    rw [readTarget_of_place hplace', bind_apply, load_apply, Place.answer_of_put hput]
    rfl

/-- Where an assignment reports nothing its target is read with the new value. -/
theorem readTarget_of_assignTarget
    (htypes : ∀ {d : DeclId} {type : CType} {init : Option ExprId} {storage : Storage},
      (image.program.decl d).kind = .variable type init storage →
        type.isInteger = true ∨ type.isPointer = true ∨ type.isArray = true)
    (hplaces : (image.program.expr target).kind.isPlace = true →
      ∃ place, image.place? target s.stack.top = some place)
    (h : assignTarget image e target value s = .ok () t) (hsilent : t.diagnostics = s.diagnostics) :
    (∀ c, t.stack.top.expr? c = s.stack.top.expr? c) ∧
      readTarget image target t = .ok
        () { t with stack := t.stack.modifyTop (·.bindExpr target value) } := by
  -- a target in the heap or in an array
  have hstored (hplace : (image.program.expr target).kind.isPlace = true) :
      (∀ c, t.stack.top.expr? c = s.stack.top.expr? c) ∧
        readTarget image target t =
          .ok () { t with stack := t.stack.modifyTop (·.bindExpr target value) } := by
    obtain ⟨place, hfound⟩ := hplaces hplace
    rw [assignTarget_of_place hfound] at h
    obtain ⟨hstack, hread⟩ := readTarget_of_store hfound h
    exact ⟨fun c => by rw [hstack], hread⟩
  have hreported {construct : Unsupported} (hreport : report image e construct s = .ok () t) :
      False :=
    diagnostics_of_report hreport hsilent
  cases hk : (image.program.expr target).kind with
  | declRef d =>
    unfold assignTarget at h
    rw [hk] at h
    dsimp only at h
    cases hd : (image.program.decl d).kind with
    | function _ _ _ =>
      rw [hd] at h
      exact (hreported h).elim
    | «variable» type init storage =>
      rw [hd] at h
      dsimp only at h
      split at h
      · exact (hreported h).elim
      · next harray =>
        have htype : type.isInteger = true ∨ type.isPointer = true := by
          simpa [Bool.eq_false_iff.2 harray] using htypes hd
        exact ⟨expr?_of_assignDecl h, readTarget_of_assignDecl hk hd htype h⟩
  | subscript base index => exact hstored (by rw [hk]; rfl)
  | unary op operand =>
    cases op with
    | deref => exact hstored (by rw [hk]; rfl)
    | neg | plus | not | bitNot | preInc | preDec | postInc | postDec | addressOf =>
      unfold assignTarget at h
      rw [hk] at h
      exact (hreported h).elim
  | intLiteral _ | binary _ _ _ | call _ _ | cast _ | paren _ | sizeOf _ =>
    unfold assignTarget at h
    rw [hk] at h
    exact (hreported h).elim

omit [Console κ] in
/-- A dereference or an element cannot be stored to for the same reason that it cannot be read. -/
theorem store_error_iff {halt : Halt} :
    (∃ t, store image place value s = .error halt t) ↔
      ∃ fault, place.answer s = .error fault ∧
        halt = .error (.fault (.memory fault) (image.locationIn s.stack)) := by
  rw [store_apply]
  cases hput : place.put value s with
  | ok t =>
    constructor
    · rintro ⟨_, ⟨⟩⟩
    · rintro ⟨fault, hanswer, -⟩
      rw [Place.put_error_iff.2 hanswer] at hput
      cases hput
  | error fault =>
    have hanswer := Place.put_error_iff.1 hput
    constructor
    · rintro ⟨_, ⟨⟩⟩
      exact ⟨fault, hanswer, rfl⟩
    · rintro ⟨fault', hanswer', rfl⟩
      obtain rfl : fault = fault' := Except.error.inj (hanswer.symm.trans hanswer')
      exact ⟨s, rfl⟩

theorem readTarget_error_iff {halt : Halt} (hplace : image.place? target s.stack.top = some place) :
    (∃ t, readTarget image target s = .error halt t) ↔
      ∃ fault, place.answer s = .error fault ∧
        halt = .error (.fault (.memory fault) (image.locationIn s.stack)) := by
  rw [readTarget_of_place hplace, bind_apply, load_apply]
  cases hanswer : place.answer s with
  | ok found =>
    constructor
    · rintro ⟨_, ⟨⟩⟩
    · rintro ⟨fault, ⟨⟩, -⟩
  | error fault =>
    constructor
    · rintro ⟨_, ⟨⟩⟩
      exact ⟨fault, rfl, rfl⟩
    · rintro ⟨_, ⟨⟩, rfl⟩
      exact ⟨s, rfl⟩

/-- An assignment writes where reading reads. Let the right side and the parts that locate the
target of an assignment have values. If the assignment has a result and reports nothing, then these
values are still there, and reading the target afterwards gives it the value of the right side. If
the target is a dereference or an element, in whatever parentheses, and the value may go there, then
the assignment fails just if reading the target instead fails, and both fail with the same memory
fault at the same place. -/
theorem assigned_where_read {source : String} {p : Program}
    (h : Program.parse source = .ok p) (config : Config)
    {e lhs rhs : ExprId} (hk : (p.expr e).kind = .binary .assign lhs rhs) {s : State κ}
    (hbound : ∀ c ∈ p.asked e, (s.stack.top.expr? c).isSome) :
    let image := Image.load p config
    let target := p.stripParens lhs
    (∀ t, assign image e lhs rhs s = .ok () t → t.diagnostics = s.diagnostics →
      (∀ c ∈ p.asked e, t.stack.top.expr? c = s.stack.top.expr? c) ∧
        ∃ u, readTarget image target t = .ok () u ∧
          u.stack.top.expr? target = s.stack.top.expr? rhs) ∧
    ((p.expr target).kind.isPlace = true →
      ¬ ((p.expr lhs).type.isPointer = true ∧
        isForbiddenConversion (p.expr lhs).type (p.expr rhs).type = true) →
      ∀ halt, ((∃ t, assign image e lhs rhs s = .error halt t) ↔
        ∃ t, readTarget image target s = .error halt t) ∧
        ∀ t, assign image e lhs rhs s = .error halt t →
          ∃ fault, halt = .error (.fault (.memory fault) (image.locationIn s.stack))) := by
  intro image target
  have htree : p.Tree := (Program.resolved_of_parse h).wellFormed.tree
  have hasked : p.asked e = rhs :: (p.expr target).kind.locators := Program.asked_of_assign hk
  obtain ⟨value, hvalue⟩ := Option.isSome_iff_exists.1 (hbound rhs (by simp [hasked]))
  -- giving values to the target's node and the assignment leaves those of the operands alone
  have hkept (c : ExprId) (hc : c ∈ p.asked e) :
      (assigning s e lhs value).stack.top.expr? c = s.stack.top.expr? c :=
    expr?_assigning (htree.ne_of_asked hk hc).1 (htree.ne_of_asked hk hc).2 value
  have hplaces (hplace : (p.expr target).kind.isPlace = true) :
      ∃ place, image.place? target s.stack.top = some place ∧
        image.place? target (assigning s e lhs value).stack.top = some place := by
    have hlocators (c : ExprId) (hc : c ∈ (p.expr target).kind.locators) : c ∈ p.asked e := by
      simp [hasked, hc]
    obtain ⟨place, hfound⟩ : ∃ place, image.place? target s.stack.top = some place :=
      exists_place hplace fun c hc => hbound c (hlocators c hc)
    refine ⟨place, hfound, ?_⟩
    rw [place?_congr fun c hc => hkept c (hlocators c hc), hfound]
  constructor
  · intro t ht hsilent
    rw [assign_apply (allowed_of_assign ht) hvalue] at ht
    obtain ⟨hexprs, hread⟩ := readTarget_of_assignTarget (fun hd => Program.type_of_parse h hd)
      (fun hplace => (hplaces hplace).imp fun _ hfound => hfound.2) ht hsilent
    refine ⟨fun c hc => (hexprs c).trans (hkept c hc), _, hread, ?_⟩
    have htarget : target = image.program.stripParens lhs := rfl
    rw [CallStack.top_modifyTop, Frame.expr?_bindExpr, if_pos htarget, hvalue]
  · intro hplace hallowed halt
    change ¬ ((image.typeOf lhs).isPointer = true ∧
      isForbiddenConversion (image.typeOf lhs) (image.typeOf rhs) = true) at hallowed
    obtain ⟨place, hfound, hfound'⟩ := hplaces hplace
    have hassign : (∃ t, assign image e lhs rhs s = .error halt t) ↔
        ∃ fault, place.answer s = .error fault ∧
          halt = .error (.fault (.memory fault) (image.locationIn s.stack)) := by
      have hanswer : place.answer (assigning s e lhs value) = place.answer s := by
        cases place <;> rfl
      have hstore : assign image e lhs rhs s = store image place value (assigning s e lhs value) :=
        (assign_apply hallowed hvalue).trans (assignTarget_of_place hfound')
      rw [hstore, store_error_iff, hanswer, locationIn_assigning]
    refine ⟨hassign.trans (readTarget_error_iff hfound).symm, fun t ht => ?_⟩
    obtain ⟨fault, -, hhalt⟩ := hassign.1 ⟨t, ht⟩
    exact ⟨fault, hhalt⟩

/-- An assignment to what a pointer points to, and one to an element that is not there. -/
theorem assigned_where_read_of_pointer_and_array :
    ∃ p,
      Program.parse "int main() { int *p = 4; int a[3]; (*p) = 7; a[9] = 5; return 0; }" = .ok p ∧
      let image := Image.load p {}
      let s := endOfRun image 100
      (p.expr ⟨5⟩).kind = .binary .assign ⟨3⟩ ⟨4⟩ ∧ (p.expr ⟨10⟩).kind = .binary .assign ⟨8⟩ ⟨9⟩ ∧
      (∃ t u, assign image ⟨5⟩ ⟨3⟩ ⟨4⟩ s = .ok () t ∧ readTarget image ⟨2⟩ t = .ok () u ∧
        u.stack.top.expr? ⟨2⟩ = some 7) ∧
      ∃ t u, assign image ⟨10⟩ ⟨8⟩ ⟨9⟩ s =
          .error
            (.error (.fault (.memory (.arrayIndexOutOfBounds 9 3)) (image.locationIn s.stack))) t ∧
        readTarget image ⟨8⟩ s =
          .error (.error (.fault (.memory (.arrayIndexOutOfBounds 9 3)) (image.locationIn s.stack)))
            u := by
  obtain ⟨p, hp, ⟨hpointer, hbound, hvalue, hstrip, hresult, hsilent⟩, helement, hbound',
    hstrip', hplace, hallowed,
      hhalt⟩ : ∃ p,
      Program.parse "int main() { int *p = 4; int a[3]; (*p) = 7; a[9] = 5; return 0; }" = .ok p ∧
      ((p.expr ⟨5⟩).kind = .binary .assign ⟨3⟩ ⟨4⟩ ∧
        (∀ c ∈ p.asked ⟨5⟩, ((endOfRun (Image.load p {}) 100).stack.top.expr? c).isSome) ∧
        (endOfRun (Image.load p {}) 100).stack.top.expr? ⟨4⟩ = some 7 ∧ p.stripParens ⟨3⟩ = ⟨2⟩ ∧
        result? (assign (Image.load p {}) ⟨5⟩ ⟨3⟩ ⟨4⟩ (endOfRun (Image.load p {}) 100)) = some () ∧
        (endState
          (assign (Image.load p {}) ⟨5⟩ ⟨3⟩ ⟨4⟩ (endOfRun (Image.load p {}) 100))).diagnostics =
          (endOfRun (Image.load p {}) 100).diagnostics) ∧
      (p.expr ⟨10⟩).kind = .binary .assign ⟨8⟩ ⟨9⟩ ∧
        (∀ c ∈ p.asked ⟨10⟩, ((endOfRun (Image.load p {}) 100).stack.top.expr? c).isSome) ∧
        p.stripParens ⟨8⟩ = ⟨8⟩ ∧ (p.expr ⟨8⟩).kind.isPlace = true ∧
        (¬ ((p.expr ⟨8⟩).type.isPointer = true ∧
          isForbiddenConversion (p.expr ⟨8⟩).type (p.expr ⟨9⟩).type = true)) ∧
        halt? (assign (Image.load p {}) ⟨10⟩ ⟨8⟩ ⟨9⟩ (endOfRun (Image.load p {}) 100)) =
          some (.error (.fault (.memory (.arrayIndexOutOfBounds 9 3))
            ((Image.load p {}).locationIn (endOfRun (Image.load p {}) 100).stack))) :=
    Program.exists_of_parse (by decide +kernel)
  obtain ⟨t, ht⟩ := exists_of_result? hresult
  rw [ht] at hsilent
  obtain ⟨-, u, hread, hseven⟩ := (assigned_where_read hp {} hpointer hbound).1 t ht hsilent
  rw [hstrip] at hread hseven
  obtain ⟨t', ht'⟩ := exists_of_halt? hhalt
  have hfails := (assigned_where_read hp {} helement hbound').2
  rw [hstrip'] at hfails
  obtain ⟨u', hu'⟩ := (hfails hplace hallowed _).1.1 ⟨t', ht'⟩
  exact ⟨p, hp, hpointer, helement, ⟨t, u, ht, hread, hseven.trans hvalue⟩, t', u', ht', hu'⟩

end Run

end MiniC
