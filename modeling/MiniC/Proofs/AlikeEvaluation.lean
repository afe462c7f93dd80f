import MiniC.Proofs.AlikeOperations

/-!
# Evaluation of programs that differ in parentheses

The direct evaluator does the same on programs that are the same except for parentheses. It nests at
most twice as deeply on the second program, for at most every other level of nesting is a pair of
parentheses that the first one does not have.
-/

set_option autoImplicit false

namespace MiniC.Direct

open MiniC.Parenthesised

variable {image image' : Image}

/-! ## Expressions that always have a value -/

section Delivers

variable {κ α : Type}

/-- If the computation ends, it ends with a value. -/
def Delivers (x : Exec κ (Option Int32)) : Prop := ∀ s v t, x s = .ok v t → v.isSome = true

/-- Only what the first part can end with matters. -/
theorem delivers_bind_of_result {x : Exec κ α} {f : α → Exec κ (Option Int32)} {Q : α → Prop}
    (hx : ∀ s a t, x s = .ok a t → Q a) (hf : ∀ a, Q a → Delivers (f a)) : Delivers (x >>= f) := by
  intro s v t hv
  rw [bind_apply] at hv
  cases hresult : x s with
  | ok a u =>
    rw [hresult] at hv
    exact hf a (hx s a u hresult) u v t hv
  | error _ _ =>
    rw [hresult] at hv
    cases hv

/-- A sequence has a value if its second part does. -/
theorem delivers_bind {x : Exec κ α} {f : α → Exec κ (Option Int32)} (h : ∀ a, Delivers (f a)) :
    Delivers (x >>= f) :=
  delivers_bind_of_result (Q := fun _ => True) (fun _ _ _ _ => trivial) fun a _ => h a

theorem delivers_some (value : Int32) : Delivers (pure (some value) : Exec κ (Option Int32)) := by
  rintro _ _ _ ⟨⟩
  rfl

/-- A computation that halts does not end without a value. -/
theorem delivers_throw (h : Halt) : Delivers (throw h : Exec κ (Option Int32)) := nofun

theorem delivers_map (x : Exec κ Int32) : Delivers (do return some (← x)) :=
  delivers_bind fun _ => delivers_some _

/-- As many arguments have values as there are. -/
theorem length_of_mapM {β : Type} {f : α → Exec κ β} (as : List α) (s : State κ)
    {bs : List β} {t : State κ} (h : as.mapM f s = .ok bs t) : bs.length = as.length := by
  induction as generalizing s bs t with
  | nil =>
    cases h
    rfl
  | cons a as ih =>
    rw [List.mapM_cons, bind_apply] at h
    cases hfirst : f a s with
    | error _ _ =>
      rw [hfirst] at h
      cases h
    | ok b u =>
      rw [hfirst] at h
      dsimp only at h
      rw [bind_apply] at h
      cases hrest : as.mapM f u with
      | error _ _ =>
        rw [hrest] at h
        cases h
      | ok bs u' =>
        rw [hrest] at h
        cases h
        rw [List.length_cons, List.length_cons, ih u hrest]

/-- After the check there are as many arguments as parameters. -/
theorem checkArity_ok {function : String} {expected got : Nat} {s t : State κ} {u : Unit}
    (h : checkArity function expected got s = .ok u t) : got = expected := by
  unfold checkArity at h
  split at h
  · cases h
  · next heq => exact (not_not.1 heq).symm

/-- Of the provided functions, those that read and allocate give something back. -/
theorem delivers_callBuiltin {b : Builtin} (hprint : b ≠ .print) (hfree : b ≠ .free)
    {args : List ExprId} {values : List (Option Int32)} (hlength : values.length = args.length) :
    Delivers (callBuiltin b args values : Exec Scripted (Option Int32)) := by
  refine delivers_bind_of_result (Q := fun _ => args.length = b.arity) (fun _ _ _ => checkArity_ok)
    fun _ harity => ?_
  cases b with
  | print => exact absurd rfl hprint
  | free => exact absurd rfl hfree
  | get =>
    refine delivers_bind fun s => delivers_bind fun _ => ?_
    split
    · exact delivers_some _
    · exact delivers_throw _
  | malloc =>
    obtain ⟨arg, rfl⟩ := List.length_eq_one_iff.1 harity
    obtain ⟨v, rfl⟩ := List.length_eq_one_iff.1 hlength
    exact delivers_bind fun _ => delivers_bind fun _ => delivers_bind fun _ =>
      delivers_bind fun _ =>
      delivers_some _

end Delivers

/-- A call has a value unless it is one of those that give nothing back. -/
theorem delivers_call (hnamed : ∀ {d b}, image.builtin? d = some b →
    (image.program.decl d).name = b.name)
    {callee : DeclId} (hback : GivesBack image.program callee) (ev : Evaluator Scripted)
    (args : List ExprId) :
    Delivers (call image ev callee args) := by
  refine delivers_bind_of_result (fun s _ _ h => length_of_mapM args s h) fun values hlength => ?_
  unfold callWith
  cases hb : image.builtin? callee with
  | some b =>
    have hname := hnamed hb
    refine delivers_callBuiltin (fun heq => ?_) (fun heq => ?_) hlength
    · exact hback.1 (by rw [hname, heq])
    · exact hback.2 (by rw [hname, heq])
  | none =>
    dsimp only
    split
    · exact delivers_bind fun _ => delivers_bind fun _ => delivers_bind fun _ => delivers_some _
    · exact delivers_throw _

/-- What is no call of a function that gives nothing back and no conversion to `void` has a
value. -/
theorem delivers_exprStep (hnamed : ∀ {d b}, image.builtin? d = some b →
    (image.program.decl d).name = b.name)
    {e : ExprId} (he : Yields image.program e) (ev : Evaluator Scripted) :
    Delivers (exprStep image ev e) := by
  unfold exprStep
  unfold Yields at he
  cases hk : (image.program.expr e).kind with
  | intLiteral value => exact delivers_some value
  | declRef d => exact delivers_map _
  | sizeOf type => exact delivers_map _
  | paren inner => exact delivers_bind fun _ => delivers_map _
  | unary op operand => exact delivers_bind fun _ => delivers_map _
  | subscript base index =>
    exact delivers_bind fun _ => delivers_bind fun _ => delivers_bind fun _ => delivers_map _
  | binary op lhs rhs =>
    dsimp only
    split <;> exact delivers_bind fun _ => delivers_bind fun _ => delivers_map _
  | call callee args =>
    rw [hk] at he
    exact delivers_call hnamed he.2 ev args
  | cast operand =>
    rw [hk] at he
    refine delivers_bind fun _ => ?_
    rw [show (image.typeOf e).isVoid = false from he]
    exact delivers_map _

/-! ## Parentheses -/

section Enclosed

variable {κ : Type} {x y : Exec κ (Option Int32)} {plain : Prop}

/-- The value of parentheses around an expression. -/
def enclosed (inner : ExprId) (x : Exec κ (Option Int32)) : Exec κ (Option Int32) := do
  return some (← valueOf inner (← x))

theorem enclosed_apply (inner : ExprId) (x : Exec κ (Option Int32)) (s : State κ) :
    enclosed inner x s = match x s with
      | .ok (some value) t => .ok (some value) t
      | .ok none t => .error (.noValue inner) t
      | .error h t => .error h t := by
  unfold enclosed
  rw [bind_apply]
  cases x s with
  | ok v t => cases v <;> rfl
  | error h t => rfl

/-- If both always have a value, they agree also if it is not asked for. -/
theorem AgreeAsked.agree (h : AgreeAsked plain x y) (hx : Delivers x) (hy : Delivers y) :
    Agree Eq x y := by
  intro s s' hs
  have hmatch := h s s' hs
  generalize hr : x s = r, hr' : y s' = r' at hmatch
  cases hmatch with
  | same hsame => exact hsame
  | left e' _ _ => cases hx _ _ _ hr
  | right e _ _ => cases hy _ _ _ hr'

/-- Parentheses in the second program make no difference where the value is asked for. -/
theorem Agree.enclosed_right (h : Agree Eq x y) (hplain : plain) (inner : ExprId) :
    AgreeAsked plain x (enclosed inner y) := by
  intro s s' hs
  have hmatch := h s s' hs
  rw [enclosed_apply]
  generalize x s = r, y s' = r' at hmatch
  cases hmatch with
  | @ok v v' _ _ heq ht =>
    subst heq
    cases v with
    | some value => exact .same (.ok rfl ht)
    | none => exact .left inner hplain ht
  | error hh ht => exact .same (.error hh ht)
  | outOfFuel _ => exact .same (.outOfFuel _)

/-- Nor do parentheses in the first one. -/
theorem Agree.enclosed_left (h : Agree Eq x y) (hplain : plain) (inner : ExprId) :
    AgreeAsked plain (enclosed inner x) y := by
  intro s s' hs
  have hmatch := h s s' hs
  rw [enclosed_apply]
  generalize x s = r, y s' = r' at hmatch
  cases hmatch with
  | @ok v v' _ _ heq ht =>
    subst heq
    cases v with
    | some value => exact .same (.ok rfl ht)
    | none => exact .right inner hplain ht
  | error hh ht => exact .same (.error hh ht)
  | outOfFuel _ => exact .same (.outOfFuel _)

/-- Parentheses have a value whenever they are evaluated. -/
theorem delivers_enclosed (inner : ExprId) (x : Exec κ (Option Int32)) :
    Delivers (enclosed inner x) :=
  delivers_bind fun _ => delivers_map _

end Enclosed

/-- To evaluate parentheses is to evaluate what is inside, and to ask for its value. -/
theorem exprStep_isParen {ev : Evaluator Scripted} {e inner : ExprId}
    (h : IsParen image.program e inner) :
    exprStep image ev e = enclosed inner (ev.expr inner) := by
  unfold exprStep
  rw [h.kind]
  rfl

/-- The target of an assignment is located inside its parentheses. -/
theorem targetStep_isParen {ev : Evaluator Scripted} {e inner : ExprId}
    (h : IsParen image.program e inner) :
    targetStep image ev e = ev.target inner := by
  unfold targetStep
  rw [h.kind]

/-! ## One level of nesting -/

/-- What the evaluators do agrees on what is the same except for parentheses. -/
structure EvaluatorAlike (image image' : Image) (ev ev' : Evaluator Scripted) : Prop where
  expr : ∀ {e e'}, ExprAlike image.program image'.program .later e e' →
    Agree Eq (ev.expr e) (ev'.expr e')
  asked : ∀ {e e'}, ExprAlike image.program image'.program .next e e' →
    AgreeAsked ((image.typeOf e).isArray = false) (ev.expr e) (ev'.expr e')
  target : ∀ {e e'}, ExprAlike image.program image'.program .target e e' →
    Agree (TargetAlike image image') (ev.target e) (ev'.target e')
  decl : ∀ d, Agree (fun _ _ => True) (ev.decl d) (ev'.decl d)
  stmt : ∀ id, Agree Eq (ev.stmt id) (ev'.stmt id)

/-- The operands of an expression are asked for in the same way wherever it is evaluated. -/
theorem later_of_next {R : Demand → ExprId → ExprId → Prop} {type : CType} {kind kind' : ExprKind}
    (h : KindAlike R .next type kind kind') : KindAlike R .later type kind kind' := by
  cases h with
  | intLiteral value => exact .intLiteral value
  | declRef d => exact .declRef d
  | unary op ho => exact .unary op ho
  | binary op hl hr => exact .binary op hl hr
  | call callee hargs => exact .call callee hargs
  | subscript hb hi => exact .subscript hb hi
  | cast ho => exact .cast ho
  | paren hi => exact .paren hi
  | sizeOf sized => exact .sizeOf sized

section Steps

variable {ev ev' : Evaluator Scripted} (h : ImageAlike image image')
    (hev : EvaluatorAlike image image' ev ev')
include h hev

omit h in
/-- A missing value that is asked for next makes no difference. -/
theorem EvaluatorAlike.next {α β : Type} {R : α → β → Prop} {e e' : ExprId}
    (he : ExprAlike image.program image'.program .next e e') {f : Option Int32 → Exec Scripted α}
    {g : Option Int32 → Exec Scripted β} (hfg : ∀ v, Agree R (f v) (g v))
    (hf : Asks f) (hg : Asks g) :
    Agree R (ev.expr e >>= f) (ev'.expr e' >>= g) :=
  (hev.asked he).bind hfg (fun _ => hf) fun _ => hg

omit h in
/-- An operand whose value an operator may ask for next. -/
theorem EvaluatorAlike.operand {α β : Type} {R : α → β → Prop} {asks : Bool} {e e' : ExprId}
    (he : ExprAlike image.program image'.program (if asks = true then .next else .later) e e')
    {f : Option Int32 → Exec Scripted α} {g : Option Int32 → Exec Scripted β}
    (hfg : ∀ v, Agree R (f v) (g v))
    (hf : asks = true → Asks f) (hg : asks = true → Asks g) :
    Agree R (ev.expr e >>= f) (ev'.expr e' >>= g) := by
  cases asks with
  | true => exact hev.next he hfg (hf rfl) (hg rfl)
  | false => exact (hev.expr he).bind fun v _ heq => heq ▸ hfg v

omit h in
/-- The arguments of a call have the same values. -/
theorem EvaluatorAlike.values {args args' : List ExprId}
    (hargs : List.Forall₂ (ExprAlike image.program image'.program .later) args args') :
    Agree Eq (args.mapM ev.expr) (args'.mapM ev'.expr) :=
  agree_mapM (hargs.imp fun _ _ he => hev.expr he)

/-- A call does the same with arguments that are alike. -/
theorem EvaluatorAlike.call (callee : DeclId) {args args' : List ExprId}
    (hargs : List.Forall₂ (ExprAlike image.program image'.program .later) args args') :
    Agree Eq (call image ev callee args) (call image' ev' callee args') := by
  refine (hev.values hargs).bind fun values _ heq => ?_
  subst heq
  unfold callWith
  rw [h.builtin?_eq]
  cases image.builtin? callee with
  | some b => exact agree_callBuiltin b values hargs
  | none =>
    have hkind := h.program.decl callee
    dsimp only
    rw [h.program.name]
    generalize (image.program.decl callee).kind = kind,
      (image'.program.decl callee).kind = kind' at hkind
    cases hkind with
    | «variable» type storage _ _ => exact agree_fault _
    | function returnType params body =>
      cases body with
      | none => exact agree_fault _
      | some body =>
        refine (agree_enterBody h callee params values hargs).bind fun _ _ _ => ?_
        refine (hev.stmt body).bind fun flow _ heq => ?_
        subst heq
        exact agree_closeCall.bind fun _ _ _ => agree_pure rfl

/-- An expression and the same without parentheses around it, which may be around its operands. -/
theorem EvaluatorAlike.exprStep {e e' : ExprId}
    (hnode : NodeAlike (ExprAlike image.program image'.program) image.program
      image'.program .later e e') :
    Agree Eq (exprStep image ev e) (exprStep image' ev' e') := by
  have htype : image'.typeOf e' = image.typeOf e := hnode.type
  have hkind : KindAlike _ _ (image.typeOf e) _ _ := hnode.kind
  unfold Direct.exprStep
  rw [htype]
  generalize (image.program.expr e).kind = kind, (image'.program.expr e').kind = kind' at hkind
  cases hkind with
  | intLiteral value => exact agree_pure rfl
  | declRef d => exact (agree_reference h e e' d).bind fun _ _ heq => agree_pure (congrArg some heq)
  | sizeOf sized => exact (agree_sizeOf sized).bind fun _ _ heq => agree_pure (congrArg some heq)
  | call callee hargs => exact hev.call h callee hargs
  | @paren inner inner' hi =>
    refine hev.next hi (fun v => ?_) (asks_valueOf inner _) (asks_valueOf inner' _)
    exact (agree_valueOf inner inner' v).bind fun _ _ heq => agree_pure (congrArg some heq)
  | @unary op operand operand' ho =>
    refine hev.operand ho (fun v => ?_) (fun hop => (asks_unary e hop operand).bind _) fun hop =>
      (asks_unary e' hop operand').bind _
    exact (agree_unary h e e' op operand operand' v).bind fun _ _ heq =>
      agree_pure (congrArg some heq)
  | @binary op lhs lhs' rhs rhs' hl hr =>
    have hl : ExprAlike _ _ (if op.isAssignment = true then .target else .later) lhs lhs' := hl
    dsimp only
    -- an assignment locates its left operand instead of evaluating it
    cases hop : op.isAssignment with
    | true =>
      rw [if_pos hop] at hl
      have hasks : op.asks = false := by cases op <;> first | rfl | cases hop
      have hr : ExprAlike _ _ (if op.asks = true then .next else .later) rhs rhs' := hr
      rw [hasks] at hr
      refine (hev.expr hr).bind fun r _ heq => ?_
      subst heq
      refine (hev.target hl).bind fun target target' ht => ?_
      exact (agree_assign h e e' op r hl hr ht).bind fun _ _ heq => agree_pure (congrArg some heq)
    | false =>
      rw [hop] at hl
      refine (hev.expr hl).bind fun l _ heq => ?_
      subst heq
      refine hev.operand hr (fun r => ?_)
          (fun hop => (asks_binary e hop lhs rhs l).bind _) fun hop =>
        (asks_binary e' hop lhs' rhs' l).bind _
      exact (agree_binary h e e' op l r hl hr).bind fun _ _ heq => agree_pure (congrArg some heq)
  | @subscript base base' index index' hb hi =>
    refine (hev.expr hb).bind fun b _ heq => ?_
    subst heq
    refine hev.next hi (fun i => ?_) ((asks_second base index b _).bind _)
      ((asks_second base' index' b _).bind _)
    refine (agree_elementPlace h index index' b i hb).bind fun place _ heq => ?_
    subst heq
    exact (agree_load place).bind fun _ _ heq => agree_pure (congrArg some heq)
  | @cast operand operand' ho =>
    have ho : ExprAlike _ _ (if (image.typeOf e).isVoid = true then .later
      else .next) operand operand' := ho
    dsimp only
    -- a conversion to `void` does not ask for the value of its operand
    cases hvoid : (image.typeOf e).isVoid with
    | true =>
      rw [hvoid] at ho
      exact (hev.expr ho).bind fun _ _ _ => agree_pure rfl
    | false =>
      rw [hvoid] at ho
      refine hev.next ho (fun v => ?_) (asks_valueOf operand _) (asks_valueOf operand' _)
      exact (agree_valueOf operand operand' v).bind fun _ _ heq => agree_pure (congrArg some heq)

omit h in
/-- Where an assignment stores, if neither target has parentheses that the other does not have. -/
theorem EvaluatorAlike.targetStep {e e' : ExprId}
    (hnode : NodeAlike (ExprAlike image.program image'.program) image.program
      image'.program .target e e') :
    Agree (TargetAlike image image') (targetStep image ev e) (targetStep image' ev' e') := by
  have hkind := hnode.kind
  unfold Direct.targetStep
  generalize (image.program.expr e).kind = kind, (image'.program.expr e').kind = kind' at hkind
  cases hkind with
  | declRef d => exact agree_pure (.name d)
  | paren hi => exact hev.target hi
  | @unary op operand operand' ho =>
    cases op with
    | deref =>
      refine (hev.expr ho).bind fun v _ heq => agree_pure ?_
      subst heq
      exact .pointee operand operand' v
    | neg | plus | not | bitNot | addressOf | preInc | preDec | postInc | postDec =>
      exact agree_pure .unsupported
  | @subscript base base' index index' hb hi =>
    refine (hev.expr hb).bind fun b _ hb' => (hev.expr hi).bind fun i _ hi' => agree_pure ?_
    subst hb' hi'
    exact .element index index' b i hb
  | intLiteral _ | binary _ _ _ | call _ _ | cast _ | sizeOf _ => exact agree_pure .unsupported

/-! ## Declarations and statements -/

/-- A declaration does the same with initialisers that are alike. -/
theorem EvaluatorAlike.declStep (d : DeclId) :
    Agree (fun _ _ => True) (declStep image ev d) (declStep image' ev' d) := by
  have hkind := h.program.decl d
  have hinit := agree_initialise (κ := Scripted) h d
  unfold Direct.declStep
  generalize hk : (image.program.decl d).kind = kind, hk' :
    (image'.program.decl d).kind = kind' at hkind
  cases hkind with
  | function _ _ _ => exact hinit none
  | «variable» type storage hinits harray =>
    cases hinits with
    | none => exact hinit none
    | some he =>
      refine (hev.asked he).bind hinit (asks_initialise hk (harray rfl)) fun hplain => ?_
      exact asks_initialise hk' (harray rfl) ((h.typeOf he).symm ▸ hplain)

omit h in
/-- A condition holds in both or in none. -/
theorem EvaluatorAlike.conditionHolds {e e' : ExprId}
    (he : ExprAlike image.program image'.program .next e e') :
    Agree Eq (conditionHolds ev e) (conditionHolds ev' e') := by
  refine hev.next he (fun v => ?_) (asks_valueOf e _) (asks_valueOf e' _)
  exact (agree_valueOf e e' v).bind fun _ _ heq => agree_pure (by rw [heq])

omit h in
theorem EvaluatorAlike.loopContinues {condition condition' : Option ExprId}
    (hc : OptionAlike image.program image'.program .next condition condition') :
    Agree Eq (loopContinues ev condition) (loopContinues ev' condition') := by
  cases hc with
  | none => exact agree_pure rfl
  | some he => exact hev.conditionHolds he

omit h in
/-- A round of a loop does the same. -/
theorem EvaluatorAlike.forRound (body : StmtId) {increment increment' : Option ExprId}
    (hi : OptionAlike image.program image'.program .later increment increment') :
    Agree Eq (forRound ev body increment) (forRound ev' body increment') := by
  refine (hev.stmt body).bind fun flow _ heq => ?_
  subst heq
  cases flow with
  | returned value => exact agree_pure rfl
  | normal =>
    cases hi with
    | none => exact agree_pure rfl
    | some he => exact (hev.expr he).bind fun _ _ _ => agree_pure rfl

omit h hev in
/-- Unless it is an array, what is returned is asked for next, for its conversion does not halt. -/
theorem asks_returned {e : ExprId} (hplain : (image.typeOf e).isArray = false) :
    Asks fun v => (do
      if let some function := (← get).top.function then
        let expected := (image.program.decl function).type.result
        if expected.isPointer then checkConversion image expected e
      valueOf e v : Exec Scripted Int32) := by
  refine asks_get fun s => ?_
  cases s.top.function with
  | none => exact fun _ => ⟨e, rfl⟩
  | some function =>
    dsimp only
    split
    · next hpointer =>
      rw [checkConversion_eq (CType.isArray_eq_false_of_isPointer hpointer) hplain]
      exact fun _ => ⟨e, rfl⟩
    · exact fun _ => ⟨e, rfl⟩

/-- The same value is returned. -/
theorem EvaluatorAlike.returnValue {value value' : Option ExprId}
    (hv : OptionAlike image.program image'.program .next value value') :
    Agree Eq (returnValue image ev value) (returnValue image' ev' value') := by
  cases hv with
  | none => exact agree_pure rfl
  | @some e e' he =>
    refine (hev.asked he).bind (fun v => ?_) (fun hplain => ?_) fun hplain => ?_
    · refine agree_get (fun _ _ => rfl) fun s => ?_
      cases s.top.function with
      | none => exact agree_valueOf e e' v
      | some function =>
        dsimp only
        rw [h.program.type]
        split
        · exact (agree_checkConversion h _ he).bind fun _ _ _ => agree_valueOf e e' v
        · exact agree_valueOf e e' v
    · exact asks_returned hplain
    · exact asks_returned ((h.typeOf he).symm ▸ hplain)

/-- A statement does the same if its parts do. -/
theorem EvaluatorAlike.stmtStep {rounds rounds' : Nat} (hrounds : rounds ≤ rounds') (id : StmtId) :
    Agree Eq (stmtStep image ev rounds id) (stmtStep image' ev' rounds' id) := by
  have hkind := h.program.stmt id
  unfold Direct.stmtStep
  generalize (image.program.stmt id).kind = kind, (image'.program.stmt id).kind = kind' at hkind
  cases hkind with
  | block body => exact agree_untilReturn body hev.stmt
  | declare ds =>
    exact (agree_forM (List.forall₂_same.2 fun d _ => hev.decl d)).bind fun _ _ _ => agree_pure rfl
  | expr he => exact (hev.expr he).bind fun _ _ _ => agree_pure rfl
  | ifElse thenBranch elseBranch hc =>
    refine (hev.conditionHolds hc).bind fun holds _ heq => ?_
    subst heq
    cases holds with
    | true => exact hev.stmt thenBranch
    | false =>
      cases elseBranch with
      | none => exact agree_pure rfl
      | some branch => exact hev.stmt branch
  | whileLoop body hc => exact agree_whileHolds (hev.conditionHolds hc) (hev.stmt body) hrounds
  | forLoop init body hc hi =>
    have hloop := agree_whileHolds (hev.loopContinues hc) (hev.forRound body hi) hrounds
    cases init with
    | none => exact hloop
    | some init => exact (hev.stmt init).bind fun _ _ _ => hloop
  | ret hv =>
    refine (hev.returnValue h hv).bind fun value _ heq => ?_
    subst heq
    exact agree_pure rfl
  | empty => exact agree_pure rfl

end Steps

/-! ## All levels -/

section Levels

variable (h : ImageAlike image image') {n : Nat}
  (hless : ∀ k < n, ∀ l, 2 * k ≤ l →
    EvaluatorAlike image image' (evaluator image k) (evaluator image' l))
include h hless

/-- Without parentheses around either, the second expression may nest twice as deeply and one
less. -/
theorem agree_expr_of_node {m : Nat} (hnm : 2 * n ≤ m + 1) {e e' : ExprId}
    (hnode : NodeAlike (ExprAlike image.program image'.program) image.program
      image'.program .later e e') :
    Agree Eq ((evaluator (κ := Scripted) image n).expr e)
      ((evaluator (κ := Scripted) image' m).expr e') := by
  cases n with
  | zero => exact agree_outOfFuel _
  | succ n =>
    obtain ⟨m, rfl⟩ := Nat.exists_eq_add_of_le' (show 1 ≤ m by omega)
    exact (hless n (by omega) m (by omega)).exprStep h hnode

omit h in
/-- Targets that are the same up to the parts inside them are located alike. -/
theorem agree_target_of_node {m : Nat} (hnm : 2 * n ≤ m + 1) {e e' : ExprId}
    (hnode : NodeAlike (ExprAlike image.program image'.program) image.program
      image'.program .target e e') :
    Agree (TargetAlike image image') ((evaluator (κ := Scripted) image n).target e)
      ((evaluator (κ := Scripted) image' m).target e') := by
  cases n with
  | zero => exact agree_outOfFuel _
  | succ n =>
    obtain ⟨m, rfl⟩ := Nat.exists_eq_add_of_le' (show 1 ≤ m by omega)
    exact (hless n (by omega) m (by omega)).targetStep hnode

/-- Parentheses around one of the expressions are another level of nesting. -/
theorem agreeAsked_expr {m : Nat} (hnm : 2 * n ≤ m) {c : Demand}
    (hc : c = .later ∨ c = .next) {e e' : ExprId}
    (he : ExprAlike image.program image'.program c e e') :
    AgreeAsked (c ≠ .later ∧ (image.typeOf e).isArray = false)
      ((evaluator (κ := Scripted) image n).expr e)
      ((evaluator (κ := Scripted) image' m).expr e') := by
  have hlater {e e' : ExprId}
      (hnode : NodeAlike (ExprAlike image.program image'.program) image.program
        image'.program c e e') :
      NodeAlike (ExprAlike image.program image'.program) image.program
        image'.program .later e e' := by
    rcases hc with rfl | rfl
    · exact hnode
    · exact { hnode with kind := later_of_next hnode.kind }
  cases n with
  | zero => exact (agree_outOfFuel _).asked
  | succ n =>
    -- the second evaluator is given two levels for each one, so that one is left for parentheses
    obtain ⟨m, rfl⟩ := Nat.exists_eq_add_of_le' (show 1 ≤ m by omega)
    cases he.enclosed with
    | node hnode => exact (agree_expr_of_node h hless (by omega) (hlater hnode)).asked
    | @right inner hparen hnode hother =>
      -- only the second expression has parentheses around it
      have hinner := agree_expr_of_node h hless (m := m) (by omega) (hlater hnode)
      have hvalue : (evaluator (κ := Scripted) image' (m + 1)).expr e' = enclosed inner _ :=
        exprStep_isParen hparen
      rw [hvalue]
      rcases hother with hvalued | hplain
      · have hx : Delivers ((evaluator (κ := Scripted) image (n + 1)).expr e) :=
          delivers_exprStep h.named hvalued _
        exact ((hinner.enclosed_right trivial inner).agree hx (delivers_enclosed inner _)).asked
      · exact hinner.enclosed_right hplain inner
    | @left inner hparen hnode hother =>
      -- only the first one has
      have hinner :=
        agree_expr_of_node h (fun k hk => hless k (by omega)) (n := n) (m := m + 1) (by omega)
        (hlater hnode)
      have hvalue : (evaluator (κ := Scripted) image (n + 1)).expr e = enclosed inner _ :=
        exprStep_isParen hparen
      rw [hvalue]
      rcases hother with hvalued | hplain
      · have hy : Delivers ((evaluator (κ := Scripted) image' (m + 1)).expr e') :=
          delivers_exprStep h.symm.named hvalued _
        exact ((hinner.enclosed_left trivial inner).agree (delivers_enclosed inner _) hy).asked
      · refine hinner.enclosed_left ⟨hplain.1, ?_⟩ inner
        rw [← h.typeOf he]
        exact hplain.2

omit h in
/-- Targets that are alike are located alike. -/
theorem agree_target {m : Nat} (hnm : 2 * n ≤ m) {e e' : ExprId}
    (he : ExprAlike image.program image'.program .target e e') :
    Agree (TargetAlike image image') ((evaluator (κ := Scripted) image n).target e)
      ((evaluator (κ := Scripted) image' m).target e') := by
  cases n with
  | zero => exact agree_outOfFuel _
  | succ n =>
    obtain ⟨m, rfl⟩ := Nat.exists_eq_add_of_le' (show 1 ≤ m by omega)
    cases he.enclosed with
    | node hnode => exact agree_target_of_node hless (by omega) hnode
    | right hparen hnode _ =>
      have hplace : (evaluator (κ := Scripted) image' (m + 1)).target e' = _ :=
        targetStep_isParen hparen
      rw [hplace]
      exact agree_target_of_node hless (by omega) hnode
    | left hparen hnode _ =>
      have hplace : (evaluator (κ := Scripted) image (n + 1)).target e = _ :=
        targetStep_isParen hparen
      rw [hplace]
      exact agree_target_of_node (fun k hk => hless k (by omega)) (by omega) hnode

end Levels

/-- The second evaluator needs at most twice the depth of the first. -/
theorem evaluatorAlike_evaluator (h : ImageAlike image image') (n : Nat) :
    ∀ m, 2 * n ≤ m → EvaluatorAlike image image' (evaluator image n) (evaluator image' m) := by
  induction n using Nat.strongRecOn with
  | ind n ih =>
    intro m hnm
    have hexpr {c : Demand} (hc : c = .later ∨ c = .next) {e e' : ExprId}
        (he : ExprAlike image.program image'.program c e e') := agreeAsked_expr h ih hnm hc he
    refine {
      expr := fun he => (hexpr (.inl rfl) he).agree_of_not fun hplain => hplain.1 rfl
      asked := fun he => (hexpr (.inr rfl) he).mono And.right
      target := agree_target ih hnm
      decl := fun d => ?_
      stmt := fun id => ?_ }
    · cases n with
      | zero => exact agree_outOfFuel _
      | succ n =>
        obtain ⟨m, rfl⟩ := Nat.exists_eq_add_of_le' (show 1 ≤ m by omega)
        exact (ih n (by omega) m (by omega)).declStep h d
    · cases n with
      | zero => exact agree_outOfFuel _
      | succ n =>
        obtain ⟨m, rfl⟩ := Nat.exists_eq_add_of_le' (show 1 ≤ m by omega)
        exact (ih n (by omega) m (by omega)).stmtStep h (by omega) id

/-- The same entry function is entered. -/
theorem agree_enterMain (h : ImageAlike image image') :
    Agree Eq (enterMain image : Exec Scripted StmtId) (enterMain image') := by
  unfold enterMain
  rw [h.entry]
  cases image.entry with
  | none => exact agree_throw (.same _)
  | some entry =>
    have hkind := h.program.decl entry
    dsimp only
    rw [h.program.name]
    generalize (image.program.decl entry).kind = kind,
      (image'.program.decl entry).kind = kind' at hkind
    cases hkind with
    | «variable» _ _ _ _ => exact agree_fault _
    | function returnType params body =>
      cases body with
      | none => exact agree_fault _
      | some body => exact (agree_openCall entry _).bind fun _ _ _ => agree_pure rfl

/-- Runs of programs that are the same except for parentheses. -/
theorem agree_run (h : ImageAlike image image') {n m : Nat} (hnm : 2 * n ≤ m) :
    Agree Eq (run image n : Exec Scripted Int32) (run image' m) := by
  have hev := evaluatorAlike_evaluator h n m hnm
  unfold run
  rw [h.program.items]
  refine (agree_forM (List.forall₂_same.2 fun item _ => ?_)).bind fun _ _ _ => ?_
  · cases item with
    | «variable» d => exact hev.decl d
    | function _ => exact agree_pure trivial
  refine (agree_enterMain h).bind fun body _ heq => ?_
  subst heq
  refine (hev.stmt body).bind fun flow _ heq => ?_
  subst heq
  exact agree_closeCall.bind fun _ _ _ => agree_pure rfl

end MiniC.Direct
