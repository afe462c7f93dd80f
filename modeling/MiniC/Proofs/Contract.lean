import MiniC.Proofs.MemoryFaults
import MiniC.Proofs.RunOutcome

/-!
# Contracts

A contract says what is asked of every part of a run: an invariant of the states between nodes, what
is known of an expression from its evaluation on, and how a run may halt (`Contract`). A computation
fulfils it (`Contract.Fulfils`) if from every state with the invariant, in which some expressions
were evaluated, it ends in a state with the invariant in which these and some more were evaluated,
or halts as it may. Two evaluators can be followed at once: the second must then do what the first
does in the states that the contract allows.

Sequences and loops fulfil a contract if their parts do, and so do the statements of a program
(`Contract.fulfils_stmtStep`).
-/

set_option autoImplicit false

namespace MiniC

/-- What is asked of the parts of a run. -/
structure Contract (κ : Type) where
  /-- Holds of the states between nodes. -/
  inv : State κ → Prop
  /-- Known of an expression from its evaluation on, as long as the run is in the same frame. -/
  evaluated : ExprId → State κ → Prop
  /-- How, and in which state, a run may halt. -/
  halt : Halt → State κ → Prop

namespace Contract

open Run

variable {κ α β : Type}

/-- A state with the invariant in which everything still holds of the expressions evaluated
before. -/
structure Later (C : Contract κ) (s t : State κ) : Prop where
  inv : C.inv t
  evaluated : ∀ e, C.evaluated e s → C.evaluated e t

/-- From states with the invariant in which the expressions `given` were evaluated, both
computations do the same: they end in a later state in which those of `gained` were evaluated as
well, or halt as they may. -/
def Fulfils (C : Contract κ) (given gained : List ExprId) (x y : Run κ α) : Prop :=
  ∀ s, C.inv s → (∀ e ∈ given, C.evaluated e s) →
    y s = x s ∧ Ensures x s (fun _ t => C.Later s t ∧ ∀ e ∈ gained, C.evaluated e t) C.halt

variable {C : Contract κ} {s t u : State κ} {given gained : List ExprId}

theorem Later.refl (hs : C.inv s) : C.Later s s := ⟨hs, fun _ h => h⟩

theorem Later.trans (hst : C.Later s t) (htu : C.Later t u) : C.Later s u :=
  ⟨htu.inv, fun e he => htu.evaluated e (hst.evaluated e he)⟩

theorem Later.all (hst : C.Later s t) (hs : ∀ e ∈ given, C.evaluated e s) :
    ∀ e ∈ given, C.evaluated e t :=
  fun e he => hst.evaluated e (hs e he)

/-! ## Sequences and loops -/

/-- Two sequences whose parts do the same and end as they should. -/
theorem bind_of_agree {x y : Run κ α} {f g : α → Run κ β} {Q : α → State κ → Prop}
    {Q' : β → State κ → Prop} {E : Halt → State κ → Prop} (heq : y s = x s) (hx : Ensures x s Q E)
    (hfg : ∀ a t, Q a t → g a t = f a t ∧ Ensures (f a) t Q' E) :
    (y >>= g) s = (x >>= f) s ∧ Ensures (x >>= f) s Q' E := by
  constructor
  · rw [bind_apply, bind_apply, heq]
    cases hresult : x s with
    | ok a t => exact (hfg a t (hx.of_ok hresult)).1
    | error h t => rfl
  · rw [ensures_bind]
    exact hx.mono (fun a t ht => (hfg a t ht).2) fun _ _ h => h

namespace Fulfils

variable {x y : Run κ α} {f g : α → Run κ β} {more : List ExprId}

theorem pure (a : α) : C.Fulfils given [] (pure a : Run κ α) (pure a) :=
  fun _ hs _ => ⟨rfl, .refl hs, nofun⟩

theorem mono {given' gained' : List ExprId} (h : C.Fulfils given gained x y)
    (hgiven : ∀ e ∈ given, e ∈ given') (hgained : ∀ e ∈ gained', e ∈ gained) :
    C.Fulfils given' gained' x y := by
  intro s hs hknown
  obtain ⟨heq, hends⟩ := h s hs fun e he => hknown e (hgiven e he)
  exact ⟨heq, hends.mono (fun _ _ ht => ⟨ht.1, fun e he => ht.2 e (hgained e he)⟩) fun _ _ h => h⟩

theorem forget (h : C.Fulfils given gained x y) : C.Fulfils given [] x y :=
  h.mono (fun _ he => he) nofun

/-- What was known stays known. -/
theorem keep (h : C.Fulfils given [] x y) : C.Fulfils given given x y := by
  intro s hs hknown
  obtain ⟨heq, hends⟩ := h s hs hknown
  exact ⟨heq, hends.mono (fun _ _ ht => ⟨ht.1, ht.1.all hknown⟩) fun _ _ h => h⟩

theorem bind (hxy : C.Fulfils given gained x y)
    (hfg : ∀ a, C.Fulfils (given ++ gained) more (f a) (g a)) :
    C.Fulfils given more (x >>= f) (y >>= g) := by
  intro s hs hknown
  obtain ⟨heq, hends⟩ := hxy s hs hknown
  refine bind_of_agree heq hends fun a t ht => ?_
  -- what was known before the first part is still known after it
  obtain ⟨heq', hends'⟩ := hfg a t ht.1.inv (List.forall_mem_append.2 ⟨ht.1.all hknown, ht.2⟩)
  exact ⟨heq', hends'.mono (fun _ _ hu => ⟨ht.1.trans hu.1, hu.2⟩) fun _ _ h => h⟩

/-- Nothing is known of the first part. -/
theorem andThen (hxy : C.Fulfils given [] x y) (hfg : ∀ a, C.Fulfils given gained (f a) (g a)) :
    C.Fulfils given gained (x >>= f) (y >>= g) :=
  hxy.bind fun a => (hfg a).mono (by simp) fun _ he => he

/-- Nothing that the second part needs comes from the first. -/
theorem both {x' y' : Run κ β} (hxy : C.Fulfils given gained x y)
    (hxy' : C.Fulfils given more x' y') :
    C.Fulfils given (gained ++ more) (x >>= fun _ => x') (y >>= fun _ => y') := by
  refine hxy.bind fun _ s hs hknown => ?_
  obtain ⟨hgiven, hgained⟩ := List.forall_mem_append.1 hknown
  obtain ⟨heq, hends⟩ := hxy' s hs hgiven
  refine ⟨heq, hends.mono (fun _ t ht => ⟨ht.1, ?_⟩) fun _ _ h => h⟩
  exact List.forall_mem_append.2 ⟨ht.1.all hgained, ht.2⟩

/-- Nothing is known and nothing is found out. -/
theorem composes : Composes fun _ => C.Fulfils [] [] := ⟨pure, andThen⟩

/-- Expressions are evaluated one after the other. -/
theorem forM_evaluated {es : List ExprId} {f g : ExprId → Run κ Unit}
    (h : ∀ e ∈ es, C.Fulfils [] [e] (f e) (g e)) : C.Fulfils [] es (es.forM f) (es.forM g) := by
  induction es with
  | nil => exact pure _
  | cons e es ih => exact (h e (by simp)).both (ih fun c hc => h c (by simp [hc]))

/-- A computation that leaves the state as it is. -/
theorem of_readOnly (hx : ReadOnly x)
    (hhalt : ∀ s, C.inv s → (∀ e ∈ given, C.evaluated e s) → Ensures x s (fun _ _ => True) C.halt) :
    C.Fulfils given [] x x := by
  intro s hs hknown
  refine ⟨rfl, ((hx s).and (hhalt s hs hknown)).mono ?_ fun _ _ h => h.2⟩
  rintro _ t ⟨rfl, -⟩
  exact ⟨.refl hs, nofun⟩

end Fulfils

/-! ## Statements -/

/-- The two evaluators fulfil the contract on what lies directly inside a statement. -/
structure Parts (C : Contract κ) (image : Image) (ev ev' : Evaluator κ) (id : StmtId) : Prop where
  root : ∀ e ∈ image.program.roots id, C.Fulfils [] [e] (ev.expr e) (ev'.expr e)
  declared : ∀ d ∈ (image.program.stmt id).kind.declared, C.Fulfils [] [] (ev.decl d) (ev'.decl d)
  inner : ∀ i ∈ (image.program.stmt id).kind.inner, C.Fulfils [] [] (ev.stmt i) (ev'.stmt i)

/-- The contract admits what nodes do besides carrying out their parts: turning to a node, reading
what was evaluated, and halting for a reason other than that something is not there. -/
structure Admits (C : Contract κ) (image : Image) : Prop where
  focusOn : ∀ {s : State κ} (focus : Focus), C.inv s →
    C.Later s { s with stack := s.stack.modifyTop (·.focusOn focus) }
  value : ∀ {s : State κ} {e : ExprId}, C.inv s → C.evaluated e s →
    s.stack.top.expr? e = none →
      C.halt (.error (.fault (.memory (.unboundExpression e)) (image.locationIn s.stack))) s
  fault : ∀ {s : State κ} {cause : RuntimeFault} (loc : Location),
    cause.isLookup = false → C.inv s → C.halt (.error (.fault cause loc)) s

section Statements

variable {image : Image} {ev ev' : Evaluator κ} {id : StmtId} (hC : C.Admits image)
include hC

theorem Admits.fulfils_focusOn (focus : Focus) :
    C.Fulfils given [] (Run.focusOn focus : Run κ Unit) (Run.focusOn focus) :=
  fun _ hs _ => ⟨rfl, hC.focusOn focus hs, nofun⟩

theorem Admits.ensures_valueOf {e : ExprId} (hs : C.inv s) (he : C.evaluated e s) :
    Ensures (valueOf image e) s (fun value t => t = s ∧
      s.stack.top.expr? e = some value) C.halt := by
  rw [valueOf, ensures_bind, ensures_get]
  cases h : s.stack.top.expr? e with
  | some value =>
    rw [Frame.expr_of_expr? h]
    exact ⟨rfl, rfl⟩
  | none =>
    rw [Frame.expr_of_expr?_none h]
    exact hC.value hs he h

theorem Admits.fulfils_valueOf (e : ExprId) (he : e ∈ given) :
    C.Fulfils given [] (valueOf image e : Run κ Int32) (valueOf image e) :=
  .of_readOnly (readOnly_valueOf image e) fun _ hs hknown =>
    (hC.ensures_valueOf hs (hknown e he)).mono (fun _ _ _ => trivial) fun _ _ h => h

theorem Admits.fulfils_checkConversion (expected : CType) (source : ExprId) :
    C.Fulfils given [] (checkConversion image expected source : Run κ Unit)
      (checkConversion image expected source) := by
  refine .of_readOnly (readOnly_checkConversion image expected source) fun s hs _ => ?_
  unfold checkConversion
  dsimp only
  split
  · exact hC.fault _ rfl hs
  · trivial

variable (h : C.Parts image ev ev' id)
include h

theorem Parts.conditionHolds {e : ExprId} (he : e ∈ image.program.roots id) :
    C.Fulfils [] [] (conditionHolds image ev e) (conditionHolds image ev' e) :=
  (h.root e he).bind fun _ => (hC.fulfils_valueOf e (by simp)).andThen fun _ => .pure _

theorem Parts.returnValue {e : ExprId} (he : e ∈ image.program.roots id) :
    C.Fulfils [] [] (returnValue image ev (some e)) (returnValue image ev' (some e)) := by
  have hread : C.Fulfils [e] [] (valueOf image e : Run κ Int32) (valueOf image e) :=
    hC.fulfils_valueOf e (by simp)
  refine (h.root e he).bind fun _ => .andThen ?_ fun s => ?_
  · exact .of_readOnly readOnly_get fun _ _ _ => trivial
  dsimp only
  split
  · split
    · exact (hC.fulfils_checkConversion _ e).andThen fun _ => hread
    · exact hread
  · exact hread

/-- A statement fulfils the contract if its parts do. Only a loop can run out of rounds. -/
theorem fulfils_stmtStep (rounds : Nat)
    (hrounds : (image.program.stmt id).kind.isLoop = true → ∀ s, C.inv s → C.halt .outOfFuel s) :
    C.Fulfils [] [] (stmtStep image ev rounds id) (stmtStep image ev' rounds id) := by
  have hroot {e : ExprId} (he : e ∈ (image.program.stmt id).kind.exprs) :
      e ∈ image.program.roots id :=
    List.mem_append_left _ he
  refine Fulfils.composes.stmtStep rfl (hC.fulfils_focusOn _) ?_ fun hloop => ?_
  · exact {
      expr := fun e he => (h.root e (hroot he)).forget
      condition := fun e he => h.conditionHolds hC (hroot he)
      returned := fun e he => h.returnValue hC (hroot he)
      decl := h.declared
      stmt := h.inner }
  · exact Fulfils.composes.loops (fun s hs _ => ⟨rfl, hrounds hloop s hs⟩) rounds

end Statements

end Contract

end MiniC
