import MiniC.Proofs.Composition

/-!
# Outcomes of computations

`Run.Ensures x s Q E` says how the computation `x` ends from the state `s`: a result and its state
satisfy `Q`, a halt and its state satisfy `E`. A computation stays within a pair of relations
(`Run.Within`) if from every state it ends in one that is related to it, by the first relation after
a result and by the second after a halt. The relations of a `Run.Effects` compose, so staying within
them is proved part by part along the sequence of a computation (`Within.bind`), and what composes
is kept by loops and statements (`Within.composes`).
-/

set_option autoImplicit false

namespace MiniC.Run

variable {κ α β : Type}

/-! ## Results and halts -/

/-- From `s` the computation ends with a result that satisfies `Q`, or with a halt that satisfies
`E`. -/
def Ensures (x : Run κ α) (s : State κ) (Q : α → State κ → Prop) (E : Halt → State κ → Prop) :
    Prop :=
  match x s with
  | .ok a t => Q a t
  | .error h t => E h t

variable {s t : State κ} {Q : α → State κ → Prop} {E : Halt → State κ → Prop}

/-- What is known of all results holds of the one that was reached. -/
theorem Ensures.of_ok {x : Run κ α} {a : α} (hx : Ensures x s Q E) (h : x s = .ok a t) : Q a t := by
  rw [Ensures, h] at hx
  exact hx

/-- Results and halts may be said to satisfy less. -/
theorem Ensures.mono {x : Run κ α} {Q' : α → State κ → Prop} {E' : Halt → State κ → Prop}
    (hx : Ensures x s Q E) (hQ : ∀ a t, Q a t → Q' a t) (hE : ∀ h t, E h t → E' h t) :
    Ensures x s Q' E' := by
  unfold Ensures at hx ⊢
  split at hx
  · exact hQ _ _ hx
  · exact hE _ _ hx

/-- What is shown in two proofs holds together. -/
theorem Ensures.and {x : Run κ α} {Q' : α → State κ → Prop} {E' : Halt → State κ → Prop}
    (hx : Ensures x s Q E) (hx' : Ensures x s Q' E') :
    Ensures x s (fun a t => Q a t ∧ Q' a t) (fun h t => E h t ∧ E' h t) := by
  unfold Ensures at hx hx' ⊢
  split at hx <;> simp_all

@[simp] theorem ensures_pure {a : α} : Ensures (pure a) s Q E ↔ Q a s := Iff.rfl

@[simp] theorem ensures_throw {h : Halt} : Ensures (throw h : Run κ α) s Q E ↔ E h s := Iff.rfl

@[simp] theorem ensures_get {Q : State κ → State κ → Prop} : Ensures get s Q E ↔ Q s s := Iff.rfl

@[simp] theorem ensures_set {Q : PUnit → State κ → Prop} : Ensures (set t) s Q E ↔ Q ⟨⟩ t := Iff.rfl

@[simp] theorem ensures_modify {f : State κ → State κ} {Q : PUnit → State κ → Prop} :
    Ensures (modify f) s Q E ↔ Q ⟨⟩ (f s) := Iff.rfl

@[simp] theorem ensures_modifyStack {f : CallStack → CallStack} {Q : Unit → State κ → Prop} :
    Ensures (modifyStack f) s Q E ↔ Q () { s with stack := f s.stack } := Iff.rfl

@[simp] theorem ensures_fault {cause : RuntimeFault} {loc : Location} :
    Ensures (fault cause loc : Run κ α) s Q E ↔ E (.error (.fault cause loc)) s := Iff.rfl

/-- A second computation runs from where the first one came to, unless that halted. -/
theorem bind_apply (x : Run κ α) (f : α → Run κ β) (s : State κ) :
    (x >>= f) s = match x s with
      | .ok a t => f a t
      | .error h t => .error h t := by
  change EStateM.bind x f s = _
  unfold EStateM.bind
  cases x s <;> rfl

/-- A sequence has a result if both of its parts do. -/
theorem exists_of_bind_eq_ok {x : Run κ α} {f : α → Run κ β} {b : β} {s u : State κ}
    (h : (x >>= f) s = .ok b u) : ∃ a t, x s = .ok a t ∧ f a t = .ok b u := by
  rw [bind_apply] at h
  cases hx : x s with
  | ok a t =>
    rw [hx] at h
    exact ⟨a, t, rfl, h⟩
  | error halt t =>
    rw [hx] at h
    cases h

theorem get_apply (s : State κ) : (get : Run κ (State κ)) s = .ok s s := rfl

theorem set_apply (s t : State κ) : (set t : Run κ PUnit) s = .ok ⟨⟩ t := rfl

@[simp] theorem ensures_bind {x : Run κ α} {f : α → Run κ β} {Q : β → State κ → Prop} :
    Ensures (x >>= f) s Q E ↔ Ensures x s (fun a t => Ensures (f a) t Q E) E := by
  unfold Ensures
  rw [bind_apply]
  cases x s <;> rfl

@[simp] theorem ensures_onOwnStack {x : Run κ α} :
    Ensures (onOwnStack x) s Q E ↔ Ensures x s Q E := by
  rw [onOwnStack_eq]

/-! ## Computations that only read -/

/-- A computation that ends in the state it began in. -/
def ReadOnly (x : Run κ α) : Prop :=
  ∀ s, Ensures x s (fun _ t => t = s) (fun _ t => t = s)

/-- After a computation that only reads the state is the one from before. -/
theorem ReadOnly.ensures_bind {x : Run κ α} {f : α → Run κ β} {Q : β → State κ → Prop}
    (hx : ReadOnly x) (hQ : ∀ a, Ensures (f a) s Q E) (hE : ∀ h, E h s) :
    Ensures (x >>= f) s Q E := by
  rw [Run.ensures_bind]
  refine (hx s).mono ?_ ?_
  · rintro a t rfl
    exact hQ a
  · rintro h t rfl
    exact hE h

theorem ReadOnly.pure (a : α) : ReadOnly (pure a : Run κ α) := fun _ => rfl

theorem ReadOnly.bind {x : Run κ α} {f : α → Run κ β} (hx : ReadOnly x) (hf : ∀ a, ReadOnly (f a)) :
    ReadOnly (x >>= f) :=
  fun s => hx.ensures_bind (fun a => hf a s) fun _ => rfl

theorem readOnly_get : ReadOnly (get : Run κ (State κ)) := fun _ => rfl

/-- A fault leaves the state as it was when it was raised. -/
theorem readOnly_fault (cause : RuntimeFault) (loc : Location) :
    ReadOnly (fault cause loc : Run κ α) := fun _ => rfl

/-- To only read is kept by all ways of putting computations together. -/
theorem ReadOnly.composes : Composes (Alone fun _ (x : Run κ _) => ReadOnly x) := ⟨.pure, .bind⟩

theorem ReadOnly.mapM {x : α → Run κ β} (hx : ∀ a, ReadOnly (x a)) (as : List α) :
    ReadOnly (as.mapM x) :=
  composes.alone (composes.mapM as fun a _ => hx a)

theorem ReadOnly.forM {x : α → Run κ Unit} (hx : ∀ a, ReadOnly (x a)) (as : List α) :
    ReadOnly (as.forM x) :=
  composes.alone (composes.forM as fun a _ => hx a)

variable (image : Image)

theorem readOnly_faultHere (cause : RuntimeFault) : ReadOnly (faultHere image cause : Run κ α) :=
  fun _ => rfl

/-- The answer of a memory is used or reported, and the state stays. -/
theorem readOnly_orFault (answer : Except MemoryFault α) :
    ReadOnly (orFault image answer : Run κ α) := by
  cases answer <;> exact fun _ => rfl

/-- Asking for the value of an expression changes nothing, also where it has none. -/
theorem readOnly_valueOf (e : ExprId) : ReadOnly (valueOf image e : Run κ Int32) :=
  readOnly_get.bind fun _ => readOnly_orFault image _

/-- The value of an expression is the one it has in the top frame. -/
theorem valueOf_of_expr? {e : ExprId} {value : Int32} (h : s.stack.top.expr? e = some value) :
    valueOf image e s = .ok value s := by
  change orFault image (s.stack.top.expr e) s = _
  rw [Frame.expr_of_expr? h]
  rfl

/-- Asking for the value of a variable changes nothing, also where it has none. -/
theorem readOnly_valueOfDecl (d : DeclId) : ReadOnly (valueOfDecl image d : Run κ Int32) := by
  refine readOnly_get.bind fun s => ?_
  dsimp only
  split
  · exact ReadOnly.pure _
  · exact readOnly_faultHere image _

/-- The value of a variable is that in the top frame, or else that in the frame of the file. -/
theorem valueOfDecl_of_some {d : DeclId} {value : Int32}
    (h : (s.stack.top.decl? d).or (s.stack.global.decl? d) = some value) :
    valueOfDecl image d s = .ok value s := by
  rw [valueOfDecl, bind_apply, get_apply]
  dsimp only
  rw [h]
  rfl

/-- A variable with no value in the top frame and in that of the file is reported by its name. -/
theorem valueOfDecl_of_none {d : DeclId}
    (h : (s.stack.top.decl? d).or (s.stack.global.decl? d) = none) :
    valueOfDecl image d s =
      .error (.error (.fault (.unboundDeclaration (image.program.decl d).name)
        (image.locationIn s.stack))) s := by
  rw [valueOfDecl, bind_apply, get_apply]
  dsimp only
  rw [h]
  rfl

/-- The check of a conversion only accepts or reports. -/
theorem readOnly_checkConversion (expected : CType) (source : ExprId) :
    ReadOnly (checkConversion image expected source : Run κ Unit) := by
  unfold checkConversion
  dsimp only
  split
  · exact readOnly_fault _ _
  · exact ReadOnly.pure _

theorem readOnly_readReturned (e : ExprId) : ReadOnly (readReturned image e : Run κ Int32) := by
  apply readOnly_get.bind
  intro s
  split
  · dsimp only
    split
    · exact (readOnly_checkConversion image _ e).bind fun _ => readOnly_valueOf image e
    · exact readOnly_valueOf image e
  · exact readOnly_valueOf image e

/-- The number of arguments is only checked. -/
theorem readOnly_checkArity (function : String) (expected got : Nat) :
    ReadOnly (checkArity image function expected got : Run κ Unit) := by
  unfold checkArity
  split
  · exact readOnly_faultHere image _
  · exact ReadOnly.pure _

/-- Reading a place in memory changes nothing. -/
theorem readOnly_load (place : Place) : ReadOnly (load image place : Run κ Int32) := by
  refine readOnly_get.bind fun s => ?_
  cases place <;> exact readOnly_orFault image _

/-- Finding the place of an element reads base and index only. -/
theorem readOnly_elementPlace (base index : ExprId) :
    ReadOnly (elementPlace image base index : Run κ Place) :=
  (readOnly_valueOf image base).bind fun _ =>
    (readOnly_valueOf image index).bind fun _ => ReadOnly.pure _

/-! ## Computations within a pair of relations -/

/-- From every state the computation ends in one related to it, by `R` after a result and by `E`
after a halt. -/
def Within (R E : State κ → State κ → Prop) (x : Run κ α) : Prop :=
  ∀ s, Ensures x s (fun _ t => R s t) (fun _ t => E s t)

/-- Relations between the states before and after that can be composed along a sequence. -/
structure Effects (R E : State κ → State κ → Prop) : Prop where
  refl : ∀ s, R s s
  trans : ∀ {s t u}, R s t → R t u → R s u
  halted : ∀ s, E s s
  after : ∀ {s t u}, R s t → E t u → E s u

namespace Within

variable {R E : State κ → State κ → Prop}

/-- Both relations may be weakened. -/
theorem mono {R' E' : State κ → State κ → Prop} {x : Run κ α} (hx : Within R E x)
    (hR : ∀ s t, R s t → R' s t) (hE : ∀ s t, E s t → E' s t) : Within R' E' x :=
  fun s => (hx s).mono (fun _ t => hR s t) fun _ t => hE s t

variable (c : Effects R E)
include c

theorem pure (a : α) : Within R E (pure a : Run κ α) := fun s => c.refl s

/-- A computation that halts at once only has to satisfy the second relation. -/
theorem throw (h : Halt) : Within R E (throw h : Run κ α) := fun s => c.halted s

/-- What only reads stays within all relations of this kind. -/
theorem of_readOnly {x : Run κ α} (hx : ReadOnly x) : Within R E x := by
  intro s
  refine (hx s).mono ?_ ?_
  · rintro _ t rfl
    exact c.refl t
  · rintro _ t rfl
    exact c.halted t

theorem bind {x : Run κ α} {f : α → Run κ β} (hx : Within R E x) (hf : ∀ a, Within R E (f a)) :
    Within R E (x >>= f) := by
  intro s
  rw [ensures_bind]
  refine (hx s).mono (fun a t hst => ?_) fun _ _ h => h
  exact (hf a t).mono (fun _ _ htu => c.trans hst htu) fun _ _ htu => c.after hst htu

/-- Staying within the relations composes. -/
theorem composes : Composes (Alone fun α (x : Run κ α) => Within R E x) := ⟨pure c, bind c⟩

/-- A list of computations stays within the relations if each of them does. -/
theorem forM {x : α → Run κ Unit} (as : List α) (hx : ∀ a ∈ as, Within R E (x a)) :
    Within R E (as.forM x) := (composes c).alone ((composes c).forM as hx)

/-- A loop stays within the relations if its condition and its action do. -/
theorem whileHolds {condition : Run κ Bool} {action : Run κ Flow} (hc : Within R E condition)
    (ha : Within R E action) (rounds : Nat) : Within R E (whileHolds condition action rounds) :=
  (composes c).alone ((composes c).loops (throw c _) rounds _ _ _ _ hc ha)

end Within

end MiniC.Run
