import MiniC.Proofs.DeclaredTypes
import MiniC.Proofs.FailingPlaces

/-!
# Complete types

What a program that was read says of its variables leaves no run without a value for one of them:
every variable is an integer, a pointer or an array (`DeclKind.Complete`), so a name used as a value
is never reported for its type (`Program.declared_types_are_complete`).

The elements of an array are integers or pointers exactly if its base is not `void` without stars.
The check for `void` looks at the type with its brackets, so an array of `void` is declared like any
other (`Program.void_array_is_declared`).
-/

set_option autoImplicit false

namespace MiniC

/-- What a declaration of a variable says: its type has values, the elements of an array are
integers or pointers unless its base is `void` without stars, an array has elements unless it is a
parameter, and neither an array nor a parameter has an initialiser. -/
structure DeclKind.Complete (type : CType) (init : Option ExprId) (storage : Storage) : Prop where
  values : type.isInteger = true ∨ type.isPointer = true ∨ type.isArray = true
  elements : type.isArray = true →
    (type.element.isInteger = true ∨ type.element.isPointer = true ↔
      ∀ length?, type ≠ .value .void 0 length?)
  length : storage ≠ .param → ∀ length, type.length? = some length → 0 < length
  init : type.isArray = true ∨ storage = .param → init = none

/-- The elements of an array have the type before the brackets, which has no values exactly if it is
`void` without stars. -/
theorem CType.element_of_isArray {type : CType} (h : type.isArray = true) :
    type.element.isInteger = true ∨ type.element.isPointer = true ↔
      ∀ length?, type ≠ .value .void 0 length? := by
  rcases type with ⟨base, pointers, _ | length⟩ | result
  · cases h
  · cases pointers with
    | succ n => exact iff_of_true (.inr rfl) fun _ => nofun
    | zero =>
      cases base with
      | int | char => exact iff_of_true (.inl rfl) fun _ => nofun
      | void =>
        refine iff_of_false ?_ fun hne => hne (some length) rfl
        rintro (hinteger | hpointer)
        · cases hinteger
        · cases hpointer
  · cases h

/-- A declaration that the checks let pass is complete. -/
theorem DeclKind.ProperVariable.complete {type : CType} {init : Option ExprId} {storage : Storage}
    (h : ProperVariable type init storage) : Complete type init storage where
  values := CType.hasValues_of_proper h.object h.notVoid
  elements := CType.element_of_isArray
  length hstorage _ hlength := Nat.pos_of_ne_zero fun hzero => h.length hstorage (hzero ▸ hlength)
  init h' := h'.elim h.array h.param

/-! ## Reports of variables -/

/-- A construct without a meaning that is no variable. -/
def Unsupported.NoVariable (construct : Unsupported) : Prop :=
  ∀ name type, construct ≠ .reference name type

/-- A halt that does not say that a variable has a type without values. -/
def Halt.NoVariable (halt : Halt) : Prop :=
  ∀ name type loc, halt ≠ .error (.fault (.unsupported (.reference name type)) loc)

/-- What an expression is whatever the values of its operands is no variable. -/
theorem Image.noVariable_of_unsupported? {image : Image} {e : ExprId} {construct : Unsupported}
    (h : image.unsupported? e = some construct) : construct.NoVariable := by
  rintro name type rfl
  unfold unsupported? at h
  split at h
  case h_4 | h_6 => split at h <;> cases h
  case h_7 =>
    dsimp only at h
    split at h <;> cases h
  all_goals cases h

/-- Where every variable has a type with values, none is reported. -/
theorem Image.Meaningless.noVariable {image : Image} (hp : image.program.ProperDecls) {e : ExprId}
    {construct : Unsupported} (h : image.Meaningless e construct) : construct.NoVariable := by
  cases h with
  | construct h => exact noVariable_of_unsupported? h
  | @reference d type init storage _ hd htype =>
    have hproper := hp d type init storage hd
    rcases CType.hasValues_of_proper hproper.object hproper.notVoid with h | h | h
      <;> simp [h] at htype

theorem Halt.BlamedOn.noVariable {image : Image} (hp : image.program.ProperDecls)
    {e : ExprId} {halt : Halt} (h : halt.BlamedOn image e) : halt.NoVariable := by
  rintro name type loc rfl
  exact (h.2 _ rfl).noVariable hp name type rfl

namespace Program

/-- Declared types are complete. Every variable of a program that was read, also a parameter, is an
integer, a pointer or an array; the elements of an array are integers or pointers, unless it was
declared as an array of `void`; it has elements, unless it is a parameter; and neither arrays nor
parameters have initialisers. So no run, under whatever configuration and from whatever state,
reports that a variable has a type without values, or fails for that. -/
theorem declared_types_are_complete {source : String} {p : Program} (h : parse source = .ok p) :
    (∀ d type init storage, (p.decl d).kind = .variable type init storage →
      DeclKind.Complete type init storage) ∧
      ∀ {κ : Type} [Console κ] (config : Config) (fuel : Nat) (s : State κ),
        (∀ d ∈ s.diagnostics, d.construct.NoVariable) →
          Run.Ensures (Run.run (Image.load p config) fuel) s
            (fun _ t => ∀ d ∈ t.diagnostics, d.construct.NoVariable)
            fun halt t => (∀ d ∈ t.diagnostics, d.construct.NoVariable) ∧ halt.NoVariable := by
  have hproper : p.ProperDecls := properDecls_of_parse h
  refine ⟨fun d type init storage hk => (hproper d type init storage hk).complete, ?_⟩
  intro κ _ config fuel s hs
  -- expressions need not belong to any frame here
  let S : (Image.load p config).Scene := {
    encloses := fun _ _ => True
    kept := fun d => d.construct.NoVariable
    operand := fun _ _ => trivial
    body := fun _ _ => trivial
    report := fun hreport => hreport.noVariable hproper }
  refine (Run.ensures_run_points S ⟨hs, rfl⟩ (fun _ _ _ _ => trivial) fuel).mono
    (fun _ _ ht => ht) ?_
  rintro halt t ⟨ht, ⟨rfl, -⟩ | ⟨entry, -, -, rfl⟩ | ⟨-, rfl | ⟨e, -, -, hblamed⟩⟩⟩
  · exact ⟨ht, nofun⟩
  · exact ⟨ht, nofun⟩
  · exact ⟨ht, nofun⟩
  · exact ⟨ht, hblamed.noVariable hproper⟩

/-- Variables of all three kinds, whose values are read under strict settings. -/
theorem declared_types_of_sum :
    ∃ p, parse
        "int *g; int sum(int a[], char n) { return a[0] + n; } int main() { int b[2]; return sum(b, 3); }" = .ok p ∧
      (∀ d type init storage, (p.decl d).kind = .variable type init storage →
        DeclKind.Complete type init storage) ∧
        Run.Ensures (Run.run (Image.load p { strict := true }) 40)
          (.initial (Image.load p { strict := true }) (Scripted.ofInput []))
          (fun _ t => ∀ d ∈ t.diagnostics, d.construct.NoVariable)
          fun halt t => (∀ d ∈ t.diagnostics, d.construct.NoVariable) ∧ halt.NoVariable := by
  obtain ⟨p, hp, -⟩ : ∃ p, parse
        "int *g; int sum(int a[], char n) { return a[0] + n; } int main() { int b[2]; return sum(b, 3); }" = .ok p ∧
        True := exists_of_parse (by decide +kernel)
  obtain ⟨hdecls, hruns⟩ := declared_types_are_complete hp
  exact ⟨p, hp, hdecls, hruns _ 40 _ fun d hd => absurd hd (by simp [State.initial])⟩

/-- An array of `void` is declared, whose elements are neither integers nor pointers. -/
theorem void_array_is_declared :
    ∃ p, parse "void a[2]; int main() { return 0; }" = .ok p ∧
      ¬ ∀ d type init storage, (p.decl d).kind = .variable type init storage → type.isArray = true →
        type.element.isInteger = true ∨ type.element.isPointer = true := by
  obtain ⟨p, hp, htype⟩ : ∃ p, parse "void a[2]; int main() { return 0; }" = .ok p ∧
      (p.decl ⟨0⟩).type = .value .void 0 (some 2) := exists_of_parse (by decide +kernel)
  refine ⟨p, hp, fun hclaim => ?_⟩
  cases hk : (p.decl ⟨0⟩).kind with
  | function returnType _ _ =>
    rw [Decl.type, hk] at htype
    cases htype
  | «variable» type init storage =>
    rw [Decl.type, hk] at htype
    cases htype
    rcases hclaim ⟨0⟩ _ init storage hk rfl with h | h <;> cases h

end Program

end MiniC
