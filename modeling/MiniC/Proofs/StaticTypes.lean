import MiniC.Proofs.References

/-!
# Static types in drafts

Every expression of a draft has the type that its form gives it from the types of its operands and
of the declarations that it names, as they stand in the draft; a cast has the type that is written
at its place (`Program.Typed`). Later steps keep this: they leave expressions as they are, and a
declaration that is given an initialiser, parameters or a body keeps its type.
-/

set_option autoImplicit false

namespace MiniC

/-- The declarations give the same types to a reference and to a call. -/
structure Decl.SameTypes (d d' : Decl) : Prop where
  type : d.type = d'.type
  returnType? : d.returnType? = d'.returnType?

namespace Decl

theorem SameTypes.refl (d : Decl) : d.SameTypes d := ⟨rfl, rfl⟩

theorem sameTypes_withInit (init : ExprId) (d : Decl) : (d.withInit init).SameTypes d := by
  rcases d with ⟨_, _ | _, _⟩ <;> exact ⟨rfl, rfl⟩

theorem sameTypes_withParams (params : List DeclId) (loc : Location) (d : Decl) :
    (d.withParams params loc).SameTypes d := by
  rcases d with ⟨_, _ | _, _⟩ <;> exact ⟨rfl, rfl⟩

theorem sameTypes_withBody (body : StmtId) (d : Decl) : (d.withBody body).SameTypes d := by
  rcases d with ⟨_, _ | _, _⟩ <;> exact ⟨rfl, rfl⟩

end Decl

namespace Program

variable {p q : Program} {tokens : List Token}

/-- Every expression of the program has its static type. -/
def Typed (p : Program) (tokens : List Token) : Prop :=
  ∀ e : ExprId, e.index < p.exprs.size → p.Gives tokens (p.expr e)

theorem typed_empty : empty.Typed tokens := fun _ h => absurd h (Nat.not_lt_zero _)

/-- The type of an expression depends on the types of its operands and of the declarations that it
names. -/
theorem typeRule?_congr {kind : ExprKind} (hoperands : ∀ c ∈ kind.operands, q.expr c = p.expr c)
    (hnames : ∀ d ∈ kind.names, (q.decl d).SameTypes (p.decl d)) :
    q.typeRule? kind = p.typeRule? kind := by
  cases kind with
  | intLiteral value => rfl
  | declRef d => exact congrArg some (hnames d (by simp [ExprKind.names])).type
  | unary op operand => simp only [typeRule?, hoperands operand (by simp [ExprKind.operands])]
  | binary op lhs rhs =>
    have hl := hoperands lhs (by simp [ExprKind.operands])
    have hr := hoperands rhs (by simp [ExprKind.operands])
    simp only [typeRule?, hl, hr]
  | call callee args => exact (hnames callee (by simp [ExprKind.names])).returnType?
  | subscript base index => simp only [typeRule?, hoperands base (by simp [ExprKind.operands])]
  | cast operand => rfl
  | paren inner => simp only [typeRule?, hoperands inner (by simp [ExprKind.operands])]
  | sizeOf type => rfl

theorem Gives.congr {node : Expr} (h : p.Gives tokens node)
    (hoperands : ∀ c ∈ node.kind.operands, q.expr c = p.expr c)
    (hnames : ∀ d ∈ node.kind.names, (q.decl d).SameTypes (p.decl d)) : q.Gives tokens node := by
  rcases h with hrule | hcast
  · exact .inl ((typeRule?_congr hoperands hnames).trans hrule)
  · exact .inr hcast

/-- Adding an expression of its type. -/
theorem Typed.pushExpr (h : p.Typed tokens) (hp : p.Bounded) {node : Expr}
    (hnode : p.Gives tokens node) (hoperands : ∀ c ∈ node.kind.operands, c.index < p.exprs.size) :
    (p.pushExpr node).1.Typed tokens := by
  intro e he
  by_cases heq : e = (p.pushExpr node).2
  · rw [heq, expr_pushExpr_self]
    apply hnode.congr
    · exact fun c hc => expr_pushExpr_of_lt p node (hoperands c hc)
    · exact fun d _ => .refl _
  · have hne : e.index ≠ p.exprs.size := fun hindex => heq (congrArg ExprId.mk hindex)
    have hsize : (p.pushExpr node).1.exprs.size = p.exprs.size + 1 := Array.size_push _
    have hlt : e.index < p.exprs.size := by omega
    rw [expr_pushExpr_of_lt p node hlt]
    apply (h e hlt).congr
    · exact fun c hc => expr_pushExpr_of_lt p node (Nat.lt_trans (hp.operands hc) hlt)
    · exact fun d _ => .refl _

/-- A program with the same expressions whose declarations keep their types. -/
theorem Typed.of_sameTypes (h : p.Typed tokens) (hp : p.Bounded)
    (hdecls : ∀ d : DeclId, d.index < p.decls.size → (q.decl d).SameTypes (p.decl d))
    (hexprs : q.exprs = p.exprs) : q.Typed tokens := by
  have hexpr (e : ExprId) : q.expr e = p.expr e := by rw [expr, hexprs, expr]
  intro e he
  rw [hexprs] at he
  rw [hexpr]
  apply (h e he).congr
  · exact fun c _ => hexpr c
  · exact fun d hd => hdecls d (hp.names hd)

theorem Typed.pushDecl (h : p.Typed tokens) (hp : p.Bounded) (new : Decl) :
    (p.pushDecl new).1.Typed tokens := by
  refine h.of_sameTypes hp (fun d hd => ?_) rfl
  have hne : d ≠ (p.pushDecl new).2 := by
    rintro rfl
    exact Nat.lt_irrefl _ hd
  rw [decl_pushDecl_of_ne p new hne]
  exact .refl _

theorem Typed.modifyDecl (h : p.Typed tokens) (hp : p.Bounded) (d : DeclId) {f : Decl → Decl}
    (hf : ∀ d, (f d).SameTypes d) : (p.modifyDecl d f).Typed tokens := by
  refine h.of_sameTypes hp (fun d' hd' => ?_) rfl
  by_cases heq : d' = d
  · subst heq
    rw [decl_modifyDecl_self p f hd']
    exact hf _
  · rw [decl_modifyDecl_of_ne p f heq]
    exact .refl _

end Program

namespace Draft

variable {tokens : List Token} {s t : Draft}

/-- Every step of the construction keeps the types of expressions. -/
theorem Step.typed (h : Step tokens s t) (hs : s.Sound tokens) (htyped : s.program.Typed tokens) :
    t.program.Typed tokens := by
  have hbounded := hs.bounded
  cases h with
  | expr node names gives type =>
    apply htyped.pushExpr hbounded gives
    intro c hc
    have hmem : Part.expr c ∈ node.kind.parts := List.mem_map_of_mem hc
    exact (hs.due (Multiset.mem_add.2 (.inl (Multiset.mem_coe.2 hmem)))).1
  | sizeOf last sizes =>
    apply htyped.pushExpr hbounded (.inl rfl)
    simp [ExprKind.operands]
  | stmt node => exact htyped.of_sameTypes hbounded (fun d _ => .refl _) rfl
  | newVariable name type storage loc => exact htyped.pushDecl hbounded _
  | init e lt kind => exact htyped.modifyDecl hbounded _ (Decl.sameTypes_withInit e)
  | @newFunction _ _ name returnType params loc plain declared =>
    have hpush := htyped.pushDecl hbounded ⟨name, .function returnType params none, loc⟩
    exact hpush.of_sameTypes (hbounded.pushDecl fun q hq => (declared q hq).lt)
      (fun d _ => .refl _) rfl
  | params loc lt kind declared =>
    exact htyped.modifyDecl hbounded _ (Decl.sameTypes_withParams _ loc)
  | body id lt kind => exact htyped.modifyDecl hbounded _ (Decl.sameTypes_withBody id)
  | item d => exact htyped.of_sameTypes hbounded (fun d _ => .refl _) rfl

theorem Reachable.typed (h : Reachable tokens s) : s.program.Typed tokens := by
  have hboth : s.Sound tokens ∧ s.program.Typed tokens := by
    apply h.induction (P := fun draft => draft.Sound tokens ∧ draft.program.Typed tokens)
    · exact ⟨⟨balanced_empty, Program.bounded_empty⟩, Program.typed_empty⟩
    · rintro s t hstep ⟨hs, htyped⟩
      exact ⟨hstep.sound hs, hstep.typed hs htyped⟩
  exact hboth.2

/-! ## Results of functions -/

/-- Every step of the construction keeps that no function returns an array. -/
theorem Step.returnTypes (h : Step tokens s t)
    (hs : ∀ f, ∀ type ∈ (s.program.decl f).returnType?, type.isArray = false) :
    ∀ f, ∀ type ∈ (t.program.decl f).returnType?, type.isArray = false := by
  -- a new declaration leaves the return types of the others
  have hpush {p : Program} {new : Decl}
    (hp : ∀ f, ∀ type ∈ (p.decl f).returnType?, type.isArray = false)
      (hnew : ∀ type ∈ new.returnType?, type.isArray = false) :
      ∀ f, ∀ type ∈ ((p.pushDecl new).1.decl f).returnType?, type.isArray = false := by
    intro f
    by_cases heq : f = (p.pushDecl new).2
    · rw [heq, Program.decl_pushDecl_self]
      exact hnew
    · rw [Program.decl_pushDecl_of_ne p new heq]
      exact hp f
  -- and no change of a declaration touches its return type
  have hmodify {p : Program} {d : DeclId} {g : Decl → Decl}
      (hp : ∀ f, ∀ type ∈ (p.decl f).returnType?, type.isArray = false)
        (lt : d.index < p.decls.size)
      (hg : (g (p.decl d)).SameTypes (p.decl d)) :
      ∀ f, ∀ type ∈ ((p.modifyDecl d g).decl f).returnType?, type.isArray = false := by
    intro f
    by_cases heq : f = d
    · rw [heq, Program.decl_modifyDecl_self p g lt, hg.returnType?]
      exact hp d
    · rw [Program.decl_modifyDecl_of_ne p g heq]
      exact hp f
  cases h with
  | expr _ _ _ _ | sizeOf _ _ | stmt _ | item _ => exact hs
  | newVariable name type storage loc => exact hpush hs nofun
  | init e lt _ => exact hmodify hs lt (Decl.sameTypes_withInit e _)
  | newFunction name returnType loc plain _ =>
    refine hpush hs fun type htype => ?_
    cases htype
    exact plain
  | params loc lt _ _ => exact hmodify hs lt (Decl.sameTypes_withParams _ loc _)
  | body id lt _ => exact hmodify hs lt (Decl.sameTypes_withBody id _)

theorem Reachable.returnTypes (h : Reachable tokens s) :
    ∀ f, ∀ type ∈ (s.program.decl f).returnType?, type.isArray = false := by
  refine h.induction (P := fun draft => ∀ f, ∀ type ∈ (draft.program.decl f).returnType?,
    type.isArray = false) (fun f type htype => ?_) Step.returnTypes
  simp [Program.decl, Program.empty, Array.getD, default, Decl.returnType?] at htype

end Draft

end MiniC
