import MiniC.Proofs.ParserOutcome
import MiniC.Proofs.Relabelling

/-!
# Expressions with other names and places

No parser looks at a place, and none looks at a name but to find the declaration of the same name.
So a parser does the same on tokens with other names and places: it fails with the same error, or
succeeds with the same result, up to these names and places (`Parser.Natural`). A parser that does
not mention any itself is blind to them (`Parser.Blind`); that of expressions is
(`Parser.blind_expression`).
-/

set_option autoImplicit false

namespace MiniC

/-! ## Lexemes and scopes -/

namespace Lexeme

variable {σ : Renaming}

/-- Different lexemes stay different under a renaming. -/
theorem rename_injective : Function.Injective (rename σ) := by
  intro l l' h
  cases l <;> cases l' <;> simp only [rename, reduceCtorEq, identifier.injEq,
    integer.injEq, keyword.injEq, punct.injEq] at h ⊢
  all_goals first
    | exact h
    | exact σ.injective h

/-- Lexemes that a renaming leaves alone are recognised in either naming. -/
theorem rename_eq_iff {l x : Lexeme} (hx : x.rename σ = x) : l.rename σ = x ↔ l = x := by
  constructor
  · intro h
    exact rename_injective (h.trans hx.symm)
  · rintro rfl
    exact hx

@[simp] theorem baseType?_rename (l : Lexeme) : (l.rename σ).baseType? = l.baseType? := by
  cases l <;> rfl

@[simp] theorem operator?_rename (level : BinaryLevel) (l : Lexeme) :
    level.operator? (l.rename σ) = level.operator? l := by
  cases l <;> rfl

end Lexeme

namespace Scopes

variable {σ : Renaming}

/-- A renamed scope has the declaration of a name under the new name. -/
theorem lookup_rename (scope : Scope) (x : String) :
    (scope.rename σ).lookup (σ.name x) = scope.lookup x := by
  induction scope with
  | nil => rfl
  | cons entry scope ih =>
    rw [Scope.rename, List.map_cons, List.lookup_cons, List.lookup_cons]
    by_cases h : x = entry.1
    · simp [h]
    · -- different names stay different, so the search goes on in either naming
      have h' : σ.name x ≠ σ.name entry.1 := fun heq => h (σ.injective heq)
      rw [beq_false_of_ne h, beq_false_of_ne h']
      exact ih

/-- A renamed name resolves to the declaration that the name resolves to. -/
theorem resolve?_rename (scopes : Scopes) (x : String) :
    (scopes.rename σ).resolve? (σ.name x) = scopes.resolve? x := by
  have hscopes : (scopes.rename σ).inner ++ [(scopes.rename σ).file] =
      (scopes.inner ++ [scopes.file]).map (Scope.rename σ) := by simp [rename]
  rw [resolve?, hscopes, List.findSome?_map, resolve?]
  congr 1
  funext scope
  exact lookup_rename scope x

theorem innermost_rename (scopes : Scopes) :
    (scopes.rename σ).innermost = scopes.innermost.rename σ := by
  rcases scopes with ⟨_ | _, _⟩ <;> rfl

/-- Declaring a name and renaming the scopes may be done in either order. -/
theorem declare_rename (scopes : Scopes) (x : String) (d : DeclId) :
    (scopes.rename σ).declare (σ.name x) d = (scopes.declare x d).rename σ := by
  rcases scopes with ⟨_ | _, _⟩ <;> rfl

theorem leave_rename (scopes : Scopes) : (scopes.rename σ).leave = scopes.leave.rename σ := by
  rcases scopes with ⟨_ | _, _⟩ <;> rfl

end Scopes

/-! ## Natural parsers -/

/-- The outcome of a parser with other names and places; the function says what becomes of the
result. -/
def Parser.relabelOutcome {α β : Type} (ρ : Relabelling) (g : α → β) :
    Except ParseError (α × ParserState) → Except ParseError (β × ParserState)
  | .ok (a, t) => .ok (g a, t.relabel ρ)
  | .error e => .error (e.relabel ρ)

namespace Parser

variable {α α' β β' : Type} {ρ : Relabelling}

/-- With other names and places, the second parser does what the first one does. -/
def Natural (ρ : Relabelling) (g : α → β) (x : Parser α) (y : Parser β) : Prop :=
  ∀ s : ParserState, y (s.relabel ρ) = relabelOutcome ρ g (x s)

/-- The parser does the same with other names and places. -/
abbrev Blind (ρ : Relabelling) (x : Parser α) : Prop := Natural ρ id x x

/-! ## Sequences -/

section Sequences

variable {g : α → β} {x : Parser α} {y : Parser β}

theorem natural_pure (a : α) : Natural ρ g (pure a) (pure (g a)) := fun _ => rfl

theorem blind_pure (a : α) : Blind ρ (pure a) := fun _ => rfl

/-- A fault is raised with the new names at the new place. -/
theorem natural_fail (fault : ParseFault) (loc : Location) :
    Natural ρ g (fail fault loc) (fail (fault.rename ρ.toRenaming) (ρ.place loc)) := fun _ => rfl

/-- Parsers that are natural may be carried out one after the other. -/
theorem Natural.bind {h : α' → β'} {f : α → Parser α'} {k : β → Parser β'} (hxy : Natural ρ g x y)
    (hfk : ∀ a, Natural ρ h (f a) (k (g a))) : Natural ρ h (x >>= f) (y >>= k) := by
  intro s
  change Except.bind (y (s.relabel ρ)) (fun r => k r.1 r.2) =
    relabelOutcome ρ h (Except.bind (x s) fun r => f r.1 r.2)
  rw [hxy s]
  cases x s with
  | error e => rfl
  | ok r => exact hfk r.1 r.2

theorem Natural.map {f : α → α'} {k : β → β'} {h : α' → β'} (hxy : Natural ρ g x y)
    (hfk : ∀ a, k (g a) = h (f a)) : Natural ρ h (f <$> x) (k <$> y) := by
  intro s
  change Except.bind (y (s.relabel ρ)) (fun r => .ok (k r.1, r.2)) =
    relabelOutcome ρ h (Except.bind (x s) fun r => .ok (f r.1, r.2))
  rw [hxy s]
  cases x s with
  | error e => rfl
  | ok r => exact congrArg (fun b => Except.ok (b, r.2.relabel ρ)) (hfk r.1)

theorem Natural.ite {c : Prop} [Decidable c] {x' : Parser α} {y' : Parser β} (hxy : Natural ρ g x y)
    (hxy' : Natural ρ g x' y') : Natural ρ g (if c then x else x') (if c then y else y') := by
  split
  · exact hxy
  · exact hxy'

/-- Some things are the same in a state with other names and places. -/
theorem natural_get_bind {f f' : ParserState → Parser α}
    (h : ∀ s, Natural ρ id (f s) (f' (s.relabel ρ))) :
    Natural ρ id (get >>= f) (get >>= f') := fun s => h s s

/-- A change of the state is natural if it may be done before or after relabelling. -/
theorem natural_modify {f f' : ParserState → ParserState}
    (h : ∀ s, f' (s.relabel ρ) = (f s).relabel ρ) :
    Natural ρ id (modify f : Parser PUnit) (modify f') := by
  intro s
  change Except.ok ((), f' (s.relabel ρ)) = Except.ok ((), (f s).relabel ρ)
  rw [h]

end Sequences

/-! ## Tokens -/

/-- The next lexeme is the renamed one. -/
theorem natural_peek : Natural ρ (Option.map (Lexeme.rename ρ.toRenaming)) peek peek := by
  rintro ⟨_ | _, _, _, _⟩ <;> rfl

/-- The next place is the relabelled one. -/
theorem natural_here : Natural ρ ρ.place here here := by
  rintro ⟨_ | _, _, _, _⟩ <;> rfl

theorem blind_remaining : Blind ρ remaining := by
  intro s
  change Except.ok ((s.rest.map (Token.relabel ρ)).length, s.relabel ρ) =
    Except.ok (s.rest.length, s.relabel ρ)
  rw [List.length_map]

theorem blind_advance : Blind ρ advance := by
  apply natural_modify
  rintro ⟨_ | _, _, _, _⟩ <;> rfl

/-- A check is only blind for a lexeme that no renaming changes. -/
theorem blind_check {x : Lexeme} (hx : x.rename ρ.toRenaming = x) : Blind ρ (check x) := by
  apply natural_peek.bind
  intro found
  -- no other lexeme becomes this one
  have hfound : (found.map (Lexeme.rename ρ.toRenaming) = some x) = (found = some x) := by
    cases found with
    | none => simp
    | some l => simp [Lexeme.rename_eq_iff hx]
  simp only [hfound]
  exact blind_pure _

theorem blind_accept {x : Lexeme} (hx : x.rename ρ.toRenaming = x) : Blind ρ (accept x) := by
  apply (blind_check hx).bind
  intro found
  exact .ite (blind_advance.bind fun _ => blind_pure _) (blind_pure _)

theorem blind_expect (delimiter : Delimiter) : Blind ρ (expect delimiter) := by
  apply (blind_check (x := delimiter.sign) rfl).bind
  intro found
  apply Natural.ite
  · exact blind_advance
  · exact natural_peek.bind fun found => natural_here.bind fun loc => natural_fail _ _

/-- An identifier is read with its new name. -/
theorem natural_identifier : Natural ρ ρ.name identifier identifier := by
  apply natural_peek.bind
  intro found
  rcases found with _ | (_ | name | _ | _)
  case some.identifier => exact blind_advance.bind fun _ => natural_pure name
  all_goals exact natural_here.bind fun loc => natural_fail (.expectedIdentifier _) _

theorem blind_unexpected : Blind ρ (unexpected : Parser α) :=
  natural_peek.bind fun _ => natural_here.bind fun _ => natural_fail _ _

/-! ## Nodes -/

theorem natural_addExpr (kind : ExprKind) (type : CType) (loc : Location) :
    Natural ρ id (addExpr kind type loc) (addExpr kind type (ρ.place loc)) := by
  intro s
  simp [addExpr, ParserState.relabel, Program.relabel, Program.pushExpr, Expr.relabel, modifyGet,
    MonadStateOf.modifyGet, StateT.modifyGet, relabelOutcome, pure, Except.pure]

theorem natural_addStmt (kind : StmtKind) (loc : Location) :
    Natural ρ id (addStmt kind loc) (addStmt kind (ρ.place loc)) := by
  intro s
  simp [addStmt, ParserState.relabel, Program.relabel, Program.pushStmt, Stmt.relabel, modifyGet,
    MonadStateOf.modifyGet, StateT.modifyGet, relabelOutcome, pure, Except.pure]

/-- A declaration is added with its new name at its new place. -/
theorem natural_addDecl (name : String) (kind : DeclKind) (loc : Location) :
    Natural ρ id (addDecl name kind loc) (addDecl (ρ.name name) kind (ρ.place loc)) := by
  intro s
  simp [addDecl, ParserState.relabel, Program.relabel, Program.pushDecl, Decl.relabel, modifyGet,
    MonadStateOf.modifyGet, StateT.modifyGet, relabelOutcome, pure, Except.pure]

theorem blind_addItem (item : Item) : Blind ρ (addItem item) := natural_modify fun _ => rfl

/-- A declaration may be changed in a way that does not look at names and places. -/
theorem natural_modifyDecl (d : DeclId) {f f' : Decl → Decl}
    (hf : ∀ d, f' (d.relabel ρ) = (f d).relabel ρ) :
    Natural ρ id (modifyDecl d f) (modifyDecl d f') := by
  apply natural_modify
  intro s
  have hdecls : (s.program.decls.map (Decl.relabel ρ)).modify d.index f' =
      (s.program.decls.modify d.index f).map (Decl.relabel ρ) := by
    apply Array.ext_getElem?
    intro i
    simp only [Array.getElem?_modify, Array.getElem?_map]
    split
    · cases s.program.decls[i]? with
      | none => rfl
      | some d => exact congrArg some (hf d)
    · rfl
  simp [ParserState.relabel, Program.relabel, Program.modifyDecl, hdecls]

/-- What depends on the kind of a declaration only. -/
theorem natural_declOf_bind (d : DeclId) {f : Decl → Parser α} {f' : Decl → Parser β} {g : α → β}
    (h : ∀ decl decl', decl'.kind = decl.kind → Natural ρ g (f decl) (f' decl')) :
    Natural ρ g (declOf d >>= f) (declOf d >>= f') :=
  fun s => h (s.program.decl d) ((s.relabel ρ).program.decl d) (Program.kind_decl_relabel d) s

theorem blind_typeOf (e : ExprId) : Blind ρ (typeOf e) := by
  intro s
  change Except.ok (((s.program.relabel ρ).expr e).type, s.relabel ρ) =
    Except.ok ((s.program.expr e).type, s.relabel ρ)
  rw [Program.type_expr_relabel]

/-! ## Names -/

theorem Natural.inScope {g : α → β} {x : Parser α} {y : Parser β} (h : Natural ρ g x y) :
    Natural ρ g (inScope x) (inScope y) := by
  apply Natural.bind (g := id)
  · exact natural_modify fun _ => rfl
  intro _
  apply h.bind
  intro a
  apply Natural.bind (g := id)
  · apply natural_modify
    intro s
    simp [ParserState.relabel, Scopes.leave_rename]
  · exact fun _ => natural_pure a

/-- A name is declared under its new name, and a name declared twice is reported under it. -/
theorem natural_declare (name : String) (d : DeclId) (loc : Location) :
    Natural ρ id (declare name d loc) (declare (ρ.name name) d (ρ.place loc)) := by
  apply natural_get_bind
  intro s
  have hlookup : (s.relabel ρ).scopes.innermost.lookup (ρ.name name) =
      s.scopes.innermost.lookup name := by
    rw [ParserState.relabel, Scopes.innermost_rename, Scopes.lookup_rename]
  rw [hlookup]
  apply Natural.ite
  · exact natural_fail _ _
  · apply natural_modify
    intro s
    simp [ParserState.relabel, Scopes.declare_rename]

theorem natural_declareInFile (name : String) (d : DeclId) :
    Natural ρ id (declareInFile name d) (declareInFile (ρ.name name) d) :=
      natural_modify fun _ => rfl

/-- A name is resolved under its new name, and an unknown one is reported under it. -/
theorem natural_resolve (name : String) (loc : Location) :
    Natural ρ id (resolve name loc) (resolve (ρ.name name) (ρ.place loc)) := by
  apply natural_get_bind
  intro s
  have hresolve : (s.relabel ρ).scopes.resolve? (ρ.name name) = s.scopes.resolve? name :=
    Scopes.resolve?_rename _ _
  rw [hresolve]
  cases s.scopes.resolve? name with
  | some d => exact blind_pure d
  | none => exact natural_fail _ _

theorem natural_resolveInFile? (name : String) :
    Natural ρ id (resolveInFile? name) (resolveInFile? (ρ.name name)) := by
  apply natural_get_bind
  intro s
  have hlookup : (s.relabel ρ).scopes.file.lookup (ρ.name name) = s.scopes.file.lookup name :=
    Scopes.lookup_rename _ _
  rw [hlookup]
  exact blind_pure _

/-! ## Repetition -/

/-- A loop is blind if its end and its items are. -/
theorem Natural.repeatUntil {stop : Parser Bool} {item : Parser α} (hstop : Blind ρ stop)
    (hitem : Blind ρ item) (bound : Nat) : Blind ρ (repeatUntil stop item bound) := by
  induction bound with
  | zero => exact blind_pure _
  | succ bound ih =>
    apply hstop.bind
    intro stops
    apply Natural.ite
    · exact blind_pure _
    · exact hitem.bind fun first => ih.bind fun others => blind_pure _

theorem Natural.afterCommas {item : Parser α} (hitem : Blind ρ item) (bound : Nat) :
    Blind ρ (afterCommas item bound) := by
  induction bound with
  | zero => exact blind_pure _
  | succ bound ih =>
    apply (blind_accept (x := Punct.comma) rfl).bind
    intro more
    apply Natural.ite
    · exact hitem.bind fun first => ih.bind fun others => blind_pure _
    · exact blind_pure _

/-- A list in commas is blind if its items are. -/
theorem Natural.commaSeparated {item : Parser α} (hitem : Blind ρ item) :
    Blind ρ (commaSeparated item) :=
  hitem.bind fun _ => blind_remaining.bind fun _ => (hitem.afterCommas _).bind fun _ => blind_pure _

theorem Natural.forM {f : α → Parser PUnit} (hf : ∀ a, Blind ρ (f a)) (as : List α) :
    Blind ρ (as.forM f) := by
  induction as with
  | nil => exact blind_pure _
  | cons a as ih => exact (hf a).bind fun _ => ih

/-! ## Types -/

theorem blind_startsType : Blind ρ startsType := by
  apply natural_peek.bind
  intro found
  cases found with
  | none => exact blind_pure _
  | some l =>
    rw [Option.map_some, Option.bind_some, Option.bind_some, Lexeme.baseType?_rename]
    exact blind_pure _

theorem blind_startsParenthesisedType : Blind ρ startsParenthesisedType := by
  apply natural_get_bind
  rintro ⟨_ | ⟨first, _ | ⟨second, _⟩⟩, _, _, _⟩
  case cons.cons =>
    have hfirst : ((first.relabel ρ).lexeme = Punct.leftParen) = (first.lexeme = Punct.leftParen) :=
      propext (Lexeme.rename_eq_iff rfl)
    have hsecond : (second.relabel ρ).lexeme.baseType? = second.lexeme.baseType? :=
      Lexeme.baseType?_rename _
    simp only [ParserState.relabel, List.map_cons, hfirst, hsecond]
    exact blind_pure _
  all_goals exact blind_pure _

theorem blind_baseType : Blind ρ baseType := by
  apply natural_peek.bind
  intro found
  cases found with
  | none => exact natural_here.bind fun loc => natural_fail (.expectedType none) _
  | some l =>
    rw [Option.map_some, Option.bind_some, Option.bind_some, Lexeme.baseType?_rename]
    split
    · exact blind_advance.bind fun _ => blind_pure _
    · exact natural_here.bind fun loc => natural_fail (.expectedType (some l)) _

/-- Stars are counted alike under every renaming. -/
theorem blind_starsWithin (bound : Nat) (type : CType) : Blind ρ (starsWithin bound type) := by
  induction bound generalizing type with
  | zero => exact blind_pure _
  | succ bound ih =>
    apply (blind_accept (x := Punct.star) rfl).bind
    exact fun _ => .ite (ih _) (blind_pure _)

theorem blind_stars (type : CType) : Blind ρ (stars type) :=
  blind_remaining.bind fun _ => blind_starsWithin _ type

theorem blind_typeName : Blind ρ typeName := blind_baseType.bind fun _ => blind_stars _

/-! ## Expressions -/

theorem natural_addBinary (op : BinaryOp) (lhs rhs : ExprId) (loc : Location) :
    Natural ρ id (addBinary op lhs rhs loc) (addBinary op lhs rhs (ρ.place loc)) :=
  (blind_typeOf lhs).bind fun _ => (blind_typeOf rhs).bind fun _ => natural_addExpr _ _ _

theorem natural_addUnary (op : UnaryOp) (operand : ExprId) (loc : Location) :
    Natural ρ id (addUnary op operand loc) (addUnary op operand (ρ.place loc)) :=
  (blind_typeOf operand).bind fun _ => natural_addExpr _ _ _

section Levels

variable {operandAt : OperandLevel → Parser ExprId} (hop : ∀ level, Blind ρ (operandAt level))
include hop

theorem blind_arguments : Blind ρ (arguments operandAt) := by
  have hclose (args : List ExprId) : Blind ρ (do
      expect .argumentsClose
      return args) := (blind_expect _).bind fun _ => blind_pure _
  apply (blind_check (x := Punct.rightParen) rfl).bind
  intro empty
  apply Natural.ite
  · exact (blind_pure _).bind hclose
  · exact (hop .assignment).commaSeparated.bind hclose

/-- A name that is used stands for the declaration of its new name. -/
theorem natural_reference (name : String) (loc : Location) :
    Natural ρ id (reference operandAt name loc)
      (reference operandAt (ρ.name name) (ρ.place loc)) := by
  -- the declaration that the name stands for is the same one, and only its kind is looked at
  have hcall (d : DeclId) : Natural ρ id (do
      advance
      let args ← arguments operandAt
      addExpr (.call d args) (← declOf d).type.result loc) (do
      advance
      let args ← arguments operandAt
      addExpr (.call d args) (← declOf d).type.result (ρ.place loc)) := by
    apply blind_advance.bind
    intro _
    apply (blind_arguments hop).bind
    intro args
    apply natural_declOf_bind
    intro decl decl' hkind
    rw [Decl.type_congr hkind]
    exact natural_addExpr _ _ _
  apply (natural_resolve name loc).bind
  intro d
  apply (blind_check (x := Punct.leftParen) rfl).bind
  intro called
  apply Natural.ite
  · apply natural_declOf_bind
    intro decl decl' hkind
    rw [Decl.isFunction_congr hkind]
    apply Natural.ite
    · exact hcall d
    · exact (natural_fail (g := id) _ _).bind fun _ => hcall d
  · apply natural_declOf_bind
    intro decl decl' hkind
    rw [Decl.type_congr hkind]
    exact natural_addExpr _ _ _

theorem blind_primary : Blind ρ (primary operandAt) := by
  apply natural_here.bind
  intro loc
  apply natural_peek.bind
  intro found
  rcases found with _ | (value | name | _ | sign)
  case some.integer => exact blind_advance.bind fun _ => natural_addExpr _ _ _
  case some.identifier => exact blind_advance.bind fun _ => natural_reference hop name loc
  case some.punct =>
    cases sign
    case leftParen =>
      apply blind_advance.bind
      intro _
      apply (hop .assignment).bind
      intro inner
      exact (blind_expect _).bind fun _ => (blind_typeOf inner).bind fun _ => natural_addExpr _ _ _
    all_goals exact blind_unexpected
  all_goals exact blind_unexpected

theorem blind_suffixes (bound : Nat) (e : ExprId) : Blind ρ (suffixes operandAt bound e) := by
  induction bound generalizing e with
  | zero => exact blind_pure _
  | succ bound ih =>
    apply natural_here.bind
    intro loc
    apply (blind_accept (x := Punct.leftBracket) rfl).bind
    intro bracket
    apply Natural.ite
    · apply (hop .assignment).bind
      intro index
      apply (blind_expect _).bind
      intro _
      exact (blind_typeOf e).bind fun _ => (natural_addExpr _ _ _).bind fun _ => ih _
    · apply (blind_accept (x := Punct.plusPlus) rfl).bind
      intro plus
      apply Natural.ite
      · exact (natural_addUnary _ _ _).bind fun _ => ih _
      · apply (blind_accept (x := Punct.minusMinus) rfl).bind
        exact fun minus => .ite ((natural_addUnary _ _ _).bind fun _ => ih _) (blind_pure _)

theorem blind_suffixed : Blind ρ (suffixed operandAt) :=
  (blind_primary hop).bind fun _ => blind_remaining.bind fun _ => blind_suffixes hop _ _

theorem blind_sizeofOperand : Blind ρ (sizeofOperand operandAt) := by
  apply blind_startsParenthesisedType.bind
  intro parenthesised
  apply Natural.ite
  · apply blind_advance.bind
    intro _
    exact blind_typeName.bind fun _ => (blind_expect _).bind fun _ => blind_pure _
  · exact (hop .unary).bind fun _ => blind_typeOf _

theorem blind_prefixed : Blind ρ (prefixed operandAt) := by
  apply natural_here.bind
  intro loc
  apply natural_peek.bind
  intro found
  rcases found with _ | (_ | _ | word | sign)
  case some.keyword =>
    cases word
    case sizeofKw =>
      exact blind_advance.bind fun _ => (blind_sizeofOperand hop).bind fun _ =>
        natural_addExpr _ _ _
    all_goals exact blind_suffixed hop
  case some.punct =>
    simp only [Option.map_some, Lexeme.rename]
    split
    · exact blind_advance.bind fun _ => (hop .cast).bind fun _ => natural_addUnary _ _ _
    · exact blind_suffixed hop
  all_goals exact blind_suffixed hop

theorem blind_casted : Blind ρ (casted operandAt) := by
  apply natural_here.bind
  intro loc
  apply blind_startsParenthesisedType.bind
  intro parenthesised
  apply Natural.ite
  · apply blind_advance.bind
    intro _
    apply blind_typeName.bind
    intro type
    exact (blind_expect _).bind fun _ => (hop .cast).bind fun _ => natural_addExpr _ _ _
  · exact blind_prefixed hop

omit hop in
/-- A chain of operators is blind if its operands are. -/
theorem blind_leftChain (level : BinaryLevel) {operand : Parser ExprId}
    (hoperand : Blind ρ operand) (bound : Nat)
    (lhs : ExprId) : Blind ρ (leftChain level operand bound lhs) := by
  induction bound generalizing lhs with
  | zero => exact blind_pure _
  | succ bound ih =>
    apply natural_here.bind
    intro loc
    apply natural_peek.bind
    intro found
    -- operators are no names
    have hoperator : (found.map (Lexeme.rename ρ.toRenaming)).bind level.operator? =
        found.bind level.operator? := by
      cases found with
      | none => rfl
      | some l => exact Lexeme.operator?_rename level l
    rw [hoperator]
    cases found.bind level.operator? with
    | none => exact blind_pure _
    | some op =>
      exact blind_advance.bind fun _ => hoperand.bind fun _ =>
        (natural_addBinary _ _ _ _).bind fun _ => ih _

/-- Every level of operators is blind, since no renaming changes an operator. -/
theorem blind_binary (levels : List BinaryLevel) : Blind ρ (binary operandAt levels) := by
  induction levels with
  | nil => exact blind_casted hop
  | cons level tighter ih =>
    exact ih.bind fun _ => blind_remaining.bind fun _ => blind_leftChain level ih _ _

theorem blind_assignment : Blind ρ (assignment operandAt) := by
  apply (blind_binary hop binaryLevels).bind
  intro lhs
  apply natural_here.bind
  intro loc
  apply natural_peek.bind
  intro found
  rcases found with _ | (_ | _ | _ | sign)
  case some.punct =>
    simp only [Option.map_some, Lexeme.rename]
    split
    · exact blind_advance.bind fun _ => (hop .assignment).bind fun _ => natural_addBinary _ _ _ _
    · exact blind_pure _
  all_goals exact blind_pure _

end Levels

/-- Expressions are read alike under every renaming, to whatever depth. -/
theorem blind_expressionWithin (bound : Nat) (level : OperandLevel) :
    Blind ρ (expressionWithin bound level) := by
  induction bound generalizing level with
  | zero => exact blind_unexpected
  | succ bound ih =>
    cases level with
    | assignment => exact blind_assignment ih
    | cast => exact blind_casted ih
    | unary => exact blind_prefixed ih

theorem blind_expression : Blind ρ expression :=
  blind_remaining.bind fun _ => blind_expressionWithin _ _

end Parser

end MiniC
