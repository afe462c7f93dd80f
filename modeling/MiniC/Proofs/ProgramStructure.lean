import MiniC.Proofs.ParsedDraft
import MiniC.Proofs.StaticTypes

/-!
# The structure of programs

Every program that a text writes is linked (`Program.linked_of_parse`): ids are in bounds, nodes
come after the nodes that they refer to, and every part is referred to exactly once, unless it is an
expression that only its size is asked of. Its expressions have their static types
(`Program.typed_of_parse`).
-/

set_option autoImplicit false

namespace MiniC

deriving instance DecidableEq for ExprKind

deriving instance DecidableEq for DeclKind

namespace Program

variable {p : Program} {tokens : List Token} {source : String}

/-! ## References -/

/-- What the ids that are stored in a program refer to is in the program and comes before the node
that refers to it, and every part is referred to as often as it should be. -/
structure Linked (p : Program) (tokens : List Token) : Prop extends p.Bounded where
  has : ∀ {x}, x ∈ p.references → p.Has x
  expr : ∀ {e : ExprId}, e.index < p.exprs.size → ¬ p.IsSizeofOperand tokens e →
    p.references.count (.expr e) = 1
  sizeofOperand : ∀ {e : ExprId}, p.IsSizeofOperand tokens e → p.references.count (.expr e) = 0
  stmt : ∀ {id : StmtId}, id.index < p.stmts.size → p.references.count (.stmt id) = 1
  localVar : ∀ {d : DeclId}, d.index < p.decls.size → (p.decl d).storage? = some .local →
    p.references.count (.localVar d) = 1
  globalVar : ∀ {d : DeclId}, d.index < p.decls.size → (p.decl d).storage? = some .global →
    p.references.count (.globalVar d) = 1

/-- Where nothing is loose, the program is linked. -/
theorem linked_of_sound (h : Draft.Sound tokens ⟨p, 0⟩) : p.Linked tokens := by
  have honce {x : Part} (hx : p.Due tokens x) : p.references.count x = 1 := h.balanced.once hx
  have hnever {x : Part} (hx : ¬ p.Due tokens x) : p.references.count x = 0 := h.balanced.never hx
  refine { h.bounded with
    has := fun {x} hx => ?_
    expr := fun hlt hsize => honce ⟨hlt, fun e he => Part.expr.inj he ▸ hsize⟩
    sizeofOperand := fun hsize => hnever fun hdue => hdue.2 _ rfl hsize
    stmt := fun hlt => honce ⟨hlt, nofun⟩
    localVar := fun hlt hlocal => honce ⟨⟨hlt, hlocal⟩, nofun⟩
    globalVar := fun hlt hglobal => honce ⟨⟨hlt, hglobal⟩, nofun⟩ }
  by_contra hnot
  have hzero := hnever fun hdue => hnot hdue.1
  exact List.count_eq_zero.1 hzero hx

/-- Every program that a text writes is linked. -/
theorem linked_of_parse (h : parse source = .ok p) :
    ∃ stream, tokenize source = .ok stream ∧ p.Linked stream.tokens := by
  obtain ⟨stream, htokens, hreachable⟩ := reachable_of_parse h
  exact ⟨stream, htokens, linked_of_sound hreachable.sound⟩

/-- The parenthesised operand of `sizeof` is in the program though nothing refers to it. -/
theorem linked_of_sizeof_expression :
    ∃ p stream, parse "int x = 2; int main() { int y = sizeof(x + 1); return y; }" = .ok p ∧
      tokenize "int x = 2; int main() { int y = sizeof(x + 1); return y; }" = .ok stream ∧
      p.Linked stream.tokens ∧ p.references.count (.expr ⟨4⟩) = 0 := by
  obtain ⟨stream, htokens, hlinked⟩ := linked_of_parse <| parse_eq_ok <| show
    (parse "int x = 2; int main() { int y = sizeof(x + 1); return y; }").toOption.isSome = true by
      decide +kernel
  exact ⟨_, stream, parse_eq_ok (by decide +kernel), htokens, hlinked, by decide +kernel⟩

/-- The parameters of a function are parameters of the program, so none is a variable of the
file. -/
theorem isParameter_of_parse (h : parse source = .ok p) {f d : DeclId}
    (hd : d ∈ (p.decl f).params) :
    p.IsParameter d := by
  obtain ⟨stream, -, hreachable⟩ := reachable_of_parse h
  exact hreachable.parameters f d hd

/-! ## Static types -/

/-- Every expression of a program that a text writes has the type that its form gives it; the type
of a cast is written in the text, and is neither that of an array nor that of a function. -/
theorem typed_of_parse (h : parse source = .ok p) :
    ∃ stream, tokenize source = .ok stream ∧
      ∀ e : ExprId, e.index < p.exprs.size →
        p.typeRule? (p.expr e).kind = some (p.expr e).type ∨
          (∃ operand, (p.expr e).kind = .cast operand) ∧
            WrittenAt stream.tokens (p.expr e).loc (p.expr e).type ∧
            (p.expr e).type.isArray = false ∧ (p.expr e).type.isFunction = false := by
  obtain ⟨stream, htokens, hreachable⟩ := reachable_of_parse h
  refine ⟨stream, htokens, fun e he => ?_⟩
  rcases hreachable.typed e he with hrule | ⟨hcast, hwritten⟩
  · exact .inl hrule
  · exact .inr ⟨hcast, hwritten, hwritten.isArray_eq_false, hwritten.isFunction_eq_false⟩

/-- A call has the type that the callee returns, though the callee is declared again later on. -/
theorem typed_of_redeclared_function :
    ∃ p stream,
      parse "char *f(); int main() { return *f() + (int)1; } int f(int n) { return 0; }" = .ok p ∧
      tokenize "char *f(); int main() { return *f() + (int)1; } int f(int n) { return 0; }" =
        .ok stream ∧
      ∀ e : ExprId, e.index < p.exprs.size →
        p.typeRule? (p.expr e).kind = some (p.expr e).type ∨
          (∃ operand, (p.expr e).kind = .cast operand) ∧
            WrittenAt stream.tokens (p.expr e).loc (p.expr e).type ∧
            (p.expr e).type.isArray = false ∧ (p.expr e).type.isFunction = false := by
  obtain ⟨stream, htokens, htyped⟩ := typed_of_parse <| parse_eq_ok <| show
    (parse
      "char *f(); int main() { return *f() + (int)1; } int f(int n) { return 0; }").toOption.isSome
    by decide +kernel
  exact ⟨_, stream, parse_eq_ok (by decide +kernel), htokens, htyped⟩

/-- The address of a function has the type of the function itself, with no pointer level more. -/
theorem address_of_function_keeps_type :
    ∃ p, parse "int main() { &main; return 0; }" = .ok p ∧ 1 < p.exprs.size ∧
      (p.expr ⟨1⟩).kind = .unary .addressOf ⟨0⟩ ∧ (p.expr ⟨1⟩).type = (p.expr ⟨0⟩).type ∧
      ¬ ∃ base pointers length, (p.expr ⟨0⟩).type = .value base pointers length ∧
        (p.expr ⟨1⟩).type = .value base (pointers + 1) length := by
  have hkept : ∃ p, parse "int main() { &main; return 0; }" = .ok p ∧ 1 < p.exprs.size ∧
      (p.expr ⟨1⟩).kind = .unary .addressOf ⟨0⟩ ∧ (p.expr ⟨1⟩).type = (p.expr ⟨0⟩).type :=
    ⟨_, parse_eq_ok (by decide +kernel), by decide +kernel, by decide +kernel, by decide +kernel⟩
  obtain ⟨p, hparse, hlt, hkind, htype⟩ := hkept
  refine ⟨p, hparse, hlt, hkind, htype, ?_⟩
  rintro ⟨base, pointers, length, hoperand, hpointer⟩
  rw [htype, hoperand, CType.value.injEq] at hpointer
  omega

end Program

end MiniC
