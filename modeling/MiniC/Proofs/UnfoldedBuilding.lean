import Mathlib.Algebra.Group.Nat.Defs
import MiniC.Proofs.AlikeBuilding
import MiniC.Proofs.ExpressionPlaces
import MiniC.Proofs.Unfolding

/-!
# Building and unfolding

What is built from a tree unfolds to the tree. `Written.Builds x s Q` says that the parser `x`, if
it succeeds from the state `s`, goes on with what was built (`Written.GoesOn`) and has a result that
satisfies `Q` in the program that it leaves.
-/

set_option autoImplicit false

namespace MiniC.Written

open MiniC.Parser

variable {α β ι : Type} {s t u : ParserState}

/-! ## States that go on -/

/-- Names in scope are those of their declarations. -/
def Labelled (b : Built) : Prop :=
  ∀ entry ∈ b.scopes.entries, entry.2.index < b.program.decls.size ∧
    (b.program.decl entry.2).name = entry.1

/-- Names keep their declarations while the program goes on. -/
theorem Labelled.of_keeps {b : Built} (h : Labelled b) {q : Program} (hq : KeepsDecls b.program q) :
    Labelled ⟨q, b.scopes⟩ := by
  intro entry hentry
  obtain ⟨hlt, hname⟩ := h entry hentry
  exact ⟨Nat.lt_of_lt_of_le hlt hq.size, (hq.name hlt).trans hname⟩

/-- A name of the file means a declaration that is there and is called so. -/
theorem Labelled.of_lookup {b : Built} (h : Labelled b) {x : String} {d : DeclId}
    (hx : b.scopes.file.lookup x = some d) :
    d.index < b.program.decls.size ∧ (b.program.decl d).name = x := by
  obtain ⟨before, after, hfile, -⟩ := List.lookup_eq_some_iff.1 hx
  exact h (x, d) (List.mem_append_right _ (by simp [hfile]))

/-- Nodes were added, and names that are new in the file are none of functions. -/
structure GoesOn (s t : Built) : Prop where
  labelled : Labelled t
  begins : s.program.Begins t.program
  kept : ∀ {x d}, s.scopes.file.lookup x = some d → t.scopes.file.lookup x = some d
  added : ∀ {x d}, t.scopes.file.lookup x = some d → (t.program.decl d).isFunction = true →
    s.scopes.file.lookup x = some d

theorem GoesOn.refl {s : Built} (h : Labelled s) : GoesOn s s := ⟨h, .refl _, id, fun hx _ => hx⟩

/-- What was built may go on in two steps. -/
theorem GoesOn.trans {s t u : Built} (h : GoesOn s t) (h' : GoesOn t u) : GoesOn s u where
  labelled := h'.labelled
  begins := h.begins.trans h'.begins
  kept hx := h'.kept (h.kept hx)
  added hx hd := by
    have ht := h'.added hx hd
    refine h.added ht ?_
    rwa [← h'.begins.decl (h.labelled.of_lookup ht).1]

/-- Where no name is given, it is enough that nodes were added. -/
theorem GoesOn.of_begins {s : Built} {q : Program} (h : Labelled s) (hq : s.program.Begins q) :
    GoesOn s ⟨q, s.scopes⟩ :=
  ⟨h.of_keeps hq.toKeepsDecls, hq, id, fun hx _ => hx⟩

/-! ## Parsers that go on -/

/-- If the parser succeeds, it goes on with what was built, with a result that satisfies `Q`. -/
def Builds (x : Parser α) (s : ParserState) (Q : Program → α → Prop) : Prop :=
  Ensures x s fun a t => GoesOn s.built t.built ∧ Q t.program a

namespace Builds

variable {x : Parser α} {Q : Program → α → Prop} {R : Program → β → Prop}

/-- The second parser goes on with what the first one has built. -/
theorem bind {f : α → Parser β} (h : Builds x s Q)
    (hf : ∀ a t, GoesOn s.built t.built → Q t.program a → Builds (f a) t R) :
    Builds (x >>= f) s R := by
  refine Ensures.bind h fun a t ⟨ht, ha⟩ => (hf a t ht ha).mono fun b u ⟨hu, hb⟩ => ?_
  exact ⟨ht.trans hu, hb⟩

theorem pure {a : α} (hs : Labelled s.built) (h : Q s.program a) : Builds (pure a) s Q :=
  ⟨.refl hs, h⟩

/-- A result may be changed into another one afterwards. -/
theorem map {f : α → β} (h : Builds x s Q) (hf : ∀ p a, Q p a → R p (f a)) : Builds (f <$> x) s R :=
  ensures_map.2 (h.mono fun a _ ⟨ht, ha⟩ => ⟨ht, hf _ a ha⟩)

theorem here {f : Location → Parser β} (h : ∀ loc, Builds (f loc) s R) : Builds (here >>= f) s R :=
  h _

theorem advance {f : Unit → Parser β} (h : Builds (f ()) { s with rest := s.rest.tail } R) :
    Builds (advance >>= f) s R := h

theorem declOf {d : DeclId} {f : Decl → Parser β} (h : Builds (f (s.program.decl d)) s R) :
    Builds (declOf d >>= f) s R := h

theorem typeOf {e : ExprId} {f : CType → Parser β} (h : Builds (f (s.program.expr e).type) s R) :
    Builds (typeOf e >>= f) s R := h

end Builds

/-- The parser goes on if a condition holds. -/
theorem Builds.unless {b : Bool} {fault : ParseFault} {loc : Location} {f : Parser β}
    {R : Program → β → Prop} (h : b = true → Builds f s R) :
    Builds (do
      unless b do fail fault loc
      f) s R := by
  cases b with
  | true => exact h rfl
  | false => exact ensures_bind.2 ensures_fail

theorem builds_skip (n : Nat) (hs : Labelled s.built) : Builds (skip n) s fun _ _ => True := by
  induction n generalizing s with
  | zero => exact .pure hs trivial
  | succ n ih => exact .advance (ih hs)

/-- The name of a type gives that type. -/
theorem TypeName.builds_build (t : TypeName) (hs : Labelled s.built) :
    Builds t.build s fun _ type => type = t.type :=
  .advance (.bind (builds_skip t.stars hs) fun _ _ ht _ => .pure ht.labelled rfl)

/-! ## Names -/

/-- A name gives a declaration that is called so. -/
theorem builds_resolve {x : String} {loc : Location} (hs : Labelled s.built) :
    Builds (resolve x loc) s fun p d => d.index < p.decls.size ∧ (p.decl d).name = x := by
  unfold Builds resolve
  rw [ensures_bind, ensures_get]
  split
  · next d hd => exact ⟨.refl hs, hs (x, d) (Scopes.mem_entries_of_resolve? hd)⟩
  · exact ensures_fail

/-- A name that is new in a table does not change what other names mean. -/
theorem lookup_of_new {table : Scope} {x y : String} {d e : DeclId} (hnew : table.lookup x = none)
    (hy : table.lookup y = some e) : ((x, d) :: table).lookup y = some e := by
  rw [List.lookup_cons]
  split
  · next hyx =>
    rw [beq_iff_eq.1 hyx, hnew] at hy
    cases hy
  · exact hy

/-- A name of a longer table is the one that was added, or it was there before. -/
theorem eq_or_lookup_of_added {table : Scope} {x y : String} {d e : DeclId}
    (hy : ((x, d) :: table).lookup y = some e) : (y = x ∧ e = d) ∨ table.lookup y = some e := by
  rw [List.lookup_cons] at hy
  split at hy
  · next hyx => exact .inl ⟨beq_iff_eq.1 hyx, (Option.some.inj hy).symm⟩
  · exact .inr hy

/-- The table of the file changes only where no scope inside the file is open. -/
theorem file_declare {scopes : Scopes} {x : String} (d : DeclId)
    (hnew : scopes.innermost.lookup x = none) :
    (scopes.declare x d).file = scopes.file ∨
      (scopes.declare x d).file = (x, d) :: scopes.file ∧ scopes.file.lookup x = none := by
  obtain ⟨_ | ⟨scope, outer⟩, file⟩ := scopes
  · exact .inr ⟨rfl, hnew⟩
  · exact .inl rfl

/-- A variable gets a name in the innermost scope. -/
theorem Labelled.goesOn_declare {b : Built} (hb : Labelled b) {x : String} {d : DeclId}
    (hlt : d.index < b.program.decls.size) (hname : (b.program.decl d).name = x)
    (hkind : (b.program.decl d).isFunction = false) (hnew : b.scopes.innermost.lookup x = none) :
    GoesOn b ⟨b.program, b.scopes.declare x d⟩ where
  labelled entry hentry := by
    rcases Scopes.mem_entries_declare hentry with rfl | hentry
    · exact ⟨hlt, hname⟩
    · exact hb entry hentry
  begins := .refl _
  kept hy := by
    rcases file_declare d hnew with heq | ⟨heq, hx⟩
    · rwa [heq]
    · rw [heq]
      exact lookup_of_new hx hy
  added hy he := by
    rcases file_declare d hnew with heq | ⟨heq, -⟩
    · rwa [heq] at hy
    · rw [heq] at hy
      rcases eq_or_lookup_of_added hy with ⟨-, rfl⟩ | hy
      · rw [hkind] at he
        cases he
      · exact hy

/-- A variable may be given its name in the innermost scope. -/
theorem builds_declare {x : String} {d : DeclId} {loc : Location} (hs : Labelled s.built)
    (hlt : d.index < s.program.decls.size) (hname : (s.program.decl d).name = x)
    (hkind : (s.program.decl d).isFunction = false) :
    Ensures (declare x d loc) s fun _ t => GoesOn s.built t.built ∧ t.program = s.program := by
  unfold declare
  rw [ensures_bind, ensures_get]
  split
  · exact ensures_fail
  · next hnone =>
    rw [Bool.not_eq_true, Option.isSome_eq_false_iff, Option.isNone_iff_eq_none] at hnone
    exact ⟨hs.goesOn_declare hlt hname hkind hnone, rfl⟩

/-- What is built in a scope stays when the scope is left. -/
theorem Builds.inScope {x : Parser α} {Q : Program → α → Prop}
    (h : Builds x { s with scopes := s.scopes.enter } Q) : Builds (inScope x) s Q := by
  refine ensures_bind.2 (ensures_bind.2 (h.mono fun a t ⟨ht, ha⟩ => ?_))
  refine ⟨⟨fun entry hentry => ?_, ht.begins, ht.kept, ht.added⟩, ha⟩
  exact ht.labelled entry (Scopes.mem_entries_leave hentry)

/-! ## Lists -/

section Lists

variable {R : Program → α → ι → Prop}

/-- A list unfolds member by member, as what unfolds to a tree goes on to do so. -/
theorem builds_cons {first : Parser α} {others : Parser (List α)} {i : ι} {is : List ι}
    (hR : ∀ {p q a}, p.Begins q → R p a i → R q a i) (hfirst : Builds first s fun p a => R p a i)
    (hothers : ∀ t, Labelled t.built → Builds others t fun p as => List.Forall₂ (R p) as is) :
    Builds (do
      let a ← first
      let as ← others
      return a :: as) s fun p as => List.Forall₂ (R p) as (i :: is) :=
  hfirst.bind fun _ t ht ha => (hothers t ht.labelled).bind fun _ _ hu has =>
    .pure hu.labelled (.cons (hR hu.begins ha) has)

/-- A list in commas unfolds to the trees of its items. -/
theorem builds_inCommas {build : ι → Parser α}
    (hR : ∀ {p q a i}, p.Begins q → R p a i → R q a i) {is : List ι}
    (h : ∀ i ∈ is, ∀ s, Labelled s.built → Builds (build i) s fun p a => R p a i)
    (hs : Labelled s.built) :
    Builds (buildInCommas (is.map build)) s fun p as => List.Forall₂ (R p) as is := by
  have hafter {is : List ι} (h : ∀ i ∈ is, ∀ s, Labelled s.built →
    Builds (build i) s fun p a => R p a i)
      (t : ParserState) (ht : Labelled t.built) :
      Builds (buildAfterCommas (is.map build)) t fun p as => List.Forall₂ (R p) as is := by
    induction is generalizing t with
    | nil => exact .pure ht .nil
    | cons i is ih =>
      rw [List.forall_mem_cons] at h
      exact .advance (builds_cons hR (h.1 _ ht) fun t ht => ih h.2 t ht)
  cases is with
  | nil => exact .pure hs .nil
  | cons i is =>
    rw [List.forall_mem_cons] at h
    exact builds_cons hR (h.1 s hs) (hafter h.2)

end Lists

/-! ## Expressions -/

/-- An expression may be added when the tree for it is there. -/
theorem builds_addExpr {kind : ExprKind} {type : CType} {loc : Location} {e : Expr}
    (hs : Labelled s.built) (h : s.program.HasNode ⟨kind, type, loc⟩ e) :
    Builds (addExpr kind type loc) s fun p id => p.HasExpr id e := by
  have hbegins := Program.begins_pushExpr s.program ⟨kind, type, loc⟩
  have hsize : (s.program.pushExpr ⟨kind, type, loc⟩).2.index <
      (s.program.pushExpr ⟨kind, type, loc⟩).1.exprs.size := by
    simp [Program.pushExpr]
  have hnode {q : Program} (hq : Parenthesised.Keeps (s.program.pushExpr ⟨kind, type, loc⟩).1 q) :
      q.expr ⟨s.program.exprs.size⟩ = ⟨kind, type, loc⟩ :=
    (hq.expr hsize).trans (Program.expr_pushExpr_self _ _)
  refine ⟨.of_begins hs hbegins, hsize, fun {q} hq bound hbound => ?_,
    fun {q} hq bound hbound => ?_⟩
  -- the operands are in the table before the node, so the bound that is left is enough for them
  · obtain ⟨bound, rfl⟩ := Nat.exists_eq_add_of_lt hbound
    rw [Program.exprFormWithin, hnode hq]
    exact h.form (hbegins.toKeeps.trans hq) (Nat.le_add_right _ _)
  · obtain ⟨bound, rfl⟩ := Nat.exists_eq_add_of_lt hbound
    rw [Program.isWritableWithin, Program.operands, hnode hq, h.writable,
      Bool.true_and, List.all_eq_true]
    intro o ho
    obtain ⟨u, hu⟩ := h.operands o ho
    exact hu.writable (hbegins.toKeeps.trans hq) (Nat.lt_of_lt_of_le hu.lt (Nat.le_add_right _ _))

/-- The type of a type name is written as the type name. -/
theorem TypeName.isWritable_type (type : TypeName) :
    decide (type.type.typeName.type = type.type) = true := by
  rw [decide_eq_true_eq, typeName_type]

namespace Expr

/-- A literal is in range, and the size that is asked for is that of a type. -/
def Plain : Expr → Prop
  | .literal value => value < 2 ^ 31
  | .sizeOf _ => False
  | .name _ | .call .. | .paren _ | .subscript .. | .unary .. | .binary .. | .cast ..
    | .sizeOfType _ => True

/-- An operator is added to its operand. -/
theorem builds_unary (op : UnaryOp) {operand : Expr} {e : ExprId} (loc : Location)
    (hs : Labelled s.built)
    (he : s.program.HasExpr e operand) : Builds (addUnary op e loc) s fun p id =>
      p.HasExpr id (.unary op operand) := by
  refine .typeOf (builds_addExpr hs ⟨fun hq _ hbound => ?_, rfl, he.forall_mem_singleton⟩)
  simp only [Program.nodeForm, he.within hq hbound]

/-- An expression is built that unfolds to the tree. -/
theorem builds_build (e : Expr) {pos : Nat} (he : ∀ o ∈ e.occurrences pos, o.expr.Plain)
    (hs : Labelled s.built) :
    Builds e.build s fun p id => p.HasExpr id e := by
  induction e generalizing pos s with
  | literal value =>
    have hvalue : value < 2 ^ 31 := he ⟨pos, .literal value⟩ (by simp [occurrences])
    refine .here fun loc => .advance ?_
    refine builds_addExpr hs ⟨fun hq _ hbound => ?_, ?_, List.forall_mem_nil _⟩
    · -- a literal in range is read back as the number that was written
      simp only [Program.nodeForm, Int32.toInt_ofNat_of_lt hvalue, Int.toNat_natCast]
    · rw [MiniC.Expr.isWritable, decide_eq_true_eq, Int32.le_iff_toInt_le,
        Int32.toInt_ofNat_of_lt hvalue]
      exact Int.natCast_nonneg value
  | name x =>
    refine .here fun loc => .advance (.bind (builds_resolve hs) fun d t ht hd => .declOf ?_)
    refine builds_addExpr ht.labelled ⟨fun hq _ hbound => ?_, rfl, List.forall_mem_nil _⟩
    simp only [Program.nodeForm, hq.name hd.1, hd.2]
  | call f args ih =>
    rw [occurrences, List.forall_mem_append] at he
    refine .here fun loc => .advance (.bind (builds_resolve hs) fun d t ht hd =>
      .declOf (.unless fun _ => .advance ?_))
    rw [buildEach_eq_map]
    have hargs : Builds (buildInCommas (args.map build)) { t with rest := t.rest.tail } fun p as =>
        List.Forall₂ p.HasExpr as args := by
      refine builds_inCommas (fun hpq h => h.keeps hpq.toKeeps)
        (fun arg harg s hs => ?_) ht.labelled
      -- where in the text the arguments lie does not matter, only that they are plain
      obtain ⟨pos', hsubset⟩ := exists_pos_of_mem (expr_mem_argumentPieces.2 harg) (pos + 2)
      rw [← occurrencesOfEach_eq] at hsubset
      exact ih arg harg (fun o ho => he.1 o (hsubset ho)) hs
    refine hargs.bind fun as u hu has => .advance (.declOf ?_)
    have hargs : ∀ a ∈ as, ∃ arg, u.program.HasExpr a arg := Program.exists_of_mem_right has.flip
    refine builds_addExpr hu.labelled ⟨fun hq _ hbound => ?_, rfl, hargs⟩
    have hkeeps := hu.begins.toKeeps
    have hforms := Program.map_eq_of_forall₂ (has.imp fun _ _ ha => ha.within hq hbound)
    have hname :=
      (hq.name (Nat.lt_of_lt_of_le hd.1 hkeeps.size)).trans ((hkeeps.name hd.1).trans hd.2)
    simp only [Program.nodeForm, hforms]
    rw [hname]
  | paren inner ih =>
    rw [occurrences, List.forall_mem_append] at he
    refine .here fun loc => .advance (.bind (ih he.1 hs) fun e t ht he => .advance (.typeOf ?_))
    refine builds_addExpr ht.labelled ⟨fun hq _ hbound => ?_, rfl, he.forall_mem_singleton⟩
    simp only [Program.nodeForm, he.within hq hbound]
  | subscript base index ihb ihi =>
    rw [occurrences, List.forall_mem_append, List.forall_mem_append] at he
    refine .bind (ihb he.1 hs) fun b t ht hb => .here fun loc => .advance ?_
    refine .bind (ihi he.2.1 ht.labelled) fun i u hu hi => .advance (.typeOf ?_)
    have hb := hb.keeps hu.begins.toKeeps
    refine builds_addExpr hu.labelled ⟨fun hq _ hbound => ?_, rfl, hb.forall_mem_pair hi⟩
    simp only [Program.nodeForm, hb.within hq hbound, hi.within hq hbound]
  | unary op operand ih =>
    rw [occurrences, List.forall_mem_append] at he
    rw [build]
    split
    · exact .bind (ih he.1 hs) fun e t ht he => .here fun loc =>
        .advance (builds_unary op loc ht.labelled he)
    · exact .here fun loc =>
        .advance (.bind (ih he.1 hs) fun e t ht he => builds_unary op loc ht.labelled he)
  | binary op lhs rhs ihl ihr =>
    rw [occurrences, List.forall_mem_append, List.forall_mem_append] at he
    refine .bind (ihl he.1 hs) fun l t ht hl => .here fun loc => .advance ?_
    refine .bind (ihr he.2.1 ht.labelled) fun r u hu hr => .typeOf (.typeOf ?_)
    have hl := hl.keeps hu.begins.toKeeps
    refine builds_addExpr hu.labelled ⟨fun hq _ hbound => ?_, rfl, hl.forall_mem_pair hr⟩
    simp only [Program.nodeForm, hl.within hq hbound, hr.within hq hbound]
  | cast type operand ih =>
    rw [occurrences, List.forall_mem_append] at he
    refine .here fun loc => .advance (.bind (type.builds_build hs) fun _ t ht htype => .advance ?_)
    subst htype
    refine .bind (ih he.1 ht.labelled) fun e u hu he => ?_
    have hwritable : MiniC.Expr.isWritable ⟨.cast e, type.type, loc⟩ = true := type.isWritable_type
    refine builds_addExpr hu.labelled
      ⟨fun hq _ hbound => ?_, hwritable, he.forall_mem_singleton⟩
    simp only [Program.nodeForm, he.within hq hbound, TypeName.typeName_type]
  | sizeOfType type =>
    refine .here fun loc =>
      .advance (.advance (.bind (type.builds_build hs) fun _ t ht htype => .advance ?_))
    subst htype
    refine builds_addExpr ht.labelled
      ⟨fun hq _ hbound => ?_, type.isWritable_type, List.forall_mem_nil _⟩
    simp only [Program.nodeForm, TypeName.typeName_type]
  -- the size of an expression cannot be unfolded, since its type alone is kept
  | sizeOf operand => exact (he ⟨pos, .sizeOf operand⟩ (by simp [occurrences])).elim

end Expr

/-- Expressions of which none is a literal out of range or asks for the size of an expression. -/
def AllPlain (ps : List Piece) : Prop :=
  ∀ e, .expr e ∈ ps → ∃ pos, ∀ o ∈ e.occurrences pos, o.expr.Plain

/-- Every plain expression among the parts of a tree is built as written. -/
theorem AllPlain.build {ps : List Piece} (h : AllPlain ps) {e : Expr} (he : .expr e ∈ ps)
    (hs : Labelled s.built) :
    Builds e.build s fun p id => p.HasExpr id e := by
  obtain ⟨pos, hplain⟩ := h e he
  exact e.builds_build hplain hs

theorem AllPlain.subset {ps qs : List Piece} (h : AllPlain ps) (hsubset : qs ⊆ ps) : AllPlain qs :=
  fun e he => h e (hsubset he)

/-- An expression that may be missing is built as written, if at all. -/
theorem builds_buildOptional {ps : List Piece} (h : AllPlain ps) {e : Option Expr}
    (he : optionalPieces e ⊆ ps)
    (hs : Labelled s.built) : Builds (buildOptional e) s fun p id => Option.Rel p.HasExpr id e := by
  cases e with
  | none => exact .pure hs .none
  | some e => exact .map (h.build (he (by simp [optionalPieces])) hs) fun _ _ he => .some he

/-! ## Variables -/

/-- Brackets do not count among the stars of a type. -/
theorem Declarator.typeName_type (base : BaseType) (d : Declarator) :
    (d.type base).typeName = ⟨base, d.stars⟩ := by
  unfold type
  split <;> rw [withPointers_ofBase] <;> rfl

/-- The length of a type is the one in the brackets. -/
theorem Declarator.length?_eq (base : BaseType) (d : Declarator) :
    (d.type base).length? = d.length := by
  unfold type
  split <;> rename_i h <;> rw [withPointers_ofBase, h] <;> rfl

/-- A declaration of the program that is a variable unfolds to its declarator. -/
theorem Declarator.hasVariable {p : Program} {base : BaseType} {d : Declarator} {v : DeclId}
    {storage : Storage} {loc : Location} {init : Option ExprId} (hlt : v.index < p.decls.size)
    (hdecl : p.decl v = ⟨d.name, .variable (d.type base) init storage, loc⟩)
    (hinit : Option.Rel p.HasExpr init d.init) : p.HasVariable base v d := by
  have hstays {q : Program} (hq : p.Stays q) :
      q.decl v = ⟨d.name, .variable (d.type base) init storage, loc⟩ := by
    rw [hq.nonFunction hlt (by rw [hdecl]; rfl), hdecl]
  refine ⟨fun {q} hq => ?_, fun {q} hq => ?_⟩
  · rw [hstays hq, Decl.type, d.typeName_type]
  · have hforms := Program.mapM_eq_of_rel hinit fun _ _ he => he.exprForm?_eq hq.toKeeps
    rw [Program.declarator, hstays hq]
    dsimp only
    rw [hforms, d.typeName_type, d.length?_eq]
    exact if_pos rfl

/-- A new declaration is the last one. -/
theorem builds_addDecl {x : String} {kind : DeclKind} {loc : Location} (hs : Labelled s.built) :
    Ensures (addDecl x kind loc) s fun d t =>
      GoesOn s.built t.built ∧ d.index = s.program.decls.size ∧
      d.index < t.program.decls.size ∧ t.program.decl d = ⟨x, kind, loc⟩ :=
  ⟨.of_begins hs (Program.begins_pushDecl _ _), rfl, Program.index_pushDecl_lt _ _,
    Program.decl_pushDecl_self _ _⟩

/-- A variable is built with the initialiser that is written after it. -/
theorem Declarator.builds_buildRest {base : BaseType} {d : Declarator} (loc : Location)
    (storage : Storage) (hplain : AllPlain d.initPieces) (hs : Labelled s.built) :
    Builds (d.buildRest base loc storage) s fun p v => p.HasVariable base v d := by
  unfold buildRest
  refine (builds_skip _ hs).bind fun _ s hs _ => ?_
  refine Ensures.bind (builds_addDecl hs.labelled) fun v t ⟨ht, hnew, hlt, hdecl⟩ => ?_
  have hkind : (t.program.decl v).isFunction = false := by rw [hdecl]; rfl
  refine Ensures.bind (builds_declare ht.labelled hlt (congrArg Decl.name hdecl) hkind)
    fun _ u ⟨hu, hprogram⟩ => ?_
  have hsu := ht.trans hu
  have hltu : v.index < u.program.decls.size := by rwa [hprogram]
  have hdeclu : u.program.decl v = ⟨d.name, .variable (d.type base) none storage, loc⟩ := by
    rw [hprogram, hdecl]
  cases hinit : d.init with
  | none => exact ⟨hsu, d.hasVariable hltu hdeclu (by rw [hinit]; exact .none)⟩
  | some init =>
    have hmem : .expr init ∈ d.initPieces := by simp [initPieces, hinit]
    change Ensures (init.build >>= fun e => modifyDecl v (Decl.withInit e) >>= fun _ => Pure.pure v)
      { u with rest := u.rest.tail } _
    refine Ensures.bind (hplain.build hmem hu.labelled) fun e w hbuilt => ?_
    obtain ⟨hw, he⟩ := hbuilt
    -- the variable itself gets its initialiser, and what was there before it stays
    have hkeeps := Parenthesised.keeps_withInit w.program v e
    have hltw : v.index < w.program.decls.size := Nat.lt_of_lt_of_le hltu hw.begins.size
    have hsw := hsu.trans hw
    have hbegins := hsw.begins.modifyDecl (Nat.le_of_eq hnew.symm) hkeeps
    have hdeclw : w.program.decl v = ⟨d.name, .variable (d.type base) none storage, loc⟩ :=
      (hw.begins.decl hltu).trans hdeclu
    have hself : (w.program.modifyDecl v (Decl.withInit e)).decl v =
        ⟨d.name, .variable (d.type base) (some e) storage, loc⟩ := by
      rw [Program.decl_modifyDecl_self _ _ hltw, hdeclw]
      rfl
    refine ⟨⟨hsw.labelled.of_keeps hkeeps.toKeepsDecls, hbegins, hsw.kept, fun hx hd =>
      hsw.added hx ?_⟩, ?_⟩
    · exact (hkeeps.isFunction (hsw.labelled.of_lookup hx).1).symm.trans hd
    · refine d.hasVariable (Nat.lt_of_lt_of_le hltw hkeeps.size) hself ?_
      rw [hinit]
      exact .some (he.keeps hkeeps)

/-- A declarator unfolds to itself, with the base type of its list. -/
theorem Declarator.builds_build {base : BaseType} {d : Declarator} (storage : Storage)
    (hplain : AllPlain d.initPieces) (hs : Labelled s.built) :
    Builds (d.build base storage) s fun p v => p.HasVariable base v d :=
  (builds_skip d.stars hs).bind fun _ _ ht _ =>
    .here fun loc => .advance (d.builds_buildRest loc storage hplain ht.labelled)

/-- The parts of every item are parts of a list in commas. -/
theorem mem_piecesInCommas {pss : List (List Piece)} {ps : List Piece} (h : ps ∈ pss) :
    ps ⊆ piecesInCommas pss := by
  cases pss with
  | nil => cases h
  | cons first others =>
    rcases List.mem_cons.1 h with rfl | h
    · exact List.subset_append_left _ _
    · refine List.subset_append_of_subset_right _ fun p hp => ?_
      exact List.mem_flatMap.2 ⟨ps, h, List.mem_cons_of_mem _ hp⟩

/-- The parts of every initialiser are parts of the declaration. -/
theorem Declaration.initPieces_subset {d : Declaration} {v : Declarator} (hv : v ∈ d.declarators) :
    v.initPieces ⊆ d.pieces := by
  have hpieces := mem_piecesInCommas (List.mem_map_of_mem (f := Declarator.pieces) hv)
  intro p hp
  exact List.mem_cons_of_mem _ (List.mem_append_left _ (hpieces (by simp [Declarator.pieces, hp])))

/-- The variables of a declaration are built, one for each declarator. -/
theorem Declaration.builds_build {d : Declaration} (storage : Storage) (hplain : AllPlain d.pieces)
    (hs : Labelled s.built) :
    Builds (d.build storage) s fun p ds =>
      List.Forall₂ (p.HasVariable d.base) ds d.declarators := by
  have hdeclarators : Builds (buildInCommas (d.declarators.map (Declarator.build d.base storage)))
      { s with rest := s.rest.tail } fun p ds =>
        List.Forall₂ (p.HasVariable d.base) ds d.declarators := by
    refine builds_inCommas (fun hpq h => h.stays hpq.toStays) (fun v hv s hs => ?_) hs
    exact v.builds_build storage (hplain.subset (initPieces_subset hv)) hs
  exact .advance (hdeclarators.bind fun ds _ ht hds => .advance (.pure ht.labelled hds))

/-! ## Statements -/

/-- A statement may be added when the tree for it is there. -/
theorem builds_addStmt {kind : StmtKind} {loc : Location} {stmt : Stmt} (hs : Labelled s.built)
    (h : s.program.HasKind kind stmt) : Builds (addStmt kind loc) s fun p id =>
      p.HasStmt id stmt := by
  have hbegins := Program.begins_pushStmt s.program ⟨kind, loc⟩
  have hsize : (s.program.pushStmt ⟨kind, loc⟩).2.index <
      (s.program.pushStmt ⟨kind, loc⟩).1.stmts.size := by
    simp [Program.pushStmt]
  refine ⟨.of_begins hs hbegins, hsize, fun {q} hq bound hbound => ?_⟩
  obtain ⟨bound, rfl⟩ := Nat.exists_eq_add_of_lt hbound
  have hnode : q.stmt ⟨s.program.stmts.size⟩ = ⟨kind, loc⟩ :=
    (hq.stmt hsize).trans (Program.stmt_pushStmt_self _ _)
  rw [Program.stmtFormWithin, hnode]
  exact h (hbegins.toStays.trans hq) (Nat.le_add_right _ _)

/-- A declaration is added when all its declarators have the base type that is written. -/
theorem builds_addDeclare {d : Declaration} {ds : List DeclId} (loc : Location)
    (hs : Labelled s.built) (hds : List.Forall₂ (s.program.HasVariable d.base) ds d.declarators) :
    Builds (addStmt (.declare ds) loc) s fun p id => p.HasStmt id (.declare d) := by
  refine builds_addStmt hs fun hq _ _ => ?_
  rw [Program.kindForm, Program.declaration_eq hds hq]
  rfl

/-- An expression may be made a statement. -/
theorem builds_addExprStmt {e : Expr} {id : ExprId} (loc : Location) (hs : Labelled s.built)
    (he : s.program.HasExpr id e) : Builds (addStmt (.expr id) loc) s fun p id =>
      p.HasStmt id (.expr e) := by
  refine builds_addStmt hs fun hq _ _ => ?_
  rw [Program.kindForm, he.exprForm?_eq hq.toKeeps]
  rfl

/-- The first clause of a loop unfolds to itself. -/
theorem ForInit.builds_build {init : ForInit} (hplain : AllPlain init.pieces)
    (hs : Labelled s.built) :
    Builds init.build s fun p id => p.HasInit id init := by
  cases init with
  | none => exact .advance (.pure hs fun _ _ _ => rfl)
  | declare d =>
    refine .here fun loc => .bind (d.builds_build .local hplain hs) fun ds t ht hds => ?_
    exact (builds_addDeclare loc ht.labelled hds).map fun _ _ hid => hid.hasInit rfl
  | expr e =>
    refine .here fun loc => .bind (hplain.build (by simp [pieces]) hs) fun e' t ht he => .advance ?_
    have hadd : Builds (addStmt (.expr e') loc) { t with rest := t.rest.tail } fun p id =>
      p.HasStmt id (.expr e) :=
      builds_addExprStmt loc ht.labelled he
    exact hadd.map fun _ _ hid => hid.hasInit rfl

namespace Stmt

/-- A list of statements unfolds to itself if each of them does. -/
theorem builds_buildAll {body : List Stmt}
    (h : ∀ stmt ∈ body, ∀ s, Labelled s.built → Builds stmt.build s fun p id => p.HasStmt id stmt)
    (hs : Labelled s.built) : Builds (buildAll body) s fun p ids =>
      List.Forall₂ p.HasStmt ids body := by
  induction body generalizing s with
  | nil => exact .pure hs .nil
  | cons stmt body ih =>
    rw [List.forall_mem_cons] at h
    exact builds_cons (fun hpq hid => hid.stays hpq.toStays) (h.1 s hs) fun t ht => ih h.2 ht

/-- The parts of every statement are parts of the body. -/
theorem pieces_subset_of_mem {body : List Stmt} {stmt : Stmt} (h : stmt ∈ body) :
    stmt.pieces ⊆ piecesOfAll body := by
  induction body with
  | nil => cases h
  | cons first others ih =>
    rw [piecesOfAll]
    rcases List.mem_cons.1 h with rfl | h
    · exact List.subset_append_left _ _
    · exact List.subset_append_of_subset_right _ (ih h)

/-- A block is added to the statements in it. -/
theorem builds_addBlock {body : List Stmt} {ids : List StmtId} (loc : Location)
    (hs : Labelled s.built) (hids : List.Forall₂ s.program.HasStmt ids body) :
    Builds (addStmt (.block ids) loc) s fun p id => p.HasStmt id (.block body) := by
  refine builds_addStmt hs fun hq _ hbound => ?_
  have hforms := Program.mapM_eq_of_forall₂ (hids.imp fun _ _ hid => hid.within hq hbound)
  rw [Program.kindForm, hforms]
  rfl

/-- A statement is built that unfolds to the tree. -/
theorem builds_build (stmt : Stmt) (hplain : AllPlain stmt.pieces) (hs : Labelled s.built) :
    Builds stmt.build s fun p id => p.HasStmt id stmt := by
  induction stmt generalizing s with
  | block body ih =>
    have hbody (s : ParserState) (hs : Labelled s.built) :
        Builds (buildAll body) s fun p ids => List.Forall₂ p.HasStmt ids body := by
      refine builds_buildAll (fun stmt hmem s hs =>
        ih stmt hmem (hplain.subset fun p hp => ?_) hs) hs
      exact List.mem_cons_of_mem _ (List.mem_append_left _ (pieces_subset_of_mem hmem hp))
    exact .here fun loc => .advance (.bind (.inScope (hbody _ hs)) fun ids t ht hids =>
      .advance (builds_addBlock loc ht.labelled hids))
  | declare d =>
    exact .here fun loc => .bind (d.builds_build .local hplain hs) fun ds t ht hds =>
      builds_addDeclare loc ht.labelled hds
  | expr e =>
    exact .here fun loc => .bind (hplain.build (by simp [pieces]) hs) fun e' t ht he =>
      .advance (builds_addExprStmt loc ht.labelled he)
  | ifThen condition thenBranch ih =>
    have hthen : AllPlain thenBranch.pieces := hplain.subset fun p hp => by simp [pieces, hp]
    refine .here fun loc =>
      .advance (.advance (.bind (hplain.build (by simp [pieces]) hs) fun c t ht hc => ?_))
    refine .advance (.bind (ih hthen ht.labelled) fun b u hu hb =>
      builds_addStmt hu.labelled fun hq _ hbound => ?_)
    have hc := hc.keeps hu.begins.toKeeps
    rw [Program.kindForm, hc.exprForm?_eq hq.toKeeps, hb.within hq hbound]
    rfl
  | ifElse condition thenBranch elseBranch iht ihe =>
    have hthen : AllPlain thenBranch.pieces := hplain.subset fun p hp => by simp [pieces, hp]
    have helse : AllPlain elseBranch.pieces := hplain.subset fun p hp => by simp [pieces, hp]
    refine .here fun loc =>
      .advance (.advance (.bind (hplain.build (by simp [pieces]) hs) fun c t ht hc => ?_))
    refine .advance (.bind (iht hthen ht.labelled) fun b u hu hb => .advance ?_)
    refine .bind (ihe helse hu.labelled) fun b' v hv hb' =>
      builds_addStmt hv.labelled fun hq _ hbound => ?_
    have hc := hc.keeps (hu.begins.trans hv.begins).toKeeps
    have hb := hb.stays hv.begins.toStays
    rw [Program.kindForm, hc.exprForm?_eq hq.toKeeps, hb.within hq hbound, hb'.within hq hbound]
    rfl
  | whileLoop condition body ih =>
    have hbody : AllPlain body.pieces := hplain.subset fun p hp => by simp [pieces, hp]
    refine .here fun loc =>
      .advance (.advance (.bind (hplain.build (by simp [pieces]) hs) fun c t ht hc => ?_))
    refine .advance (.bind (ih hbody ht.labelled) fun b u hu hb =>
      builds_addStmt hu.labelled fun hq _ hbound => ?_)
    have hc := hc.keeps hu.begins.toKeeps
    rw [Program.kindForm, hc.exprForm?_eq hq.toKeeps, hb.within hq hbound]
    rfl
  | forLoop init condition increment body ih =>
    have hinit : AllPlain init.pieces := hplain.subset fun p hp => by simp [pieces, hp]
    have hcondition : optionalPieces condition ⊆ (forLoop init condition increment body).pieces :=
      fun p hp => by simp [pieces, hp]
    have hincrement : optionalPieces increment ⊆ (forLoop init condition increment body).pieces :=
      fun p hp => by simp [pieces, hp]
    have hbody : AllPlain body.pieces := hplain.subset fun p hp => by simp [pieces, hp]
    refine .here fun loc => .advance (.inScope (.advance ?_))
    refine .bind (init.builds_build hinit hs) fun i t ht hi => ?_
    refine .bind (builds_buildOptional hplain hcondition ht.labelled) fun c u hu hc => .advance ?_
    refine .bind (builds_buildOptional hplain hincrement hu.labelled) fun n v hv hn => .advance ?_
    refine .bind (ih hbody hv.labelled) fun b w hw hb =>
      builds_addStmt hw.labelled fun hq _ hbound => ?_
    -- each clause was built in an earlier program than the loop itself
    have htw := (hu.begins.trans hv.begins).trans hw.begins
    have hi := hi.stays htw.toStays hq hbound
    have hc := Program.mapM_eq_of_rel hc fun _ _ he =>
      (he.keeps (hv.begins.trans hw.begins).toKeeps).exprForm?_eq hq.toKeeps
    have hn :=
      Program.mapM_eq_of_rel hn fun _ _ he => (he.keeps hw.begins.toKeeps).exprForm?_eq hq.toKeeps
    rw [Program.kindForm, hi, hc, hn, hb.within hq hbound]
    rfl
  | ret value =>
    refine .here fun loc =>
      .advance (.bind (builds_buildOptional hplain ?_ hs) fun v t ht hv => .advance ?_)
    · exact fun p hp => List.mem_cons_of_mem _ (List.mem_append_left _ hp)
    refine builds_addStmt ht.labelled fun hq _ _ => ?_
    rw [Program.kindForm, Program.mapM_eq_of_rel hv fun _ _ he => he.exprForm?_eq hq.toKeeps]
    rfl
  | empty => exact .here fun loc => .advance (builds_addStmt hs fun _ _ _ => rfl)

end Stmt

end MiniC.Written
