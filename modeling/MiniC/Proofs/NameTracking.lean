import MiniC.Proofs.ScopeTables

/-!
# Names while a tree is built

`Written.Performs x es` says that the parser `x` does what the events `es` are about: it keeps the
tables in step with the names (`Written.Tracks`), or fails for a name that is faulty. Building a
tree does what its trace is about (`Written.File.performs_build`).
-/

set_option autoImplicit false

namespace MiniC

namespace Parser

variable {α β : Type}

/-- The parser succeeds from `s` with a result and a state that satisfy `Q`, or fails with an error
that satisfies `E`. -/
def Gives (x : Parser α) (s : ParserState) (Q : α → ParserState → Prop)
    (E : ParseError → Prop) : Prop :=
  match x s with
  | .ok (a, t) => Q a t
  | .error e => E e

variable {s t : ParserState} {Q Q' : α → ParserState → Prop} {E E' : ParseError → Prop}

/-- What a parser gives may be weakened, results and errors alike. -/
theorem Gives.mono {x : Parser α} (h : Gives x s Q E) (hQ : ∀ a t, Q a t → Q' a t)
    (hE : ∀ e, E e → E' e) :
    Gives x s Q' E' := by
  unfold Gives at h ⊢
  split at h
  · exact hQ _ _ h
  · exact hE _ h

theorem gives_modify {f : ParserState → ParserState} {Q : PUnit → ParserState → Prop} :
    Gives (modify f) s Q E ↔ Q ⟨⟩ (f s) := Iff.rfl

theorem gives_fail {fault : ParseFault} {loc : Location} :
    Gives (fail fault loc : Parser α) s Q E ↔ E ⟨fault, loc⟩ := Iff.rfl

/-- The place asked for is that of the next token, or of the end. -/
theorem gives_here {Q : Location → ParserState → Prop} :
    Gives here s Q E ↔ Q ((s.rest.head?.map Token.loc).getD s.endLoc) s := Iff.rfl

theorem gives_advance {Q : Unit → ParserState → Prop} :
    Gives advance s Q E ↔ Q () { s with rest := s.rest.tail } := Iff.rfl

theorem gives_declOf {d : DeclId} {Q : Decl → ParserState → Prop} :
    Gives (declOf d) s Q E ↔ Q (s.program.decl d) s := Iff.rfl

/-- What follows is to give the outcome from wherever the first parser has come to. -/
theorem gives_bind {x : Parser α} {f : α → Parser β} {Q : β → ParserState → Prop} :
    Gives (x >>= f) s Q E ↔ Gives x s (fun a t => Gives (f a) t Q E) E := by
  change (match Except.bind (x s) fun r => f r.1 r.2 with
    | .ok (b, t) => Q b t
    | .error e => E e) ↔ _
  unfold Except.bind Gives
  cases x s <;> rfl

/-- A name is resolved to a declaration, or reported as undeclared. -/
theorem gives_resolve {x : String} {loc : Location} {Q : DeclId → ParserState → Prop} :
    Gives (resolve x loc) s Q E ↔
      match s.scopes.resolve? x with
      | some d => Q d s
      | none => E ⟨.undeclared x, loc⟩ := by
  unfold resolve
  rw [gives_bind]
  change Gives (match s.scopes.resolve? x with
    | some d => pure d
    | none => fail (.undeclared x) loc) s Q E ↔ _
  cases s.scopes.resolve? x <;> rfl

/-- A name is declared in the innermost scope, or reported as declared there already. -/
theorem gives_declare {x : String} {d : DeclId} {loc : Location} {Q : Unit → ParserState → Prop} :
    Gives (declare x d loc) s Q E ↔
      match s.scopes.innermost.lookup x with
      | some _ => E ⟨.redefinition x, loc⟩
      | none => Q () { s with scopes := s.scopes.declare x d } := by
  unfold declare
  rw [gives_bind]
  change Gives (if (s.scopes.innermost.lookup x).isSome = true then _ else _) s Q E ↔ _
  cases s.scopes.innermost.lookup x <;> rfl

/-- A scope is entered before and left after. -/
theorem gives_inScope {x : Parser α} :
    Gives (inScope x) s Q E ↔
      Gives x { s with scopes := s.scopes.enter }
        (fun a t => Q a { t with scopes := t.scopes.leave }) E := by
  unfold inScope
  rw [gives_bind, gives_modify, gives_bind]
  rfl

end Parser

namespace Decl

variable (params : List DeclId) (loc : Location) (body : StmtId) (d : Decl)

theorem name_withParams : (d.withParams params loc).name = d.name := by
  rcases d with ⟨_, _ | _, _⟩ <;> rfl

theorem isFunction_withParams : (d.withParams params loc).isFunction = d.isFunction := by
  rcases d with ⟨_, _ | _, _⟩ <;> rfl

theorem name_withBody : (d.withBody body).name = d.name := by
  rcases d with ⟨_, _ | _, _⟩ <;> rfl

theorem isFunction_withBody : (d.withBody body).isFunction = d.isFunction := by
  rcases d with ⟨_, _ | _, _⟩ <;> rfl

end Decl

namespace Written

open MiniC.Parser

variable {α β : Type} {stream : TokenStream} {ident : Mark → DeclId}
    {marks : List Mark} {spot : Spot}
  {s : ParserState}

/-! ## Positions -/

/-- The marks that events leave are not before the place where they begin. -/
theorem pos_le_of_mem {es : List Event} {m : Mark} (h : m ∈ marksFrom spot es) : spot.pos ≤ m.pos :=
  (spell_getElem_of_mem h).1

/-- The marks that events leave are before the place where they end. -/
theorem pos_lt_of_mem {es : List Event} {m : Mark} (h : m ∈ marksFrom spot es) :
    m.pos < (spot.after es).pos := by
  obtain ⟨hle, hget⟩ := spell_getElem_of_mem h
  obtain ⟨hlt, -⟩ := List.getElem?_eq_some_iff.1 hget
  rw [pos_after]
  omega

/-- Tokens that are no names leave no marks. -/
theorem marksFrom_plain (ls : List Lexeme) (spot : Spot) : marksFrom spot (plain ls) = [] := by
  induction ls generalizing spot with
  | nil => rfl
  | cons x ls ih => exact ih _

/-! ## Parsers that do what events are about -/

/-- From some names on the text goes on with others, and the tables follow. -/
def Tracked (stream : TokenStream) (ident : Mark → DeclId) (old new : List Mark) (spot : Spot)
    (t : ParserState) : Prop :=
  ∃ ident', (∀ m ∈ old, ident' m = ident m) ∧ Tracks stream ident' (old ++ new) spot t

/-- The error is that one of the new names is faulty. -/
def Rejected (stream : TokenStream) (old new : List Mark) (e : ParseError) : Prop :=
  ∃ m ∈ new, ∃ fault, Faulty (old ++ new) m fault ∧ e = ⟨fault, place stream m.pos⟩

/-- From a position on, the parser does what the events are about. -/
def PerformsAt (stream : TokenStream) (spot : Spot) (x : Parser α) (es : List Event) : Prop :=
  ∀ ident marks s, Tracks stream ident marks spot s →
    Gives x s (fun _ t => Tracked stream ident marks (marksFrom spot es) (spot.after es) t)
      (Rejected stream marks (marksFrom spot es))

/-- The parser does what the events are about. -/
def Performs (stream : TokenStream) (x : Parser α) (es : List Event) : Prop :=
  ∀ spot, PerformsAt stream spot x es

/-- Where nothing is read, the tables follow. -/
theorem Tracks.tracked (h : Tracks stream ident marks spot s) :
    Tracked stream ident marks [] spot s :=
  ⟨ident, fun _ _ => rfl, by rwa [List.append_nil]⟩

/-- Faulty names are so in the rest of the text as well. -/
theorem Rejected.append {old first : List Mark} {e : ParseError} {es : List Event}
    (h : Rejected stream old first e) (hold : ∀ m ∈ old, m.pos < spot.pos)
    (hfirst : ∀ m ∈ first, m.pos < spot.pos) :
    Rejected stream old (first ++ marksFrom spot es) e := by
  obtain ⟨m, hm, fault, hfault, rfl⟩ := h
  refine ⟨m, List.mem_append_left _ hm, fault, ?_, rfl⟩
  rw [← List.append_assoc]
  refine hfault.grows (List.mem_append_right _ hm) (.append fun use huse _ m' hm' => ?_)
  have hpos : use.pos < spot.pos := (List.mem_append.1 huse).elim (hold use) (hfirst use)
  exact Nat.le_of_lt (Nat.lt_of_lt_of_le hpos (pos_le_of_mem hm'))

/-- A name that is faulty after others is faulty among all of them. -/
theorem Rejected.after {old first new : List Mark} {e : ParseError}
    (h : Rejected stream (old ++ first) new e) :
    Rejected stream old (first ++ new) e := by
  obtain ⟨m, hm, fault, hfault, rfl⟩ := h
  refine ⟨m, List.mem_append_right _ hm, fault, ?_, rfl⟩
  rwa [← List.append_assoc]

/-- One parser after the other. -/
theorem PerformsAt.bind {x : Parser α} {f : α → Parser β} {es es' : List Event}
    (hx : PerformsAt stream spot x es)
    (hf : ∀ a, PerformsAt stream (spot.after es) (f a) es') :
    PerformsAt stream spot (x >>= f) (es ++ es') := by
  intro ident marks s hs
  rw [gives_bind, marksFrom_append, after_append]
  refine (hx ident marks s hs).mono (fun a t ⟨ident₁, hagree₁, ht⟩ => ?_) fun e he => ?_
  · refine (hf a ident₁ _ t ht).mono (fun b u ⟨ident₂, hagree₂, hu⟩ => ?_) fun e he => he.after
    refine ⟨ident₂, fun m hm => ?_, ?_⟩
    · rw [hagree₂ m (List.mem_append_left _ hm), hagree₁ m hm]
    · rwa [← List.append_assoc]
  · refine he.append (fun m hm => ?_) fun m hm => pos_lt_of_mem hm
    have hle : spot.pos ≤ (spot.after es).pos := by
      rw [pos_after]
      exact Nat.le_add_right _ _
    exact Nat.lt_of_lt_of_le (hs.before m hm).1 hle

namespace Performs

variable {x : Parser α} {f : α → Parser β} {es es' : List Event}

/-- One event after the other, one parser after the other. -/
theorem bind (hx : Performs stream x es) (hf : ∀ a, Performs stream (f a) es') :
    Performs stream (x >>= f) (es ++ es') := fun spot => (hx spot).bind fun a => hf a _

theorem pure (a : α) : Performs stream (pure a) [] := fun _ _ _ _ hs => hs.tracked

theorem of_append_nil (h : Performs stream x (es ++ [])) : Performs stream x es := by
  rwa [List.append_nil] at h

/-- A step that neither takes tokens nor has to do with names. -/
theorem still {f : ParserState → α × ParserState} (hx : ∀ s, x s = .ok (f s))
    (hf : ∀ ident marks spot s, Tracks stream ident marks spot s →
      Tracks stream ident marks spot (f s).2) :
    Performs stream x [] := by
  intro spot ident marks s hs
  rw [Gives, hx]
  exact (hf _ _ _ _ hs).tracked

/-- What comes first has nothing to do with names. -/
theorem after_still (hx : Performs stream x []) (hf : ∀ a, Performs stream (f a) es) :
    Performs stream (x >>= f) es := hx.bind hf

/-- What comes last has nothing to do with names. -/
theorem then_still (hx : Performs stream x es) (hf : ∀ a, Performs stream (f a) []) :
    Performs stream (x >>= f) es := (hx.bind hf).of_append_nil

theorem map {g : α → β} (hx : Performs stream x es) : Performs stream (g <$> x) es := by
  rw [map_eq_pure_bind]
  exact hx.then_still fun _ => .pure _

theorem here : Performs stream here [] := .still (fun _ => rfl) fun _ _ _ _ hs => hs

theorem typeOf (e : ExprId) : Performs stream (typeOf e) [] :=
  .still (fun _ => rfl) fun _ _ _ _ hs => hs

/-- A node that mentions no name leaves the tables as they are. -/
theorem addExpr {kind : ExprKind} (type : CType) (loc : Location) (hkind : kind.mention? = none) :
    Performs stream (addExpr kind type loc) [] := by
  refine .still (fun _ => rfl) fun _ _ _ _ hs => hs.addExpr fun role d hd => ?_
  rw [hkind] at hd
  cases hd

theorem addStmt (kind : StmtKind) (loc : Location) : Performs stream (addStmt kind loc) [] :=
  .still (fun _ => rfl) fun _ _ _ _ hs => hs.addStmt _

theorem addItem (item : MiniC.Item) : Performs stream (addItem item) [] :=
  .still (fun _ => rfl) fun _ _ _ _ hs => hs.addItem item

/-- A token that is taken is an event of its own. -/
theorem advance (x : Lexeme) : Performs stream advance [.token x] :=
  fun _ _ _ _ hs => Tracks.tracked hs.token

/-- A token is taken that is no name. -/
theorem token {f : Unit → Parser β} (x : Lexeme) (hf : Performs stream (f ()) es) :
    Performs stream (Parser.advance >>= f) (.token x :: es) := (advance x).bind fun _ => hf

theorem skip (ls : List Lexeme) : Performs stream (skip ls.length) (plain ls) := by
  induction ls with
  | nil => exact .pure _
  | cons x ls ih => exact .token x ih

/-- A scope is an event at its beginning and one at its end. -/
theorem inScope (hx : Performs stream x es) :
    Performs stream (inScope x) (.enter :: (es ++ [.leave])) := by
  intro spot ident marks s hs
  rw [gives_inScope]
  have hmarks : marksFrom spot (.enter :: (es ++ [.leave])) = marksFrom (spot.step .enter) es := by
    rw [marksFrom, marksFrom_append]
    exact List.append_nil _
  have hafter : spot.after (.enter :: (es ++ [.leave])) =
      ((spot.step .enter).after es).step .leave :=
    after_append _ es [.leave]
  rw [hmarks, hafter]
  refine (hx _ ident marks _ hs.enter).mono (fun a t ht => ?_) fun e he => he
  obtain ⟨ident', hagree, ht⟩ := ht
  exact ⟨ident', hagree, ht.leave⟩

end Performs

/-- The events of a list in commas are those of its parts and the commas between them. -/
theorem performs_inCommas {ι : Type} {build : ι → Parser α} {trace : ι → List Event} {ts : List ι}
    (h : ∀ t ∈ ts, Performs stream (build t) (trace t)) :
    Performs stream (buildInCommas (ts.map build)) (traceInCommas (ts.map trace)) := by
  have hafter : ∀ ts : List ι, (∀ t ∈ ts, Performs stream (build t) (trace t)) →
      Performs stream (buildAfterCommas (ts.map build))
        ((ts.map trace).flatMap (.token (.punct .comma) :: ·)) := by
    intro ts h
    induction ts with
    | nil => exact .pure _
    | cons t ts ih =>
      rw [List.forall_mem_cons] at h
      exact .token _ (h.1.bind fun _ => (ih h.2).then_still fun _ => .pure _)
  cases ts with
  | nil => exact .pure _
  | cons t ts =>
    rw [List.forall_mem_cons] at h
    exact h.1.bind fun _ => (hafter ts h.2).then_still fun _ => .pure _

theorem TypeName.performs_build (t : TypeName) : Performs stream t.build (plain t.lexemes) := by
  refine .token _ (Performs.then_still ?_ fun _ => .pure _)
  have hskip : Performs stream _ _ := .skip (List.replicate t.stars (.punct .star))
  rwa [List.length_replicate] at hskip

/-! ## Names that are used -/

/-- A name is faulty, whatever follows. -/
theorem Tracks.rejected {m : Mark} {es : List Event} {fault : ParseFault}
    (hs : Tracks stream ident marks spot s)
    (hm : m.toSpot = spot) (hfault : Faulty (marks ++ [m]) m fault) :
    Rejected stream marks (m :: marksFrom ⟨spot.pos + 1, spot.scope⟩ es)
      ⟨fault, place stream spot.pos⟩ := by
  subst hm
  have hrejected : Rejected stream marks [m] ⟨fault, place stream m.pos⟩ :=
    ⟨m, List.mem_singleton_self _, _, hfault, rfl⟩
  refine hrejected.append (fun m' hm' => ?_) fun m' hm' => ?_
  · exact Nat.lt_succ_of_lt (hs.before m' hm').1
  · rw [List.mem_singleton] at hm'
    rw [hm']
    exact Nat.lt_succ_self _

/-- A name is used, and the rest goes on with what it means. -/
theorem performs_use {x : String} {role : Role} {es : List Event} {f : Location → DeclId → Parser α}
    (hrole : role.declares = false)
    (hf : ∀ spot ident marks s decl,
      Tracks stream ident (marks ++ [⟨spot, x, role⟩]) ⟨spot.pos + 1, spot.scope⟩ s →
      Visible marks decl ⟨spot, x, role⟩ →
      Gives (f (place stream spot.pos) (ident decl)) s
        (fun _ t => Tracked stream ident (marks ++ [⟨spot, x, role⟩])
          (marksFrom ⟨spot.pos + 1, spot.scope⟩ es) (Spot.after ⟨spot.pos + 1, spot.scope⟩ es) t)
        fun e =>
          Rejected stream (marks ++ [⟨spot, x, role⟩]) (marksFrom ⟨spot.pos + 1, spot.scope⟩ es) e ∨
          ∃ fault, Faulty (marks ++ [⟨spot, x, role⟩]) ⟨spot, x, role⟩ fault ∧
            e = ⟨fault, place stream spot.pos⟩) :
    Performs stream (do
      let loc ← here
      advance
      let d ← resolve x loc
      f loc d) (.name x role :: es) := by
  intro spot ident marks s hs
  rw [gives_bind, gives_here, hs.here, gives_bind, gives_advance, gives_bind, gives_resolve]
  have hmarks : marksFrom spot (.name x role :: es) =
      ⟨spot, x, role⟩ :: marksFrom ⟨spot.pos + 1, spot.scope⟩ es := rfl
  rw [hmarks]
  have hresolve := hs.resolve x role
  dsimp only at hresolve ⊢
  split
  · next d hd =>
    rw [hd] at hresolve
    obtain ⟨decl, hdecl, rfl⟩ := hresolve
    refine (hf spot ident marks _ decl (hs.use hrole hdecl) hdecl).mono
      (fun a t ⟨ident', hagree, ht⟩ => ?_) ?_
    · refine ⟨ident', fun m hm => hagree m (List.mem_append_left _ hm), ?_⟩
      rw [List.append_assoc] at ht
      exact ht
    · rintro e (he | ⟨fault, hfault, rfl⟩)
      · exact he.after
      · exact hs.rejected rfl hfault
  -- no declaration is visible
  · next hd =>
    rw [hd] at hresolve
    exact hs.rejected rfl (.undeclared hrole fun decl h =>
      hresolve decl (Tracks.visible_append_self.1 h))

/-- An expression is added for a name that was used before. -/
theorem Tracks.addMention {m decl : Mark} {new : List Mark} {kind : ExprKind} {type : CType}
    (hs : Tracks stream ident (marks ++ [m] ++ new) spot s)
    (hdecl : Visible marks decl m) (hnew : ∀ m' ∈ new, m.pos < m'.pos)
    (hkind : kind.mention? = some (m.role, ident decl)) :
    Tracks stream ident (marks ++ [m] ++ new) spot
      { s with program := (s.program.pushExpr ⟨kind, type, place stream m.pos⟩).1 } := by
  refine hs.addExpr fun role d hd => ?_
  obtain ⟨rfl, rfl⟩ := Prod.mk.inj (Option.some.inj (hkind.symm.trans hd))
  refine ⟨m, by simp, rfl, rfl, decl, ?_, rfl⟩
  refine (visible_congr fun m' hm' => ?_).1 hdecl
  have hne : m' ≠ m := fun heq => Nat.lt_irrefl _ (heq ▸ hm')
  have hnot : m' ∉ new := fun hmem => Nat.lt_asymm hm' (hnew m' hmem)
  simp [hne, hnot]

/-! ## Expressions -/

namespace Expr

/-- A name that is used is an event, which is faulty if it is not declared. -/
theorem performs_name (x : String) : Performs stream (build (.name x)) [.name x .reference] := by
  refine performs_use rfl fun spot ident marks s decl hs hdecl => ?_
  rw [gives_bind, gives_declOf]
  refine ⟨ident, fun _ _ => rfl, ?_⟩
  have hs : Tracks stream ident (marks ++ [(⟨spot, x, .reference⟩ : Mark)] ++ [])
      ⟨spot.pos + 1, spot.scope⟩ s := by
    rwa [List.append_nil]
  exact hs.addMention hdecl (by simp) rfl

/-- A call uses the name of the function before its arguments. -/
theorem performs_call (f : String) (args : List Expr)
    (hargs : ∀ arg ∈ args, Performs stream arg.build arg.trace) :
    Performs stream (build (.call f args)) (trace (.call f args)) := by
  refine performs_use rfl fun spot ident marks s decl hs hdecl => ?_
  -- what the name means is a function in the text if and only if it is one in the program
  have hdenotes : (s.program.decl (ident decl)).isFunction = decl.role.isFunction :=
    (hs.denotes decl (List.mem_append_left _ hdecl.mem) hdecl.declares).isFunction
  have hvisible := Tracks.visible_append_self.2 hdecl
  rw [gives_bind, gives_declOf]
  dsimp only
  split
  · -- the node is added after the arguments, with the declaration that was found before them
    rw [buildEach_eq_map, traceEach_eq_map, gives_bind, gives_advance, gives_bind]
    have hmarks (spot : Spot) (es : List Event) :
        marksFrom spot (.token (.punct .leftParen) :: (es ++ plain [.punct .rightParen])) =
          marksFrom ⟨spot.pos + 1, spot.scope⟩ es := by
      rw [marksFrom, marksFrom_append, marksFrom_plain, List.append_nil]
      rfl
    have hafter (spot : Spot) (es : List Event) :
        spot.after (.token (.punct .leftParen) :: (es ++ plain [.punct .rightParen])) =
          (Spot.after ⟨spot.pos + 1, spot.scope⟩ es).step (.token (.punct .rightParen)) :=
            after_append _ es _
    rw [hmarks, hafter]
    refine (performs_inCommas hargs _ ident _ _ hs.token).mono (fun as t ht => ?_) fun e => .inl
    obtain ⟨ident', hagree, ht⟩ := ht
    rw [gives_bind, gives_advance, gives_bind, gives_declOf]
    refine ⟨ident', hagree, ht.token.addMention hdecl (fun m hm => ?_) ?_⟩
    · exact Nat.lt_of_lt_of_le (Nat.lt_succ_of_lt (Nat.lt_succ_self _)) (pos_le_of_mem hm)
    · rw [hagree decl (List.mem_append_left _ hdecl.mem)]
      rfl
  · -- the name of a variable is called
    next hkind =>
    rw [gives_bind, gives_fail]
    refine .inr ⟨_, .notAFunction decl rfl hvisible ?_, rfl⟩
    rw [← hdenotes]
    exact Bool.eq_false_iff.2 hkind

/-- An expression does what its trace says. -/
theorem performs_build (e : Expr) : Performs stream e.build e.trace := by
  induction e with
  | literal value => exact .after_still .here fun loc => .token _ (.addExpr _ loc rfl)
  | name x => exact performs_name x
  | call f args ih => exact performs_call f args ih
  | paren inner ih =>
    refine .after_still .here fun loc => .token _ (ih.bind fun e => .token _ ?_)
    exact .after_still (.typeOf e) fun type => .addExpr type loc rfl
  | subscript base index ih ih' =>
    refine ih.bind fun e => .after_still .here fun loc => .token _ (ih'.bind fun i => .token _ ?_)
    exact .after_still (.typeOf e) fun type => .addExpr _ loc rfl
  | unary op operand ih =>
    have hadd (e : ExprId) (loc : Location) : Performs stream (addUnary op e loc) [] :=
      .after_still (.typeOf e) fun type => .addExpr _ loc rfl
    rw [build, trace]
    split
    · exact ih.bind fun e => .after_still .here fun loc => .token _ (hadd e loc)
    · exact .after_still .here fun loc => .token _ (ih.then_still fun e => hadd e loc)
  | binary op lhs rhs ih ih' =>
    refine ih.bind fun l => .after_still .here fun loc => .token _ (ih'.then_still fun r => ?_)
    exact .after_still (.typeOf l) fun _ => .after_still (.typeOf r) fun _ => .addExpr _ loc rfl
  | cast type operand ih =>
    refine .after_still .here fun loc => .token _ (type.performs_build.bind fun type => .token _ ?_)
    exact ih.then_still fun e => .addExpr type loc rfl
  | sizeOfType type =>
    refine .after_still .here fun loc =>
      .token _ (.token _ (type.performs_build.bind fun type => .token _ ?_))
    exact .addExpr .int loc rfl
  | sizeOf operand ih =>
    refine .after_still .here fun loc => .token _ (ih.then_still fun e => ?_)
    exact .after_still (.typeOf e) fun type => .addExpr .int loc rfl

end Expr

theorem performs_buildOptional (e : Option Expr) :
    Performs stream (buildOptional e) (optionalTrace e) := by
  cases e with
  | none => exact .pure _
  | some e => exact .map e.performs_build

/-! ## Variables -/

theorem performs_withInit (v : DeclId) (e : ExprId) :
    Performs stream (modifyDecl v (Decl.withInit e)) [] := by
  refine .still (fun _ => rfl) fun ident marks spot s hs => ?_
  have hname (d : Decl) : (d.withInit e).name = d.name := by unfold Decl.withInit; split <;> rfl
  have hloc (d : Decl) : (d.withInit e).loc = d.loc := by unfold Decl.withInit; split <;> rfl
  have hkind (d : Decl) : (d.withInit e).isFunction = d.isFunction := by
    unfold Decl.withInit
    split
    · next h => simp [Decl.isFunction, h]
    · rfl
  have hbody (d : Decl) : (d.withInit e).hasBody = d.hasBody := by
    unfold Decl.withInit
    split
    · next h => simp [Decl.hasBody, h]
    · rfl
  refine hs.modifyDecl (keepsDecls_modifyDecl _ (hname _) (hkind _) fun _ => hloc _) fun h => ?_
  rw [hbody] at h
  exact hs.bodies v h

/-- A variable is declared, with tokens between its name and the point where it is visible. -/
theorem performs_declare {x : String} (ls : List Lexeme) (type : CType)
    (storage : Storage) {es : List Event}
    {f : DeclId → Parser α} (hf : ∀ v, Performs stream (f v) es) :
    Performs stream (do
      let loc ← here
      advance
      skip ls.length
      let v ← addDecl x (.variable type none storage) loc
      declare x v loc
      f v) (.name x .variable :: (plain ls ++ es)) := by
  intro spot ident marks s hs
  have hmarks : marksFrom spot (.name x .variable :: (plain ls ++ es)) =
      ⟨spot, x, .variable⟩ :: marksFrom (Spot.after ⟨spot.pos + 1, spot.scope⟩ (plain ls)) es := by
    rw [marksFrom, marksFrom_append, marksFrom_plain, List.nil_append]
    rfl
  have hafter : spot.after (.name x .variable :: (plain ls ++ es)) =
      (Spot.after ⟨spot.pos + 1, spot.scope⟩ (plain ls)).after es := after_append _ (plain ls) es
  rw [hmarks, hafter, gives_bind, gives_here, hs.here, gives_bind, gives_advance, gives_bind]
  refine (Performs.skip ls _ ident marks _ hs.token).mono (fun _ t ht => ?_) fun e he => ?_
  · obtain ⟨ident₁, hagree, ht⟩ := ht
    rw [marksFrom_plain, List.append_nil] at ht
    generalize hspot : Spot.after ⟨spot.pos + 1, spot.scope⟩ (plain ls) = spot₁ at ht ⊢
    have hscope : spot₁.scope = spot.scope := by
      rw [← hspot]
      exact closed_plain ls _
    have hpos : spot.pos < spot₁.pos := by
      rw [← hspot, pos_after]
      exact Nat.lt_of_lt_of_le (Nat.lt_succ_self _) (Nat.le_add_right _ _)
    change Gives (declare x _ (place stream spot.pos) >>= fun _ => f _) _ _ _
    rw [gives_bind, gives_declare]
    split
    · next d hd =>
      obtain ⟨other, hother, hdecl, hsame, hname, -⟩ := ht.innermost.mark hd
      -- whatever declares the name in this scope lies before, so the name is declared twice
      have hne : other ≠ ⟨spot, x, .variable⟩ := by
        rintro rfl
        exact Nat.lt_irrefl _ (hs.before _ hother).1
      refine ⟨_, List.mem_cons_self, _, ?_, rfl⟩
      exact .redefinition other rfl (List.mem_append_left _ hother) hdecl
        (hsame.trans hscope) hname hne
    · next hnone =>
      -- the scope does not have the name, so that the table may get it
      have hnew := ht.newVariable (m := ⟨spot, x, .variable⟩) rfl hscope.symm hpos hs.opened
        (fun m hm => (hs.before m hm).1) hnone type storage
      refine (hf _ _ _ _ _ hnew).mono (fun a u hu => ?_) fun e he => he.after
      obtain ⟨ident₂, hagree₂, hu⟩ := hu
      refine ⟨ident₂, fun m hm => ?_, ?_⟩
      · rw [hagree₂ m (List.mem_append_left _ hm),
          Tracks.assign_of_ne _ _ (fun m' hm' heq => ?_) m hm, hagree m hm]
        exact Nat.lt_irrefl _ (heq ▸ (hs.before m' hm').1)
      · rw [List.append_assoc] at hu
        exact hu
  · -- tokens alone leave no marks, of which none can be faulty
    obtain ⟨m, hm, -⟩ := he
    rw [marksFrom_plain] at hm
    cases hm

/-- A declarator declares its name before its initialiser is read. -/
theorem Declarator.performs_build (base : BaseType) (storage : Storage) (d : Declarator) :
    Performs stream (d.build base storage) d.trace := by
  have hstars : Performs stream _ _ := .skip (List.replicate d.stars (.punct .star))
  rw [List.length_replicate] at hstars
  refine hstars.bind fun _ => performs_declare d.lengthLexemes (d.type base) storage fun v => ?_
  unfold initTrace
  cases d.init with
  | none => exact .pure v
  | some init =>
    refine .token _ (init.performs_build.then_still fun e => ?_)
    exact .after_still (performs_withInit v e) fun _ => .pure v

/-- The declarators of a list are read one after the other. -/
theorem Declaration.performs_build (storage : Storage) (d : Declaration) :
    Performs stream (d.build storage) d.trace := by
  refine .token _ ((performs_inCommas fun v _ => v.performs_build d.base storage).bind fun ds => ?_)
  exact .token _ (.pure ds)

/-! ## Statements -/

theorem ForInit.performs_build (init : ForInit) : Performs stream init.build init.trace := by
  cases init with
  | none => exact .token _ (.pure _)
  | declare d =>
    exact .after_still .here fun loc => (d.performs_build .local).then_still fun ds =>
      .map (.addStmt _ loc)
  | expr e =>
    exact .after_still .here fun loc => e.performs_build.bind fun e =>
      .token _ (.map (.addStmt _ loc))

namespace Stmt

/-- The statements of a body are read one after the other. -/
theorem performs_buildAll {body : List Stmt}
    (h : ∀ stmt ∈ body, Performs stream stmt.build stmt.trace) :
    Performs stream (buildAll body) (traceAll body) := by
  induction body with
  | nil => exact .pure _
  | cons stmt body ih =>
    rw [List.forall_mem_cons] at h
    exact h.1.bind fun id => (ih h.2).then_still fun ids => .pure _

/-- A statement does what its trace says. -/
theorem performs_build (stmt : Stmt) : Performs stream stmt.build stmt.trace := by
  induction stmt with
  | block body ih =>
    refine .after_still .here fun loc =>
      .token _ ((performs_buildAll ih).inScope.bind fun ids => ?_)
    exact .token _ (.addStmt _ loc)
  | declare d =>
    exact .after_still .here fun loc => (d.performs_build .local).then_still fun ds =>
      .addStmt _ loc
  | expr e =>
    exact .after_still .here fun loc => e.performs_build.bind fun e => .token _ (.addStmt _ loc)
  | ifThen condition thenBranch ih =>
    refine .after_still .here fun loc =>
      .token _ (.token _ (condition.performs_build.bind fun c => ?_))
    exact .token _ (ih.then_still fun t => .addStmt _ loc)
  | ifElse condition thenBranch elseBranch iht ihe =>
    -- the branches are no scopes of their own
    refine .after_still .here fun loc =>
      .token _ (.token _ (condition.performs_build.bind fun c => ?_))
    exact .token _ (iht.bind fun t => .token _ (ihe.then_still fun e => .addStmt _ loc))
  | whileLoop condition body ih =>
    refine .after_still .here fun loc =>
      .token _ (.token _ (condition.performs_build.bind fun c => ?_))
    exact .token _ (ih.then_still fun b => .addStmt _ loc)
  | forLoop init condition increment body ih =>
    -- the scope of a loop begins at its parenthesis
    refine .after_still .here fun loc =>
      .token _ (.inScope (.token _ (init.performs_build.bind fun i => ?_)))
    refine (performs_buildOptional condition).bind fun c => .token _ ?_
    refine (performs_buildOptional increment).bind fun n => .token _ ?_
    exact ih.then_still fun b => .addStmt _ loc
  | ret value =>
    refine .after_still .here fun loc => .token _ ((performs_buildOptional value).bind fun v => ?_)
    exact .token _ (.addStmt _ loc)
  | empty => exact .after_still .here fun loc => .token _ (.addStmt _ loc)

end Stmt

/-! ## Parameters -/

/-- A parameter without a name is declared, which no table sees. -/
theorem performs_unnamed (type : CType) (loc : Location) :
    Performs stream (addDecl "" (.variable type none .param) loc) [] :=
  .still (fun _ => rfl) fun _ _ _ _ hs => hs.unnamed rfl

/-- A parameter declares its name, if it has one. -/
theorem Param.performs_build (p : Param) : Performs stream p.build p.trace := by
  have hlength : Performs stream _ _ := .skip p.lengthLexemes
  refine p.typeName.performs_build.bind fun _ => ?_
  unfold nameTrace
  cases p.name with
  | none =>
    refine .after_still .here fun loc => .after_still (.pure ()) fun _ =>
      hlength.then_still fun _ => ?_
    exact .after_still (performs_unnamed p.type loc) fun d => .pure d
  | some x =>
    by_cases hx : x.isEmpty = true
    · obtain rfl := String.isEmpty_iff.1 hx
      refine .after_still .here fun loc => (Performs.skip [.identifier ""]).bind fun _ =>
        hlength.then_still fun _ => ?_
      exact .after_still (performs_unnamed p.type loc) fun d => .pure d
    · have hdeclare := performs_declare (x := x) p.lengthLexemes p.type .param fun v =>
        (.pure v : Performs stream _ _)
      rw [List.append_nil] at hdeclare
      dsimp only
      rw [if_neg hx]
      simpa [skip, hx] using hdeclare

/-- Between the parentheses there are only variables, in one scope. -/
theorem variables_of_mem_params {params : Params} {m : Mark} (h : m ∈ marksFrom spot params.trace) :
    m.role = .variable ∧ m.scope = spot.scope := by
  -- where no scope begins, all names declare variables of the scope that is open
  have hvariable : ∀ es : List Event, (∀ e ∈ es, (∃ x, e = .token x) ∨ ∃ x, e = .name x .variable) →
      ∀ spot : Spot, ∀ m ∈ marksFrom spot es, m.role = .variable ∧ m.scope = spot.scope := by
    intro es
    induction es with
    | nil => simp [marksFrom]
    | cons e es ih =>
      intro hes spot m hm
      rw [List.forall_mem_cons] at hes
      rcases List.mem_append.1 hm with hm | hm
      · rcases hes.1 with ⟨x, rfl⟩ | ⟨x, rfl⟩
        · cases hm
        · obtain rfl := List.mem_singleton.1 hm
          exact ⟨rfl, rfl⟩
      · obtain ⟨hrole, hscope⟩ := ih hes.2 _ m hm
        rcases hes.1 with ⟨x, rfl⟩ | ⟨x, rfl⟩ <;> exact ⟨hrole, hscope⟩
  refine hvariable _ ?_ _ m h
  have hplain (ls : List Lexeme) :
      ∀ e ∈ plain ls, (∃ x, e = .token x) ∨ ∃ x, e = .name x .variable := by
    simp [plain]
  -- a parameter is made of tokens, except for its name
  have hparam (p : Param) : ∀ e ∈ p.trace, (∃ x, e = .token x) ∨ ∃ x, e = .name x .variable := by
    intro e he
    rcases List.mem_append.1 he with he | he
    · exact hplain _ e he
    rcases List.mem_append.1 he with he | he
    · unfold Param.nameTrace at he
      split at he
      · cases he
      · split at he <;> simp at he <;> simp [he]
    · exact hplain _ e he
  cases params with
  | void => exact hplain _
  | list params =>
    cases params with
    | nil => simp [Params.trace, traceInCommas]
    | cons p ps =>
      intro e he
      simp only [Params.trace, traceInCommas, List.map_cons, List.mem_append,
        List.mem_flatMap, List.mem_map, List.mem_cons] at he
      rcases he with he | ⟨es, ⟨p', -, rfl⟩, rfl | he⟩
      · exact hparam p e he
      · exact .inl ⟨_, rfl⟩
      · exact hparam p' e he

theorem Params.performs_build (params : Params) : Performs stream params.build params.trace := by
  cases params with
  | void => exact .token _ (.pure _)
  | list params => exact performs_inCommas fun p _ => p.performs_build

/-! ## Functions -/

/-- A function is declared in the file. -/
theorem Tracks.functionDecl {m : Mark} (h : Tracks stream ident marks spot s)
    (hrole : m.role.isFunction = true)
    (hscope : m.scope = []) (hpos : m.pos < spot.pos) (hne : ∀ m' ∈ marks, m' ≠ m)
    (huses : ∀ use ∈ marks, use.role.declares = false → use.pos ≤ m.pos)
    (returnType : CType) (loc : Location)
    (params : List DeclId) :
    Gives (functionDecl returnType m.name loc params) s
      (fun d t => (∃ ident', (∀ m' ∈ marks, ident' m' = ident m') ∧ ident' m = d ∧
          Tracks stream ident' (marks ++ [m]) spot t) ∧
        ((t.program.decl d).hasBody = true → ∃ other ∈ marks, other.role = .definition ∧
          other.name = m.name))
      (fun e => e = ⟨.differentKind m.name, loc⟩ ∧
        ∃ other ∈ marks, other.role = .variable ∧ other.scope = [] ∧ other.name = m.name) := by
  unfold Parser.functionDecl
  rw [gives_bind]
  change Gives (match s.scopes.file.lookup m.name with
    | some d => _
    | none => _) s _ _
  split
  -- the file has the name: for a function, which is declared again, or for a variable
  · next d hlookup =>
    obtain ⟨first, hfirst, hdecl, hscope', hname, hd⟩ := h.file.mark hlookup
    have hdenotes := h.denotes first hfirst hdecl
    rw [gives_bind, gives_declOf]
    dsimp only
    split
    · next hkind =>
      refine ⟨⟨_, Tracks.assign_of_ne _ d hne, Tracks.assign_self _ _ _,
        h.sameFunction hrole hscope hpos hne huses hlookup hkind⟩, fun hbody => ?_⟩
      obtain ⟨other, hother, hdefinition, hname'⟩ := h.bodies d hbody
      refine ⟨other, hother, hdefinition, ?_⟩
      rw [hname', ← hd, hdenotes.name, hname]
    · next hkind =>
      refine ⟨rfl, first, hfirst, Role.eq_variable hdecl ?_, hscope', hname⟩
      rw [← hdenotes.isFunction, hd]
      exact Bool.eq_false_iff.2 hkind
  · next hnone =>
    refine ⟨⟨_, Tracks.assign_of_ne _ _ hne, Tracks.assign_self _ _ _,
      h.newFunction hrole hscope hpos hne huses hnone returnType params loc⟩, fun hbody => ?_⟩
    have hnew : ((s.program.pushDecl ⟨m.name, .function returnType params none, loc⟩).1.decl
        (s.program.pushDecl ⟨m.name, .function returnType params none, loc⟩).2).hasBody = true :=
          hbody
    rw [Program.decl_pushDecl_self] at hnew
    cases hnew

/-- A function gets parameters or a body, and some definition has its name. -/
theorem Tracks.modifyFunction {m : Mark} {f : Decl → Decl}
    (h : Tracks stream ident marks spot s) (hm : m ∈ marks)
    (hrole : m.role = .definition) (hname : ∀ d : Decl, (f d).name = d.name)
    (hkind : ∀ d : Decl, (f d).isFunction = d.isFunction) :
    Tracks stream ident marks spot { s with program := s.program.modifyDecl (ident m) f } := by
  have hdenotes := h.denotes m hm (by rw [hrole]; rfl)
  have hfunction : (s.program.decl (ident m)).isFunction = true := by
    rw [hdenotes.isFunction, hrole]
    rfl
  refine h.modifyDecl (keepsDecls_modifyDecl _ (hname _) ?_ fun hf => ?_) fun _ =>
    ⟨m, hm, hrole, hdenotes.name.symm⟩
  · rw [hkind]
  · rw [hfunction] at hf
    cases hf

/-- The body of a function, which must be its first one. -/
theorem gives_buildBody {m : Mark} (hs : Tracks stream ident marks spot s) (hm : m ∈ marks)
    (hrole : m.role = .definition) (opening : Location) (params : List DeclId) (body : List Stmt) :
    Gives (buildBody (ident m) m.name (place stream m.pos) opening params body) s
      (fun _ t => Tracked stream ident marks
        (marksFrom spot (Stmt.traceAll body ++ plain [.punct .rightBrace]))
        (spot.after (Stmt.traceAll body ++ plain [.punct .rightBrace])) t)
      fun e => Rejected stream marks
        (marksFrom spot (Stmt.traceAll body ++ plain [.punct .rightBrace])) e ∨
        (s.program.decl (ident m)).hasBody = true ∧
          e = ⟨.functionRedefinition m.name, place stream m.pos⟩ := by
  unfold buildBody
  rw [gives_bind, gives_declOf]
  dsimp only
  split
  · next hbody => exact .inr ⟨hbody, rfl⟩
  -- the statements are read after the definition has got its parameters
  · have hstmts : Performs stream (do
        let ids ← Stmt.buildAll body
        advance
        addStmt (.block ids) opening) (Stmt.traceAll body ++ plain [.punct .rightBrace]) :=
      (Stmt.performs_buildAll fun stmt _ => stmt.performs_build).bind fun ids =>
        .token _ (.addStmt _ opening)
    have hparams := hs.modifyFunction hm hrole (Decl.name_withParams params (place stream m.pos))
      (Decl.isFunction_withParams params _)
    have hread := hstmts spot ident marks _ hparams
    rw [gives_bind] at hread
    change Gives (Stmt.buildAll body >>= fun ids => advance >>= fun _ =>
        addStmt (.block ids) opening >>= fun block =>
      modifyDecl (ident m) (Decl.withBody block)) _ _ _
    rw [gives_bind]
    refine hread.mono (fun ids t ht => ?_) fun e he => .inl he
    rw [gives_bind, gives_advance] at ht ⊢
    obtain ⟨ident', hagree, ht⟩ := ht
    refine ⟨ident', hagree, ?_⟩
    rw [← hagree m hm]
    exact ht.modifyFunction (List.mem_append_left _ hm) hrole (Decl.name_withBody _)
      (Decl.isFunction_withBody _)

/-- The name of a variable that is faulty among some names is faulty among more. -/
theorem Faulty.of_declares {marks' : List Mark} {m : Mark} {fault : ParseFault}
    (h : Faulty marks m fault)
    (hm : m.role = .variable) (hsub : ∀ m' ∈ marks, m' ∈ marks') : Faulty marks' m fault := by
  cases h with
  | redefinition other _ hother hdecl hscope hname hne =>
    exact .redefinition other hm (hsub _ hother) hdecl hscope hname hne
  | undeclared hrole => rw [hm] at hrole; cases hrole
  | notAFunction _ hrole => rw [hm] at hrole; cases hrole
  | differentKind _ hrole => rw [hm] at hrole; cases hrole
  | functionRedefinition _ hrole => rw [hm] at hrole; cases hrole

namespace Function

theorem isFunction_role (f : Function) : f.role.isFunction = true := by
  unfold role
  split <;> rfl

/-- What comes after the parentheses of a function. -/
theorem gives_buildEnd (f : Function) {m : Mark} {new : List Mark} (hname : m.name = f.name)
    (hrole : m.role = f.role) (hs : Tracks stream ident (marks ++ m :: new) spot s)
    (hbody : (s.program.decl (ident m)).hasBody = true →
      ∃ other ∈ marks ++ new, other.role = .definition ∧ other.name = m.name)
        (hm : m ∉ marks ++ new)
    (params : List DeclId) :
    Gives (do
        let opening ← here
        advance
        if let some body := f.body then
          buildBody (ident m) f.name (place stream m.pos) opening params body) s
      (fun _ t => Tracked stream ident (marks ++ m :: new) (marksFrom spot f.bodyTrace)
        (spot.after f.bodyTrace) t)
      (Rejected stream marks (m :: new ++ marksFrom spot f.bodyTrace)) := by
  rw [gives_bind, gives_here, gives_bind, gives_advance]
  unfold bodyTrace
  unfold role at hrole
  cases hf : f.body with
  | none => exact Tracks.tracked hs.token
  | some body =>
    rw [hf] at hrole
    have hmem : m ∈ marks ++ m :: new := by simp
    rw [← hname]
    refine (gives_buildBody hs.token hmem hrole _ params body).mono (fun _ t ht => ht) ?_
    rintro e (he | ⟨hfound, rfl⟩)
    · exact he.after
    -- a body that is there already is that of another definition of the name
    · obtain ⟨other, hother, hdefinition, hsame⟩ := hbody hfound
      have hfault : Faulty (marks ++ m :: new) m (.functionRedefinition m.name) := by
        refine .functionRedefinition other hrole ?_ hdefinition hsame fun heq => hm (heq ▸ hother)
        rcases List.mem_append.1 hother with hother | hother <;> simp [hother]
      have hrejected :
          Rejected stream marks (m :: new) ⟨.functionRedefinition m.name, place stream m.pos⟩ :=
        ⟨m, List.mem_cons_self, _, hfault, rfl⟩
      refine hrejected.append (fun m' hm' => ?_) fun m' hm' => ?_
      · exact (hs.before m' (List.mem_append_left _ hm')).1
      · exact (hs.before m' (List.mem_append_right _ hm')).1

/-- Where the parameters begin of a function whose name is at the spot. -/
def inside (spot : Spot) : Spot := ⟨spot.pos + 2, (spot.pos + 2) :: spot.scope⟩

/-- Where the parameters have ended. -/
def closing (f : Function) (spot : Spot) : Spot :=
  ((inside spot).after f.params.trace).step (.token (.punct .rightParen))

/-- What comes from the name of a function on: its parameters and its body are in a scope of their
own. -/
def traceFromName (f : Function) : List Event :=
  .name f.name f.role :: .token (.punct .leftParen) :: .enter ::
    (f.params.trace ++ .token (.punct .rightParen) :: f.bodyTrace ++ [.leave])

/-- A function leaves the mark of its name, then those of its parameters and of its body. -/
theorem marksFrom_traceFromName (f : Function) (spot : Spot) :
    marksFrom spot f.traceFromName = ⟨spot, f.name, f.role⟩ ::
      (marksFrom (inside spot) f.params.trace ++ marksFrom (f.closing spot) f.bodyTrace) := by
  change _ :: marksFrom (inside spot)
    (f.params.trace ++ .token (.punct .rightParen) :: f.bodyTrace ++ [.leave]) = _
  rw [marksFrom_append, marksFrom_append]
  exact congrArg (_ :: ·) (List.append_nil _)

/-- What comes after a function is outside of its scope. -/
theorem after_traceFromName (f : Function) (spot : Spot) :
    spot.after f.traceFromName = ((f.closing spot).after f.bodyTrace).step .leave := by
  change (inside spot).after (f.params.trace ++
    .token (.punct .rightParen) :: f.bodyTrace ++ [.leave]) = _
  rw [after_append, after_append]
  rfl

/-- The parameters of a function end after its name. -/
theorem pos_lt_closing (f : Function) (spot : Spot) : spot.pos < (f.closing spot).pos := by
  have hclosing : (f.closing spot).pos = (inside spot).pos + (spell f.params.trace).length + 1 :=
    congrArg (· + 1) (pos_after _ _)
  rw [hclosing, inside]
  dsimp only
  omega

/-- The parameters are declared before the function is, which then has its name in the file before
its body is read. -/
theorem performs_build (f : Function) (hscope : spot.scope = []) :
    PerformsAt stream spot f.build f.trace := by
  refine (f.returnType.performs_build spot).bind fun _ => ?_
  have hscope : (spot.after (plain f.returnType.lexemes)).scope = [] :=
    (closed_plain _ _).trans hscope
  generalize spot.after (plain f.returnType.lexemes) = spot at hscope ⊢
  intro ident marks s hs
  let m : Mark := ⟨spot, f.name, f.role⟩
  change Gives _ s (fun _ t => Tracked stream ident marks (marksFrom spot f.traceFromName)
    (spot.after f.traceFromName) t) (Rejected stream marks (marksFrom spot f.traceFromName))
  rw [marksFrom_traceFromName, after_traceFromName, gives_bind, gives_here, hs.here,
    gives_bind, gives_advance, gives_bind, gives_advance, buildRest, gives_inScope, gives_bind]
  have hparams {m' : Mark} (hm' : m' ∈ marksFrom (inside spot) f.params.trace) :
      m'.role = .variable :=
    (variables_of_mem_params hm').1
  have hlater {m' : Mark} (hm' : m' ∈ marksFrom (inside spot) f.params.trace) : spot.pos < m'.pos :=
    Nat.lt_of_lt_of_le (Nat.lt_add_of_pos_right (by decide)) (pos_le_of_mem hm')
  refine (f.params.performs_build (inside spot) ident marks _ hs.token.token.enter).mono
    (fun params t ⟨ident₁, hagree₁, ht⟩ => ?_) fun e ⟨m', hm', fault, hfault, he⟩ => ?_
  · rw [gives_bind, gives_advance, gives_bind]
    -- the tables get the name of the function only now, although it is written before the
    -- parameters
    have hne : ∀ m' ∈ marks ++ marksFrom (inside spot) f.params.trace, m' ≠ m := by
      rintro m' hm' rfl
      rcases List.mem_append.1 hm' with hm' | hm'
      · exact Nat.lt_irrefl _ (hs.before m hm').1
      · exact Nat.lt_irrefl _ (hlater hm')
    have huses : ∀ use ∈ marks ++ marksFrom (inside spot) f.params.trace,
        use.role.declares = false → use.pos ≤ m.pos := by
      intro use huse hrole
      rcases List.mem_append.1 huse with huse | huse
      · exact Nat.le_of_lt (hs.before use huse).1
      · rw [hparams huse] at hrole
        cases hrole
    refine (ht.token.functionDecl (m := m) f.isFunction_role hscope
      (f.pos_lt_closing spot) hne huses f.returnType.type
      (place stream spot.pos) params).mono (fun d u ⟨⟨ident₂, hagree₂, hd, hu⟩, hbody⟩ => ?_) ?_
    · subst hd
      have hmem (m' : Mark) : m' ∈ marks ++ marksFrom (inside spot) f.params.trace ++ [m] ↔
          m' ∈ marks ++ m :: marksFrom (inside spot) f.params.trace := by
        simp only [List.mem_append, List.mem_cons, List.not_mem_nil, or_false]
        grind
      have hu := hu.of_mem hmem
      refine (f.gives_buildEnd rfl rfl hu hbody (fun hmem => hne m hmem rfl) params).mono
        (fun _ v ⟨ident₃, hagree₃, hv⟩ => ?_) fun e he => he
      refine ⟨ident₃, fun m' hm' => ?_, ?_⟩
      · rw [hagree₃ m' (List.mem_append_left _ hm'),
          hagree₂ m' (List.mem_append_left _ hm'), hagree₁ m' hm']
      · rw [List.append_assoc] at hv
        exact hv.leave
    -- the name is that of a variable of the file
    · rintro e ⟨rfl, other, hother, hrole, hsame, hname⟩
      refine ⟨m, List.mem_cons_self, _, ?_, rfl⟩
      refine .differentKind other f.isFunction_role ?_ hrole (hsame.trans hscope.symm) hname
      rcases List.mem_append.1 hother with hother | hother <;> simp [hother]
  · refine ⟨m', by simp [hm'], fault, hfault.of_declares (hparams hm') fun m'' hm'' => ?_, he⟩
    rcases List.mem_append.1 hm'' with hm'' | hm'' <;> simp [hm'']

end Function

/-! ## Files -/

theorem performs_addItems (ds : List DeclId) :
    Performs stream (ds.forM fun d => addItem (.variable d)) [] := by
  induction ds with
  | nil => exact .pure _
  | cons d ds ih => exact .after_still (.addItem _) fun _ => ih

/-- A declaration of the file does what its trace says, outside of all scopes. -/
theorem TopLevel.performs_build (d : TopLevel) (hscope : spot.scope = []) :
    PerformsAt stream spot d.build d.trace := by
  have hitem {spot : Spot} (hscope : spot.scope = []) :
      PerformsAt stream spot d.item.build d.item.trace := by
    cases d.item with
    | declaration v =>
      exact (v.performs_build .global).then_still (fun ds => performs_addItems ds) spot
    | function f => exact f.performs_build hscope
  rw [TopLevel.build, TopLevel.trace]
  split
  · exact (Performs.advance _ spot).bind fun _ => hitem hscope
  · exact hitem hscope

theorem File.performs_build (file : File) : PerformsAt stream ⟨0, []⟩ file.build file.trace := by
  have hall : ∀ (ds : List TopLevel) (spot : Spot), spot.scope = [] →
      PerformsAt stream spot (ds.forM TopLevel.build) (ds.flatMap TopLevel.trace) := by
    intro ds
    induction ds with
    | nil => exact fun spot _ => Performs.pure _ spot
    | cons d ds ih =>
      exact fun spot hscope => (d.performs_build hscope).bind fun _ =>
        ih _ ((d.closed_trace spot).trans hscope)
  exact hall file.declarations _ rfl

/-- Before the first token there are no names. -/
theorem tracks_start (stream : TokenStream) (ident : Mark → DeclId) :
    Tracks stream ident [] ⟨0, []⟩ (.start stream) where
  rest := rfl
  endLoc := rfl
  opened := by simp
  before := by simp
  functions := by simp
  inner := trivial
  file := .nil (by simp)
  single := by simp [Single]
  denotes := by simp
  mentions e he := absurd he (Nat.not_lt_zero _)
  uses := by simp
  bodies d hd := by
    have hdefault : ((ParserState.start stream).program.decl d) = default := by
      simp [ParserState.start, Program.decl, Program.empty, Array.getD]
    rw [hdefault] at hd
    cases hd

end Written

end MiniC
