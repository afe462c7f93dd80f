import MiniC.Proofs.Locations

/-!
# Where a run fails

A run that fails points into the call that it fails in (`Program.error_points_into_failing_call`):
the reported place is that of an expression in the body of the function whose frame is on top, or in
the initialiser of a variable of the file where no call is active. It is the place of the expression
that could not be carried out (`Run.Failed`), or of one inside it. The expressions of a frame are
those in the body of its function, or in the initialisers of the file (`Program.Encloses`).
-/

set_option autoImplicit false

namespace MiniC

/-! ## Enclosing bodies -/

/-- An expression belongs to a frame: it lies in the body of the frame's function, or in the
initialiser of a variable of the file. -/
def Program.Encloses (p : Program) : Option (Option DeclId) → ExprId → Prop
  | none, e => ∃ d, .variable d ∈ p.items.toList ∧ p.DeclContains d e
  | some function, e => ∃ d returnType params body, function = some d ∧
      (p.decl d).kind = .function returnType params (some body) ∧ p.StmtContains body e

namespace Program

variable {p : Program}

theorem StmtContains.contains {id : StmtId} {e q : ExprId} (h : p.StmtContains id e)
    (hq : p.Contains e q) :
    p.StmtContains id q := by
  induction h with
  | root hroot he => exact .root hroot (he.trans hq)
  | inner hi _ ih => exact .inner hi (ih hq)

/-- What lies inside an expression belongs to the same frame. -/
theorem Encloses.contains {site : Option (Option DeclId)} {e q : ExprId} (h : p.Encloses site e)
    (hq : p.Contains e q) : p.Encloses site q := by
  cases site with
  | none =>
    obtain ⟨d, hd, init, hinit, he⟩ := h
    exact ⟨d, hd, init, hinit, he.trans hq⟩
  | some function =>
    obtain ⟨d, returnType, params, body, hfunction, hk, he⟩ := h
    exact ⟨d, returnType, params, body, hfunction, hk, he.contains hq⟩

/-- The expressions of every frame, with any diagnostics that comprise those that are reported. -/
def bodies (image : Image) (kept : Diagnostic → Prop)
    (hkept : ∀ {e construct}, image.Meaningless e construct →
      kept ⟨construct, (image.program.expr e).loc⟩) :
    image.Scene where
  encloses := image.program.Encloses
  kept := kept
  operand he hc := he.contains (.operand hc (.self _))
  body hk he := ⟨_, _, _, _, rfl, hk, he⟩
  report := hkept

end Program

/-! ## Parsed programs -/

namespace Program

variable {p : Program}

theorem Encloses.lt_size {site : Option (Option DeclId)} {e : ExprId} (h : p.Encloses site e)
    (hp : p.WellFormed) :
    e.index < p.exprs.size := by
  cases site with
  | none =>
    obtain ⟨d, hd, init, hinit, he⟩ := h
    exact he.lt_size hp.tree (hp.inits hinit).lt
  | some function =>
    obtain ⟨d, returnType, params, body, hfunction, hk, he⟩ := h
    exact he.lt_size hp

/-- Expressions of a text lie at tokens, none of which lies before the start of the text. -/
theorem start_upTo_loc {source : String} (h : parse source = .ok p) {e : ExprId}
    (he : e.index < p.exprs.size) :
    Location.start.UpTo (p.expr e).loc := by
  obtain ⟨stream, file, hstream, hfile, hlexemes, -⟩ := Written.exists_file_of_parse h
  have hwrites : Written.Writes stream file := ⟨hfile, hlexemes⟩
  have hnodes := hwrites.nodes (Written.parse_eq_ofTokens hstream ▸ h)
  rw [List.forall₂_iff_get] at hnodes
  have hi : e.index < file.occurrences.length := by rwa [hnodes.1, Array.length_toList]
  have hnode := hnodes.2 e.index hi (by simpa using he)
  have hexpr : p.exprs.toList.get ⟨e.index, by simpa using he⟩ = p.expr e :=
    (expr_of_toList (List.getElem?_eq_getElem _)).symm
  rw [hexpr] at hnode
  have hlength : file.lexemes.length = stream.tokens.length := by rw [← hlexemes, List.length_map]
  -- the anchor of an occurrence is the position of a token
  have hanchor :=
    (file.spread_anchors.bounds _
      (List.mem_map_of_mem (List.get_mem file.occurrences ⟨e.index, hi⟩))).2
  have hlt : (file.occurrences.get ⟨e.index, hi⟩).anchor < stream.tokens.length := hlength ▸ hanchor
  rw [hnode.loc, Written.place, List.getElem?_eq_getElem hlt]
  exact (before_of_tokensFrom hstream).1 _ (List.getElem_mem hlt)

theorem loc_ne_nowhere {source : String} (h : parse source = .ok p) {e : ExprId}
    (he : e.index < p.exprs.size) :
    (p.expr e).loc ≠ .nowhere := by
  intro hloc
  have hstart := start_upTo_loc h he
  rw [hloc] at hstart
  simp [Location.UpTo, Location.Before, Location.start, Location.nowhere] at hstart

/-- Errors point into the failing call. When a first run ends in an error, then there is no function
to enter, or it has no body, or the error is reported for an expression of the program, and not for
the place that stands for none: an expression in the body of the function whose frame is on top when
the run stops, or in the initialiser of a variable of the file if no call is active. It is one that
could not be carried out, or lies inside one that could not. -/
theorem error_points_into_failing_call {source : String} (h : parse source = .ok p)
    {κ : Type} [Console κ]
    {config : Config} {console : κ} {fuel : Nat} {err : RuntimeError} {t : State κ}
    (hrun : Run.run (Image.load p config) fuel (.initial (Image.load p config) console) =
      .error (.error err) t) :
    err = .noEntryFunction ∧ (Image.load p config).entry = none ∨
      Run.EntryLacksBody (Image.load p config) (.error err) ∨
      ∃ cause loc e d, err = .fault cause loc ∧
        Run.Failed (Image.load p config) e (.error err) t ∧ p.Contains e d ∧
        p.Encloses t.stack.site e ∧ p.Encloses t.stack.site d ∧ d.index < p.exprs.size ∧
          (p.expr d).loc = loc ∧ loc ≠ .nowhere := by
  have hwf : p.WellFormed := (resolved_of_parse h).wellFormed
  -- a run begins outside all calls, with nothing on record
  have hplaced : State.Placed (bodies (Image.load p config) (fun _ => True) fun _ => trivial) none
      (.initial (Image.load p config) console) := ⟨fun _ _ => trivial, rfl⟩
  have hends :=
    Run.ensures_run_points _ hplaced (fun d hd init hinit => ⟨d, hd, init, hinit, .self init⟩) fuel
  rw [Run.Ensures, hrun] at hends
  rcases hends.2 with ⟨herr, hentry⟩ | hlacks | ⟨-, hfuel | ⟨e, he, hfailed, hblamed⟩⟩
  · cases herr
    exact .inl ⟨rfl, hentry⟩
  · exact .inr (.inl hlacks)
  · cases hfuel
  · cases err with
    -- an expression is only blamed for a fault
    | noEntryFunction => exact hblamed.elim
    | fault cause loc =>
      obtain ⟨⟨d, hd, hloc⟩, -⟩ := hblamed
      have hd' : p.Encloses t.stack.site d := Encloses.contains he hd
      have hlt := hd'.lt_size hwf
      exact .inr
        (.inr ⟨cause, loc, e, d, rfl, hfailed, hd, he, hd', hlt, hloc, hloc ▸ loc_ne_nowhere h hlt⟩)

/-- The second call of a function divides by its parameter, which is zero: the error lies at the
divisor, in the body of the function that is called and not at the call. -/
theorem error_points_into_a_division :
    ∃ p t,
      parse "int half(int n) { return 8 / n; }\nint main() { return half(4) + half(0); }" = .ok p ∧
      let image := Image.load p {}
      Run.run image 30 (.initial image (Scripted.ofInput [])) =
          .error (.error (.fault (.divisionByZero .div) ⟨1, 30⟩)) t ∧
        ∃ e d, Run.Failed image e (.error (.fault (.divisionByZero .div) ⟨1, 30⟩)) t ∧
          p.Contains e d ∧
          p.Encloses t.stack.site e ∧ p.Encloses t.stack.site d ∧ (p.expr d).loc = ⟨1, 30⟩ := by
  obtain ⟨p, hp, hhalt⟩ : ∃ p,
      parse "int half(int n) { return 8 / n; }\nint main() { return half(4) + half(0); }" = .ok p ∧
        Run.halt?
          (Run.run (Image.load p {}) 30 (.initial (Image.load p {}) (Scripted.ofInput []))) =
          some (.error (.fault (.divisionByZero .div) ⟨1, 30⟩)) :=
    exists_of_parse (by decide +kernel)
  obtain ⟨t, ht⟩ := Run.exists_of_halt? hhalt
  rcases error_points_into_failing_call hp ht with
    ⟨herr, -⟩ | ⟨entry, -, -, hlacks⟩ | ⟨cause, loc, e, d, herr, hfailed, hcontains,
      he, hd, -, hloc, -⟩
  · cases herr
  · cases hlacks
  · cases herr
    exact ⟨p, t, hp, ht, e, d, hfailed, hcontains, he, hd, hloc⟩

end Program

end MiniC
