import MiniC.Proofs.Fuel
import MiniC.Proofs.NameResolution
import MiniC.Proofs.RelabelledFiles
import MiniC.Proofs.RelabelledRuns

/-!
# Layout and names do not matter

Two texts with the same tokens up to places and names are programs alike. Their tokens are those of
one list, in which every token lies at a place that is its number, under two relabellings; what
becomes of this list under either is known from `Program.ofTokens_relabel`. Their runs are compared
by forgetting the places of one, and the places of the other together with its names
(`Run.relabelOutcome_run_load`).
-/

set_option autoImplicit false

namespace MiniC

/-! ## Numbered tokens -/

namespace TokenStream

/-- The tokens, each at a place that is its number. -/
def numbered (stream : TokenStream) : TokenStream where
  tokens := stream.tokens.mapIdx fun i token => ⟨token.lexeme, ⟨i, 0⟩⟩
  endLoc := ⟨stream.tokens.length, 0⟩

/-- The second list of tokens has other names, at whatever places. -/
def Renamed (σ : Renaming) (stream stream' : TokenStream) : Prop :=
  stream'.tokens.map Token.lexeme = stream.tokens.map fun token => token.lexeme.rename σ

/-- The names of a renaming, and the places of the tokens with some numbers. -/
def relabelling (σ : Renaming) (stream : TokenStream) : Relabelling :=
  σ.withPlaces fun loc => Written.place stream loc.line

/-- The tokens with other names are those with numbers for places, under these names and their own
places. -/
theorem Renamed.eq_relabel {σ : Renaming} {stream stream' : TokenStream}
    (h : Renamed σ stream stream') :
    stream' = stream.numbered.relabel (stream'.relabelling σ) := by
  have hlength : stream'.tokens.length = stream.tokens.length := by
    simpa using congrArg List.length h
  have htokens :
      stream'.tokens = stream.numbered.tokens.map (Token.relabel (stream'.relabelling σ)) := by
    apply List.ext_getElem
    · simp [numbered, hlength]
    intro i hi hi'
    have hi₀ : i < stream.tokens.length := hlength ▸ hi
    have hlexeme : stream'.tokens[i].lexeme = stream.tokens[i].lexeme.rename σ := by
      simpa [List.getElem?_eq_getElem hi, List.getElem?_eq_getElem hi₀] using congrArg (·[i]?) h
    have hplace : stream'.tokens[i].loc = Written.place stream' i := by simp [Written.place, hi]
    simp only [numbered, List.getElem_map, List.getElem_mapIdx]
    exact congrArg₂ Token.mk hlexeme hplace
  have hend : stream'.endLoc = Written.place stream' stream.tokens.length := by
    simp [Written.place, ← hlength]
  rw [relabel, ← htokens]
  exact congrArg (TokenStream.mk stream'.tokens) hend

theorem renamed_id (stream : TokenStream) : Renamed Renaming.id stream stream := by
  apply List.map_congr_left
  intro token _
  cases token.lexeme <;> rfl

/-- What lies behind the last token is the end of the text. -/
theorem place_min_length (stream : TokenStream) (i : Nat) :
    Written.place stream (min i stream.tokens.length) = Written.place stream i := by
  rcases Nat.le_total i stream.tokens.length with h | h
  · rw [Nat.min_eq_left h]
  · rw [Nat.min_eq_right h, Written.place, Written.place, List.getElem?_eq_none (Nat.le_refl _),
      List.getElem?_eq_none h]

instance (σ : Renaming) (stream stream' : TokenStream) : Decidable (Renamed σ stream stream') :=
  inferInstanceAs (Decidable (_ = _))

/-- Two texts whose tokens can be compared. -/
theorem exists_renamed_of_tokenize {σ : Renaming} {source source' : String}
    (h : ((tokenize source).toOption.any fun stream =>
      (tokenize source').toOption.any fun stream' => decide (Renamed σ stream stream')) = true) :
    ∃ stream stream', tokenize source = .ok stream ∧ tokenize source' = .ok stream' ∧
      Renamed σ stream stream' := by
  cases htokens : tokenize source with
  | error e =>
    rw [htokens] at h
    cases h
  | ok stream =>
    cases htokens' : tokenize source' with
    | error e =>
      rw [htokens, htokens'] at h
      cases h
    | ok stream' =>
      rw [htokens, htokens'] at h
      exact ⟨stream, stream', rfl, rfl, of_decide_eq_true h⟩

end TokenStream

/-! ## Programs and their images -/

theorem ParseFault.rename_id (fault : ParseFault) : fault.rename Renaming.id = fault := by
  have hfound (found : Option Lexeme) : found.map (Lexeme.rename Renaming.id) = found := by
    rcases found with _ | (_ | _ | _ | _) <;> rfl
  cases fault <;> simp only [rename, hfound] <;> rfl

/-- Of places that are forgotten in the end nothing is left. -/
theorem Program.relabel_placeless (σ : Renaming) (place : Location → Location) (p : Program) :
    (p.relabel (σ.withPlaces place)).relabel Renaming.id.placeless = p.relabel σ.placeless := by
  simp [relabel, Expr.relabel, Stmt.relabel, Decl.relabel, Function.comp_def, Renaming.id,
    Renaming.placeless, Renaming.withPlaces]

theorem Program.relabel_id_placeless (σ : Renaming) (place : Location → Location) (p : Program) :
    (p.relabel (Renaming.id.withPlaces place)).relabel σ.placeless = p.relabel σ.placeless := by
  simp [relabel, Expr.relabel, Stmt.relabel, Decl.relabel, Function.comp_def, Renaming.id,
    Renaming.placeless, Renaming.withPlaces]

section Load

variable {ρ : Relabelling} (p : Program)

/-- A function whose name stays is found in either naming. -/
theorem Program.functionNamed?_relabel {x : String} (hx : ρ.name x = x) :
    (p.relabel ρ).functionNamed? x = p.functionNamed? x := by
  have hname (d : DeclId) : ((p.relabel ρ).decl d).name = x ↔ (p.decl d).name = x := by
    have hdecl : ((p.relabel ρ).decl d).name = ρ.name (p.decl d).name := by
      by_cases h : d.index < p.decls.size
      · rw [decl_relabel_of_lt h, Decl.name_relabel]
      · simp [decl, relabel, Array.getD, h, default, ρ.empty]
    rw [hdecl]
    constructor
    · intro h
      exact ρ.injective (h.trans hx.symm)
    · intro h
      rw [h, hx]
  unfold functionNamed?
  simp only [hname]
  rfl

theorem Image.load_relabel (config : Config) :
    Image.load (p.relabel ρ) config = (Image.load p config).relabel ρ := by
  have hbuiltins : (Image.load (p.relabel ρ) config).builtins = (Image.load p config).builtins := by
    unfold load
    simp only [Program.functionNamed?_relabel p (ρ.builtin _)]
  have hentry : (Image.load (p.relabel ρ) config).entry = (Image.load p config).entry :=
    Program.functionNamed?_relabel p ρ.entry
  change Image.mk _ _ _ _ = Image.mk _ _ _ _
  rw [Image.mk.injEq]
  exact ⟨rfl, rfl, hbuiltins, hentry⟩

end Load

/-! ## Runs -/

namespace Run

/-- The runs end with the same value or for the same reason, with the same output and the same
constructs without a meaning in the same order, but for the names and places of what is reported:
the names of the second one are those of the renaming, and places do not count. -/
structure SameUpTo (σ : Renaming) (r r' : EStateM.Result Halt (State Scripted) Int32) : Prop where
  result : result? r' = result? r
  halt : (halt? r').map (Halt.relabel Renaming.id.placeless) =
    (halt? r).map (Halt.relabel σ.placeless)
  output : (endState r').console.output = (endState r).console.output
  diagnostics : (endState r').diagnostics.map Diagnostic.construct =
    (endState r).diagnostics.map fun d => d.construct.rename σ

theorem relabelOutcome_run_load (ρ : Relabelling) (hρ : ρ.place .nowhere = .nowhere)
    (p : Program) (config : Config) (console : Scripted) (fuel : Nat) :
    relabelOutcome ρ (run (Image.load p config) fuel (.initial (Image.load p config) console)) =
      run (Image.load (p.relabel ρ) config) fuel
        (.initial (Image.load (p.relabel ρ) config) console) := by
  have hstart : State.initial (Image.load (p.relabel ρ) config) console =
      (State.initial (Image.load p config) console).relabel ρ := by
    simp [State.initial, State.relabel, Image.load]
  rw [hstart, Image.load_relabel]
  exact (natural_run hρ (Image.load p config) fuel _).symm

section Outcomes

variable {ρ : Relabelling} (r : EStateM.Result Halt (State Scripted) Int32)

theorem result?_relabelOutcome : result? (relabelOutcome ρ r) = result? r := by
  cases r <;> rfl

theorem halt?_relabelOutcome : halt? (relabelOutcome ρ r) = (halt? r).map (Halt.relabel ρ) := by
  cases r <;> rfl

theorem endState_relabelOutcome : endState (relabelOutcome ρ r) = (endState r).relabel ρ := by
  cases r <;> rfl

end Outcomes

theorem constructs_relabel (ρ : Relabelling) (s : State Scripted) :
    (s.relabel ρ).diagnostics.map Diagnostic.construct =
      s.diagnostics.map fun d => d.construct.rename ρ.toRenaming := by
  simp [State.relabel, Diagnostic.relabel, Function.comp_def]

/-- Outcomes that are the same where the places of both and the names of one are forgotten. -/
theorem sameUpTo_of_relabelOutcome_eq {σ : Renaming}
    {r r' : EStateM.Result Halt (State Scripted) Int32}
    (h : relabelOutcome Renaming.id.placeless r' = relabelOutcome σ.placeless r) :
    SameUpTo σ r r' where
  result := by simpa only [result?_relabelOutcome] using congrArg result? h
  halt := by simpa only [halt?_relabelOutcome] using congrArg halt? h
  output := by
    have hstate := congrArg (fun r => (endState r).console.output) h
    rwa [endState_relabelOutcome, endState_relabelOutcome] at hstate
  diagnostics := by
    have hid (construct : Unsupported) : construct.rename Renaming.id = construct := by
      cases construct <;> rfl
    have hstate := congrArg (fun r => (endState r).diagnostics.map Diagnostic.construct) h
    simp only [endState_relabelOutcome, constructs_relabel] at hstate
    simpa only [Renaming.placeless, Renaming.withPlaces, hid] using hstate

end Run

/-! ## Layout and names -/

/-- Layout and names do not matter. Of two texts whose tokens are the same but for their places and
for one renaming of identifiers, either both have no program, for the same reason and at the token
with the same number, where the end of the text counts as one more token; or both have one, and the
programs are the same but for names and places. Then under any configuration, on any input and with
any amount of fuel, their runs end with the same value or for the same reason, with the same output
and the same constructs without a meaning in order, but for names and places. -/
theorem layout_and_names_do_not_matter (σ : Renaming) {source source' : String}
    {stream stream' : TokenStream}
    (h : tokenize source = .ok stream) (h' : tokenize source' = .ok stream')
    (hsame : stream.Renamed σ stream') :
    (∃ fault i, i ≤ stream.tokens.length ∧
      Program.parse source = .error ⟨fault, Written.place stream i⟩ ∧
        Program.parse source' = .error ⟨fault.rename σ, Written.place stream' i⟩) ∨
    ∃ p p', Program.parse source = .ok p ∧ Program.parse source' = .ok p' ∧
      p'.relabel Renaming.id.placeless = p.relabel σ.placeless ∧
        ∀ config input fuel,
          Run.SameUpTo σ
            (Run.run (Image.load p config) fuel
              (.initial (Image.load p config) (Scripted.ofInput input)))
            (Run.run (Image.load p' config) fuel
              (.initial (Image.load p' config) (Scripted.ofInput input))) := by
  have hlength : stream'.tokens.length = stream.tokens.length := by
    simpa using congrArg List.length hsame
  -- the numbered tokens under either relabelling
  have hparse := Program.ofTokens_relabel (stream.relabelling Renaming.id) stream.numbered
  have hparse' := Program.ofTokens_relabel (stream'.relabelling σ) stream.numbered
  rw [← (TokenStream.renamed_id stream).eq_relabel, ← Written.parse_eq_ofTokens h] at hparse
  rw [← hsame.eq_relabel, ← Written.parse_eq_ofTokens h'] at hparse'
  cases hnumbered : Program.ofTokens stream.numbered with
  | error e =>
    rw [hnumbered] at hparse hparse'
    left
    refine ⟨e.fault, min e.loc.line stream.tokens.length, Nat.min_le_right _ _, ?_, ?_⟩
    · rw [hparse, TokenStream.place_min_length]
      change Except.error (ParseError.mk (e.fault.rename Renaming.id) _) = _
      rw [ParseFault.rename_id]
      rfl
    · rw [hparse', ← hlength, TokenStream.place_min_length]
      rfl
  | ok p₀ =>
    rw [hnumbered] at hparse hparse'
    right
    refine ⟨_, _, hparse, hparse', ?_, ?_⟩
    · rw [TokenStream.relabelling, Program.relabel_placeless, TokenStream.relabelling,
        Program.relabel_id_placeless]
    · -- both runs are runs of one program once the places of both and the names of the first are
      -- forgotten
      intro config input fuel
      apply Run.sameUpTo_of_relabelOutcome_eq
      rw [Run.relabelOutcome_run_load _ rfl, Run.relabelOutcome_run_load _ rfl,
        TokenStream.relabelling, Program.relabel_placeless, TokenStream.relabelling,
        Program.relabel_id_placeless]

/-- A text and another one with more lines, where a function has another name. The runs meet it as a
value, and fail since it has no body, under the one name and under the other one. -/
theorem layout_and_names_do_not_matter_of_exchanged_names :
    ∃ σ p p', σ.name "f" = "g" ∧ Program.parse "int f(); int main() { f; return f(); }" = .ok p ∧
      Program.parse "int g();\nint main()\n{ g; return g(); }" = .ok p' ∧
      let r := Run.run (Image.load p {}) 20 (.initial (Image.load p {}) (Scripted.ofInput []))
      let r' := Run.run (Image.load p' {}) 20 (.initial (Image.load p' {}) (Scripted.ofInput []))
      p'.relabel Renaming.id.placeless = p.relabel σ.placeless ∧ Run.SameUpTo σ r r' ∧
        Run.halt? r = some (.error (.fault (.undefinedFunction "f") ⟨1, 33⟩)) ∧
        Run.halt? r' = some (.error (.fault (.undefinedFunction "g") ⟨3, 13⟩)) := by
  obtain ⟨stream, stream', h, h', hsame⟩ : ∃ stream stream',
      tokenize "int f(); int main() { f; return f(); }" = .ok stream ∧
      tokenize "int g();\nint main()\n{ g; return g(); }" = .ok stream' ∧
        TokenStream.Renamed (.swap "f" "g" (by decide) (by decide)) stream stream' := by
    apply TokenStream.exists_renamed_of_tokenize
    decide +kernel
  obtain ⟨p, hp, hhalt⟩ : ∃ p, Program.parse "int f(); int main() { f; return f(); }" = .ok p ∧
      Run.halt? (Run.run (Image.load p {}) 20 (.initial (Image.load p {}) (Scripted.ofInput []))) =
        some (.error (.fault (.undefinedFunction "f") ⟨1, 33⟩)) :=
    Program.exists_of_parse (by decide +kernel)
  obtain ⟨p', hp', hhalt'⟩ : ∃ p',
    Program.parse "int g();\nint main()\n{ g; return g(); }" = .ok p' ∧
      Run.halt?
        (Run.run (Image.load p' {}) 20 (.initial (Image.load p' {}) (Scripted.ofInput []))) =
        some (.error (.fault (.undefinedFunction "g") ⟨3, 13⟩)) :=
    Program.exists_of_parse (by decide +kernel)
  rcases layout_and_names_do_not_matter _ h h' hsame with
    ⟨fault, i, -, herror, -⟩ | ⟨q, q', hq, hq', hprogram, hruns⟩
  · rw [hp] at herror
    cases herror
  · obtain rfl : p = q := Except.ok.inj (hp.symm.trans hq)
    obtain rfl : p' = q' := Except.ok.inj (hp'.symm.trans hq')
    exact ⟨_, p, p', Equiv.swap_apply_left _ _, hp, hp', hprogram, hruns {} [] 20, hhalt, hhalt'⟩

end MiniC
