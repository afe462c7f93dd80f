import MiniC.Proofs.AlikeRuns
import MiniC.Proofs.InsertedParentheses
import MiniC.Proofs.LoosenedBuilding
import MiniC.Proofs.NameResolution

/-!
# Redundant parentheses

A pair of parentheses around an expression of a program gives a program again, and one that does the
same (`Written.redundant_parentheses`), unless the expression has no value and none is asked for at
once: parentheses ask for the value of what is inside them.
-/

set_option autoImplicit false

namespace MiniC.Written

open MiniC.Parenthesised

variable {stream stream' : TokenStream} {file file' : File}

/-- The text can be written with one more pair of parentheses. -/
theorem File.Loosened.exists_text {aim : Aim} {source : String} (h : file.Loosened aim 1 file')
    (hstream : tokenize source = .ok stream) (hfile : Writes stream file) :
    ∃ before inside after stream', source = before ++ inside ++ after ∧
      tokenize (before ++ "(" ++ inside ++ ")" ++ after) = .ok stream' ∧ Writes stream' file' := by
  have hspells := spells_of_tokenize hstream
  obtain ⟨a, m, l, hne, hl, hl'⟩ := h.adds.one rfl
  rw [hfile.lexemes, hl] at hspells
  obtain ⟨before, inside, after, htext, henclosed⟩ := hspells.exists_enclosed hne
  rw [← hl'] at henclosed
  obtain ⟨stream', hstream', hlexemes⟩ := henclosed.tokenize
  refine ⟨.ofList before, .ofList inside, .ofList after, stream', ?_, ?_,
    h.wellFormed hfile.wellFormed, hlexemes⟩
  · apply String.toList_inj.1
    simp [htext]
  · have htext' : String.ofList before ++ "(" ++ String.ofList inside ++ ")" ++
      String.ofList after =
        String.ofList (before ++ '(' :: (inside ++ ')' :: after)) := by
      apply String.toList_inj.1
      simp
    rw [htext']
    exact hstream'

/-- Parentheses around an expression never make a difference, unless it is a call of a function that
gives nothing back or a conversion to `void`, and stands where its value is not asked for next. -/
theorem redundant_parentheses {source : String} {p : Program} (hp : Program.parse source = .ok p) :
    ∃ stream, tokenize source = .ok stream ∧ (∃ file, Writes stream file) ∧
      ∀ file file', Writes stream file → file.Loosened .read 1 file' →
        (∃ before inside after stream', source = before ++ inside ++ after ∧
          tokenize (before ++ "(" ++ inside ++ ")" ++ after) = .ok stream' ∧ Writes stream' file') ∧
        ∀ source' stream', tokenize source' = .ok stream' → Writes stream' file' →
          ∃ p', Program.parse source' = .ok p' ∧
            (file.Loosened .run 1 file' → Run.RunAlike p p') := by
  obtain ⟨stream, file, hstream, hfile, hlexemes, -⟩ := exists_file_of_parse hp
  refine ⟨stream, hstream, ⟨file, hfile, hlexemes⟩, fun file file' hwrites h =>
    ⟨h.exists_text hstream hwrites, ?_⟩⟩
  intro source' stream' hstream' hwrites'
  have hp' := hp
  rw [parse_eq_ofTokens hstream] at hp'
  obtain ⟨p', hparse', -⟩ := h.ofTokens_alike hwrites hwrites' hp'
  rw [← parse_eq_ofTokens hstream'] at hparse'
  refine ⟨p', hparse', fun hrun => ?_⟩
  obtain ⟨q, hq, halike⟩ := hrun.ofTokens_alike hwrites hwrites' hp'
  rw [← parse_eq_ofTokens hstream', hparse'] at hq
  cases hq
  exact Run.runAlike (Program.resolved_of_parse hp).wellFormed
    (Program.resolved_of_parse hparse').wellFormed halike

/-! A text with one statement that is an expression. -/

/-- `void PRINT(int n); int main() { e; return 0; }` -/
def fileOf (e : Expr) : File where
  declarations :=
    [⟨false, .function ⟨⟨.void, 0⟩, "PRINT", .list [⟨⟨.int, 0⟩, some "n", none⟩], none⟩⟩,
      ⟨false, .function ⟨⟨.int, 0⟩, "main", .list [], some [.expr e, .ret (some (.literal 0))]⟩⟩]

theorem wellFormed_fileOf {e : Expr} (he : e.WellFormed) : (fileOf e).WellFormed := by
  have hprint :
      Function.WellFormed ⟨⟨.void, 0⟩, "PRINT", .list [⟨⟨.int, 0⟩, some "n", none⟩], none⟩ :=
    ⟨fun p hp => by obtain rfl := List.mem_singleton.1 hp; rfl, nofun⟩
  have hmain :
      Function.WellFormed ⟨⟨.int, 0⟩, "main", .list [], some [.expr e, .ret (some (.literal 0))]⟩ :=
    ⟨nofun, by simp [Stmt.WellFormed, Expr.WellFormed, he]⟩
  simp [File.WellFormed, fileOf, Item.WellFormed, hprint, hmain]

theorem loosened_fileOf {aim : Aim} {e e' : Expr} (h : e.Loosened 1 (aim.demand .later) e') :
    (fileOf e).Loosened aim 1 (fileOf e') := by
  have hzero : (Expr.literal 0).Loosened 0 (aim.demand .next) (.literal 0) := .same (.literal 0)
  have hbody : EachMore (Stmt.Loosened aim) 1 [.expr e, .ret (some (.literal 0))]
      [.expr e', .ret (some (.literal 0))] :=
    .cons (m := 1) (n := 0) (.expr h) (.cons (m := 0) (n := 0) (.ret (.some hzero)) .nil)
  exact .cons (m := 0) (n := 1) (.function (.intro .none))
    (.cons (m := 1) (n := 0) (.function (.intro (.some hbody))) .nil)

/-- The text of a statement that is an expression, after the declaration of `PRINT`. -/
def textOf (e : String) : String := "void PRINT(int n); int main() \x7b " ++ e ++ "; return 0; \x7d"

/-- `PRINT(1)` -/
def print1 : Expr := .call "PRINT" [.literal 1]

/-- `PRINT((1))` -/
def print1OfParen : Expr := .call "PRINT" [.paren (.literal 1)]

theorem exists_stream_print1 : ∃ stream, tokenize (textOf "PRINT(1)") = .ok stream ∧
    Writes stream (fileOf print1) :=
  exists_stream_of_lexemes _
    (wellFormed_fileOf (by simp [print1, Expr.WellFormed, Expr.EachWellFormed])) (by decide +kernel)

/-- Parentheses around an argument. -/
theorem redundant_parentheses_of_argument :
    ∃ p p', Program.parse (textOf "PRINT(1)") = .ok p ∧
      Program.parse (textOf "PRINT((1))") = .ok p' ∧ Run.RunAlike p p' := by
  have hloosened (aim : Aim) : (fileOf print1).Loosened aim 1 (fileOf print1OfParen) :=
    loosened_fileOf (.same
      (.call _ (.cons (m := 1) (n := 0) (.wrap (n := 0) (.literal 1) fun _ => trivial) .nil)))
  obtain ⟨p, hp⟩ : ∃ p, Program.parse (textOf "PRINT(1)") = .ok p :=
    ⟨_, Program.parse_eq_ok (by decide +kernel)⟩
  obtain ⟨stream₀, hstream₀, hwrites⟩ := exists_stream_print1
  have hwellFormed : (fileOf print1OfParen).WellFormed :=
    wellFormed_fileOf (by simp [print1OfParen, Expr.WellFormed, Expr.EachWellFormed])
  obtain ⟨stream', hstream', hwrites'⟩ := exists_stream_of_lexemes (textOf "PRINT((1))") hwellFormed
    (by decide +kernel)
  obtain ⟨stream, hstream, -, hmain⟩ := redundant_parentheses hp
  obtain rfl : stream₀ = stream := Except.ok.inj (hstream₀.symm.trans hstream)
  obtain ⟨p', hp', halike⟩ := (hmain _ _ hwrites (hloosened .read)).2 _ _ hstream' hwrites'
  exact ⟨p, p', hp, hp', halike (hloosened .run)⟩

/-- Parentheses around a statement that gives nothing back ask for its value in vain: one program
returns zero, and the other one fails. -/
theorem parentheses_ask_for_value :
    (fileOf print1).Loosened .read 1 (fileOf (.paren print1)) ∧
      (∃ stream, tokenize (textOf "PRINT(1)") = .ok stream ∧ Writes stream (fileOf print1)) ∧
      (∃ stream, tokenize (textOf "(PRINT(1))") = .ok stream ∧
        Writes stream (fileOf (.paren print1))) ∧
      ∃ p p', Program.parse (textOf "PRINT(1)") = .ok p ∧
        Program.parse (textOf "(PRINT(1))") = .ok p' ∧
        (∃ r, Run.RunsTo p {} [] r ∧ Run.result? r = some 0) ∧
        (∃ r, Run.RunsTo p' {} [] r ∧
          Run.halt? r = some (.error (.fault (.memory (.unboundExpression ⟨1⟩)) ⟨1, 34⟩))) ∧
        ¬ Run.RunAlike p p' := by
  -- a text that is only to be read asks for no value, so parentheses may stand anywhere
  have hliteral : (Expr.literal 1).LoosenedInside 0 .never (.literal 1) := .literal 1
  have hcall : print1.LoosenedInside 0 .never print1 :=
    .call _ (.cons (m := 0) (n := 0) (.same hliteral) .nil)
  refine ⟨loosened_fileOf (.wrap hcall fun h => by cases h), exists_stream_print1,
    exists_stream_of_lexemes _
    (wellFormed_fileOf (by simp [print1, Expr.WellFormed, Expr.EachWellFormed]))
      (by decide +kernel), ?_⟩
  obtain ⟨p, hp, hresult⟩ : ∃ p, Program.parse (textOf "PRINT(1)") = .ok p ∧
      Run.result? (Run.run (Image.load p {}) 30
        (.initial (Image.load p {}) (Scripted.ofInput []))) = some 0 :=
    Program.exists_of_parse (by decide +kernel)
  obtain ⟨p', hp', hhalt⟩ : ∃ p', Program.parse (textOf "(PRINT(1))") = .ok p' ∧
      Run.halt?
        (Run.run (Image.load p' {}) 30 (.initial (Image.load p' {}) (Scripted.ofInput []))) =
        some (.error (.fault (.memory (.unboundExpression ⟨1⟩)) ⟨1, 34⟩)) :=
    Program.exists_of_parse (by decide +kernel)
  have hends : Run.RunsTo p {} [] _ := ⟨⟨30, rfl⟩, by simp [Run.halt?_of_result hresult]⟩
  have hends' : Run.RunsTo p' {} [] _ := ⟨⟨30, rfl⟩, by simp [hhalt]⟩
  refine ⟨p, p', hp, hp', ⟨_, hends, hresult⟩, ⟨_, hends', hhalt⟩, fun halike => ?_⟩
  obtain ⟨r, hr, hsame⟩ := (halike {} []).1 _ hends
  obtain rfl := hr.unique hends'
  have hnone := hsame.result.trans hresult
  rw [Run.halt?_of_result hnone] at hhalt
  cases hhalt

end MiniC.Written
