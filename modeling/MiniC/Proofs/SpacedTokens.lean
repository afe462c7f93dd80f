import MiniC.Proofs.SourcePrinting
import MiniC.Proofs.TokenCoverage

/-!
# Tokens written apart

Between two tokens that are written out there may be any blanks, and block comments with blanks
around them (`Spacing`). A blank ends every token, and no comment begins right after a token, so a
text in which lexemes are written apart in this way (`WrittenApart`) is covered by them
(`WrittenApart.covered`), and they are what is read from it (`tokenize_of_writtenApart`). Whatever
is read from any text can be written so (`printable_of_tokenize`).
-/

set_option autoImplicit false

namespace MiniC

/-! ## Spacings -/

/-- A run of blanks and closed block comments that is not empty, where every comment has a blank on
both sides. -/
inductive Spacing : List Char → Prop
  | last {c : Char} : c ∈ [' ', '\t', '\r', '\n'] → Spacing [c]
  | blank {c : Char} {gap : List Char} :
    c ∈ [' ', '\t', '\r', '\n'] → Spacing gap → Spacing (c :: gap)
  | comment {c : Char} {body gap : List Char} :
      c ∈ [' ', '\t', '\r', '\n'] → ¬ ['*', '/'] <:+: body → Spacing gap →
      Spacing (c :: '/' :: '*' :: (body ++ '*' :: '/' :: gap))

theorem isBlank_iff {c : Char} : isBlank c = true ↔ c ∈ [' ', '\t', '\r', '\n'] := by
  simp [isBlank, or_assoc]

theorem Spacing.interlude {gap : List Char} (h : Spacing gap) : Interlude False gap := by
  induction h with
  | last hc => exact .blank (isBlank_iff.2 hc) .nil
  | blank hc _ ih => exact .blank (isBlank_iff.2 hc) ih
  | comment hc hbody _ ih => exact .blank (isBlank_iff.2 hc) (.block hbody ih)

/-- A comment does not come first, so that no sign in front of a spacing goes on with its slash. -/
theorem Spacing.isBlank_head {gap : List Char} (h : Spacing gap) (rest : List Char) :
    ∀ c ∈ (gap ++ rest).head?, isBlank c = true := by
  intro c hc
  cases h with
  | last hblank | blank hblank _ | comment hblank _ _ =>
    cases hc
    exact isBlank_iff.2 hblank

/-! ## Texts -/

/-- In the text the lexemes are written out in order, with a spacing between neighbours. -/
inductive WrittenApart : List Lexeme → List Char → Prop
  | nil : WrittenApart [] []
  | single (x : Lexeme) : WrittenApart [x] x.print
  | cons (x : Lexeme) {y : Lexeme} {ls : List Lexeme} {gap text : List Char} :
      Spacing gap → WrittenApart (y :: ls) text →
        WrittenApart (x :: y :: ls) (x.print ++ (gap ++ text))

/-- A lexeme that is written out covers its part of a text that ends there or goes on with a
blank. -/
theorem Lexeme.Printable.covered_cons {x : Lexeme} (hx : x.Printable) {before gap rest : List Char}
    {tokens : List Token} {endLoc : Location} (hgap : Interlude False gap)
    (hrest : ∀ c ∈ rest.head?, isBlank c = true)
    (h : Covered (before ++ gap ++ x.print) rest tokens endLoc) :
    Covered before (gap ++ (x.print ++ rest))
      (⟨x, placeAfter (before ++ gap)⟩ :: tokens) endLoc := by
  have hspelled := hx.spelledBy
  obtain ⟨c, tok, hread, -⟩ :=
    @scanLexeme_of_spelledBy x x.print [] hspelled (fun _ hc => nomatch hc) .start
  have hne : x.print ≠ [] := by simp [hread]
  have hlongest : Longest x.print rest := longest_of_ends hne fun d hd => .inl (hrest d hd)
  exact .cons hgap (hx.atToken hrest) hspelled hlongest h

/-- After a part of a text and an interlude, lexemes that are written apart are the tokens of the
rest. -/
theorem WrittenApart.covered {ls : List Lexeme} {text : List Char} (h : WrittenApart ls text)
    (hprintable : ∀ x ∈ ls, x.Printable) {gap : List Char} (hgap : Interlude False gap)
    (before : List Char) :
    ∃ tokens endLoc, Covered before (gap ++ text) tokens endLoc ∧ tokens.map Token.lexeme = ls := by
  -- the spacing after a lexeme is the interlude in front of the next one
  induction h generalizing gap before with
  | nil =>
    have hend : Interlude True (gap ++ []) := by
      rw [List.append_nil]
      exact hgap.mono False.elim
    exact ⟨[], _, .nil hend, rfl⟩
  | single x =>
    have hend : Covered (before ++ gap ++ x.print) []
      [] (placeAfter (before ++ gap ++ x.print ++ [])) := .nil .nil
    have hrest : ∀ c ∈ ([] : List Char).head?, isBlank c = true := nofun
    have hcovered := (hprintable x List.mem_cons_self).covered_cons hgap hrest hend
    rw [List.append_nil x.print] at hcovered
    exact ⟨_, _, hcovered, rfl⟩
  | cons x hspacing _ ih =>
    rw [List.forall_mem_cons] at hprintable
    obtain ⟨tokens, endLoc, hcovered, htokens⟩ :=
      ih hprintable.2 hspacing.interlude (before ++ gap ++ x.print)
    refine ⟨_, _, hprintable.1.covered_cons hgap (hspacing.isBlank_head _) hcovered, ?_⟩
    rw [List.map_cons, htokens]

/-- Lexemes that are written out, with any spacing between neighbours, are read back: the text has
them for its tokens, in order, and no others. -/
theorem tokenize_of_writtenApart {ls : List Lexeme} {text : List Char}
    (hprintable : ∀ x ∈ ls, x.Printable) (htext : WrittenApart ls text) :
    ∃ stream, tokenize (String.ofList text) = .ok stream ∧ stream.tokens.map Token.lexeme = ls := by
  obtain ⟨tokens, endLoc, hcovered, htokens⟩ := htext.covered hprintable .nil []
  have hstream : tokenize (String.ofList text) = .ok ⟨tokens, endLoc⟩ := by
    rw [tokenize_eq_ok_iff, String.toList_ofList]
    exact hcovered
  exact ⟨_, hstream, htokens⟩

/-- A word that begins with a keyword, signs that could be longer, the greatest literal, and
comments with signs next to their stars and slashes. -/
theorem tokens_of_signs_and_comments :
    ∃ stream,
      tokenize "int int1 + /***/ + \t/ /*/*/ *\r\n2147483647 /*//#*/ /**/ & &&" = .ok stream ∧
      stream.tokens.map Token.lexeme =
        [.keyword .intKw, .identifier "int1", .punct .plus, .punct .plus, .punct .slash,
          .punct .star, .integer 2147483647, .punct .amp, .punct .andAnd] := by
  have space : Spacing [' '] := .last (by decide)
  have comment (body : List Char) (hbody : ¬ ['*', '/'] <:+: body) :
      Spacing (' ' :: '/' :: '*' :: (body ++ ['*', '/', ' '])) := .comment (by decide) hbody space
  have indent : Spacing [' ', '\t'] := .blank (by decide) (.last (by decide))
  have lineFeed : Spacing ['\r', '\n'] := .blank (by decide) (.last (by decide))
  have signs : ¬ ['*', '/'] <:+: ['/', '/', '#'] := by decide
  have twice := Spacing.comment (c := ' ') (by decide) signs (comment [] (by decide))
  have htext := WrittenApart.cons (.keyword .intKw) space (.cons (.identifier "int1") space
    (.cons (.punct .plus) (comment ['*'] (by decide)) (.cons (.punct .plus) indent
    (.cons (.punct .slash) (comment ['/'] (by decide)) (.cons (.punct .star) lineFeed
    (.cons (.integer 2147483647) twice (.cons (.punct .amp) space (.single (.punct .andAnd)))))))))
  exact tokenize_of_writtenApart (by decide) htext

/-! ## What is read -/

theorem Lexeme.SpelledBy.printable {x : Lexeme} {read : List Char} (h : x.SpelledBy read) :
    x.Printable := by
  cases h with
  | numeral _ hbound => exact hbound
  | @character c _ =>
    have hvalid : c.toNat < 0xd800 ∨ 0xdfff < c.toNat ∧ c.toNat < 0x110000 := c.valid
    change c.toNat < 2 ^ 31
    omega
  | escape hescape =>
    unfold escapeCode? at hescape
    split at hescape <;> cases hescape <;> decide
  | keyword | punct => trivial
  | identifier hname hkeyword => exact ⟨hname, hkeyword⟩

theorem Covered.printable {before text : List Char} {tokens : List Token} {endLoc : Location}
    (h : Covered before text tokens endLoc) : ∀ token ∈ tokens, token.lexeme.Printable := by
  induction h with
  | nil => exact nofun
  | cons _ _ hspelled _ _ ih => exact List.forall_mem_cons.2 ⟨hspelled.printable, ih⟩

/-- The tokens of any text can be written out, those of character literals as numerals. -/
theorem printable_of_tokenize {source : String} {stream : TokenStream}
    (h : tokenize source = .ok stream) :
    ∀ token ∈ stream.tokens, token.lexeme.Printable :=
  (tokenize_eq_ok_iff.1 h).printable

end MiniC
