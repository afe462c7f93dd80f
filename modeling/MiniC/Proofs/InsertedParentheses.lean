import MiniC.Proofs.TokenPlaces

/-!
# Parentheses put into a text

A text spells a sequence of lexemes (`Spells`) if they are read from it, wherever it begins. No
token goes on beyond a parenthesis, so parentheses that are put around a part of a text between
tokens become tokens, and the other tokens stay as they are (`exists_enclosed_text`).
-/

set_option autoImplicit false

namespace MiniC

/-! ## Skipped text -/

/-- A piece of text that is skipped, whatever comes after it. -/
def Skipped (gap : List Char) : Prop :=
  ∀ rest loc, skipGap .blank (gap ++ rest) loc = skipGap .blank rest (loc.afterAll gap)

theorem Skipped.append {g g' : List Char} (hg : Skipped g) (hg' : Skipped g') :
    Skipped (g ++ g') := by
  intro rest loc
  rw [List.append_assoc, hg, hg', Location.afterAll_append]

theorem skipped_nil : Skipped [] := fun _ _ => rfl

/-- Gaps of the same kind; where a comment was opened does not matter. -/
def Gap.Similar : Gap → Gap → Prop
  | .blank, .blank | .line, .line | .block _, .block _ => True
  | _, _ => False

theorem skipGap_number_sign (rest : List Char) (loc : Location) :
    skipGap .blank ('#' :: rest) loc = skipGap .line rest (loc.after '#') := by
  rw [skipGap.eq_8 _ _ _ (fun _ h _ => absurd h (by decide)) (fun _ h _ =>
    absurd h (by decide)), if_pos rfl]

theorem skipGap_isBlank {c : Char} (hc : isBlank c = true) (rest : List Char) (loc : Location) :
    skipGap .blank (c :: rest) loc = skipGap .blank rest (loc.after c) := by
  have hslash : c ≠ '/' := by
    rintro rfl
    cases hc
  have hsign : c ≠ '#' := by
    rintro rfl
    cases hc
  rw [skipGap.eq_8 _ _ _ (fun _ h _ => absurd h hslash) (fun _ h _ => absurd h hslash),
    if_neg hsign, if_pos hc]

/-- What is skipped before a token is skipped before any other text, too. -/
theorem exists_skipped_of_gap {gap : Gap} {text : List Char} {loc : Location} {cur : Cursor}
    (h : skipGap gap text loc = .ok cur) (hrest : cur.rest ≠ []) :
    ∃ g, text = g ++ cur.rest ∧ (g = [] → gap = .blank) ∧ ∀ gap', gap.Similar gap' → ∀ rest loc',
      skipGap gap' (g ++ rest) loc' = skipGap .blank rest (loc'.afterAll g) := by
  fun_induction skipGap gap text loc with
  | case1 => cases h
  | case2 =>
    cases h
    exact absurd rfl hrest
  | case3 c text loc ih =>
    obtain ⟨g, rfl, -, hg⟩ := ih h
    refine ⟨c :: g, rfl, (fun hnil => by cases hnil), fun gap' hgap' rest loc' => ?_⟩
    cases gap' with
    | line =>
      rw [List.cons_append, skipGap.eq_3]
      refine hg _ ?_ rest _
      split <;> trivial
    | blank | block _ => exact hgap'.elim
  | case4 opened text loc ih =>
    obtain ⟨g, rfl, -, hg⟩ := ih h
    refine ⟨'*' :: '/' :: g, rfl, (fun hnil => by cases hnil), fun gap' hgap' rest loc' => ?_⟩
    cases gap' with
    | block _ => exact hg .blank trivial rest _
    | blank | line => exact hgap'.elim
  | case5 opened c text loc hopen ih =>
    obtain ⟨g, rfl, hne, hg⟩ := ih h
    refine ⟨c :: g, rfl, (fun hnil => by cases hnil), fun gap' hgap' rest loc' => ?_⟩
    cases gap' with
    | block opened' =>
      -- the comment is not closed yet, so the next character is still skipped and the same
      cases g with
      | nil => cases hne rfl
      | cons d g =>
        rw [List.cons_append, skipGap.eq_5 _ _ _ _ fun tail hc htail => ?_]
        · exact hg (.block opened') trivial rest _
        · cases htail
          exact hopen _ hc rfl
    | blank | line => exact hgap'.elim
  | case6 text loc ih =>
    obtain ⟨g, rfl, -, hg⟩ := ih h
    refine ⟨'/' :: '/' :: g, rfl, (fun hnil => by cases hnil), fun gap' hgap' rest loc' => ?_⟩
    cases gap' with
    | blank => exact hg .line trivial rest _
    | line | block _ => exact hgap'.elim
  | case7 text loc ih =>
    obtain ⟨g, rfl, -, hg⟩ := ih h
    refine ⟨'/' :: '*' :: g, rfl, (fun hnil => by cases hnil), fun gap' hgap' rest loc' => ?_⟩
    cases gap' with
    | blank => exact hg (.block loc') trivial rest _
    | line | block _ => exact hgap'.elim
  | case8 text loc _ _ ih =>
    obtain ⟨g, rfl, -, hg⟩ := ih h
    refine ⟨'#' :: g, rfl, (fun hnil => by cases hnil), fun gap' hgap' rest loc' => ?_⟩
    cases gap' with
    | blank =>
      rw [List.cons_append, skipGap_number_sign]
      exact hg .line trivial rest _
    | line | block _ => exact hgap'.elim
  | case9 c text loc _ _ _ hc ih =>
    obtain ⟨g, rfl, -, hg⟩ := ih h
    refine ⟨c :: g, rfl, (fun hnil => by cases hnil), fun gap' hgap' rest loc' => ?_⟩
    cases gap' with
    | blank =>
      rw [List.cons_append, skipGap_isBlank hc]
      exact hg .blank trivial rest _
    | line | block _ => exact hgap'.elim
  | case10 =>
    cases h
    refine ⟨[], rfl, fun _ => rfl, fun gap' hgap' rest loc' => ?_⟩
    cases gap' with
    | blank => rfl
    | line | block _ => exact hgap'.elim

theorem exists_skipped {text : List Char} {loc : Location} {cur : Cursor}
    (h : skipGap .blank text loc = .ok cur) (hrest : cur.rest ≠ []) :
    ∃ g, text = g ++ cur.rest ∧ Skipped g := by
  obtain ⟨g, hg, -, hskip⟩ := exists_skipped_of_gap h hrest
  exact ⟨g, hg, fun rest loc' => hskip .blank trivial rest loc'⟩

/-- What is skipped does not depend on where the text begins. -/
theorem skipGap_anywhere {gap : Gap} {text : List Char} {loc : Location} {cur : Cursor}
    (h : skipGap gap text loc = .ok cur) (gap' : Gap) (hgap' : gap.Similar gap') (loc' : Location) :
    ∃ loc'', skipGap gap' text loc' = .ok ⟨cur.rest, loc''⟩ := by
  -- the two gaps stay similar, so the same clause takes a step in both
  fun_induction skipGap gap text loc generalizing gap' loc' with
  | case1 => cases h
  | case2 gap loc hopen =>
    cases h
    cases gap' with
    | blank | line => exact ⟨loc', rfl⟩
    | block _ =>
      cases gap with
      | block opened => cases hopen opened rfl
      | blank | line => exact hgap'.elim
  | case3 c text loc ih =>
    cases gap' with
    | line => exact ih h _ (by split <;> trivial) _
    | blank | block _ => exact hgap'.elim
  | case4 opened text loc ih =>
    cases gap' with
    | block _ => exact ih h .blank trivial _
    | blank | line => exact hgap'.elim
  | case5 opened c text loc hopen ih =>
    cases gap' with
    | block opened' =>
      rw [skipGap.eq_5 _ _ _ _ hopen]
      exact ih h (.block opened') trivial _
    | blank | line => exact hgap'.elim
  | case6 text loc ih =>
    cases gap' with
    | blank => exact ih h .line trivial _
    | line | block _ => exact hgap'.elim
  | case7 text loc ih =>
    cases gap' with
    | blank => exact ih h (.block loc') trivial _
    | line | block _ => exact hgap'.elim
  | case8 text loc _ _ ih =>
    cases gap' with
    | blank =>
      rw [skipGap_number_sign]
      exact ih h .line trivial _
    | line | block _ => exact hgap'.elim
  | case9 c text loc _ _ _ hc ih =>
    cases gap' with
    | blank =>
      rw [skipGap_isBlank hc]
      exact ih h .blank trivial _
    | line | block _ => exact hgap'.elim
  | case10 c text loc hline hblock hsign hc =>
    cases h
    cases gap' with
    | blank =>
      rw [skipGap.eq_8 _ _ _ hline hblock, if_neg hsign, if_neg hc]
      exact ⟨loc', rfl⟩
    | line | block _ => exact hgap'.elim

/-! ## Ends of tokens -/

/-- The second text begins like the first one, or with a parenthesis: a token that ends before the
first text ends before the second one. -/
def SameEnd (rest rest' : List Char) : Prop :=
  rest'.head? = rest.head? ∨ rest'.head? = some '(' ∨ rest'.head? = some ')'

/-- A token begins here: the first character is none that is skipped and begins no comment. -/
def AtToken : List Char → Prop
  | [] => False
  | c :: rest =>
    c ≠ '#' ∧ isBlank c = false ∧ (c = '/' → rest.head? ≠ some '/' ∧ rest.head? ≠ some '*')

theorem AtToken.skipGap_eq {text : List Char} (h : AtToken text) (loc : Location) :
    skipGap .blank text loc = .ok ⟨text, loc⟩ := by
  cases text with
  | nil => exact h.elim
  | cons c rest =>
    obtain ⟨hsign, hblank, hcomment⟩ := h
    rw [skipGap.eq_8 _ _ _ (fun _ hc hrest => (hcomment hc).1 (by rw [hrest]; rfl))
      (fun _ hc hrest => (hcomment hc).2 (by rw [hrest]; rfl)), if_neg hsign,
        if_neg (Bool.eq_false_iff.1 hblank)]
    rfl

theorem atToken_of_skipGap {gap : Gap} {text : List Char} {loc : Location} {cur : Cursor}
    (h : skipGap gap text loc = .ok cur) (hrest : cur.rest ≠ []) : AtToken cur.rest := by
  fun_induction skipGap gap text loc with
  | case1 => cases h
  | case2 =>
    cases h
    exact absurd rfl hrest
  | case3 | case4 | case5 | case6 | case7 | case8 | case9 =>
    rename_i ih
    exact ih h
  | case10 c text loc hline hblock hsign hblank =>
    cases h
    refine ⟨hsign, Bool.eq_false_iff.2 hblank, fun hc => ⟨fun hhead => ?_, fun hhead => ?_⟩⟩
    · obtain ⟨tail, rfl⟩ := List.head?_eq_some_iff.1 hhead
      exact hline tail hc rfl
    · obtain ⟨tail, rfl⟩ := List.head?_eq_some_iff.1 hhead
      exact hblock tail hc rfl

theorem AtToken.sameEnd {c : Char} {tok rest rest' : List Char} (h : AtToken (c :: (tok ++ rest)))
    (hrest : SameEnd rest rest') : AtToken (c :: (tok ++ rest')) := by
  refine ⟨h.1, h.2.1, fun hc => ?_⟩
  have hcomment := h.2.2 hc
  cases tok with
  | cons d tok => exact hcomment
  | nil =>
    change rest'.head? ≠ _ ∧ rest'.head? ≠ _
    rcases hrest with heq | heq | heq
    · rw [heq]
      exact hcomment
    · rw [heq]
      decide
    · rw [heq]
      decide

/-- A run of characters ends where the text goes on with another character. -/
theorem span_of_sameEnd {p : Char → Bool} (hleft : p '(' = false) (hright : p ')' = false)
    {text rest' : List Char} (hrest : SameEnd (text.dropWhile p) rest') (loc : Location) :
    (Cursor.mk (text.takeWhile p ++ rest') loc).span p =
      (text.takeWhile p, ⟨rest', loc.afterAll (text.takeWhile p)⟩) := by
  -- the word ends before what follows, in either text
  have hhead : ∀ c ∈ rest'.head?, p c = false := by
    intro c hc
    rcases hrest with heq | heq | heq
    · have hnot := List.head?_dropWhile_not p text
      rw [← heq, show rest'.head? = some c from hc] at hnot
      exact hnot
    · rw [heq] at hc
      exact Option.some.inj hc ▸ hleft
    · rw [heq] at hc
      exact Option.some.inj hc ▸ hright
  have hall : ∀ c ∈ text.takeWhile p, p c = true := List.all_eq_true.1 List.all_takeWhile
  -- so what follows is left where it is
  have hstop : rest'.takeWhile p = [] ∧ rest'.dropWhile p = rest' := by
    cases rest' with
    | nil => exact ⟨rfl, rfl⟩
    | cons c rest' =>
      have hc := hhead c rfl
      exact ⟨List.takeWhile_cons_of_neg (Bool.eq_false_iff.1 hc),
        List.dropWhile_cons_of_neg (Bool.eq_false_iff.1 hc)⟩
  have htake : (text.takeWhile p ++ rest').takeWhile p = text.takeWhile p := by
    rw [List.takeWhile_append_of_pos hall, hstop.1, List.append_nil]
  have hdrop : (text.takeWhile p ++ rest').dropWhile p = rest' := by
    rw [List.dropWhile_append_of_pos hall, hstop.2]
  rw [Cursor.span, htake, hdrop]

/-- A run of characters that has begun is the same wherever the text begins and whatever comes after
it. -/
theorem exists_span_eq {p : Char → Bool} (hleft : p '(' = false) (hright : p ')' = false) {c : Char}
    (hc : p c = true) (text : List Char) : ∃ tok rest, text = tok ++ rest ∧
      (∀ loc, (Cursor.mk (c :: text) loc).span p = (c :: tok, ⟨rest, loc.afterAll (c :: tok)⟩)) ∧
      ∀ rest', SameEnd rest rest' → ∀ loc,
        (Cursor.mk (c :: (tok ++ rest')) loc).span p =
          (c :: tok, ⟨rest', loc.afterAll (c :: tok)⟩) := by
  refine ⟨text.takeWhile p, text.dropWhile p, List.takeWhile_append_dropWhile.symm, fun loc => ?_,
    fun rest' hrest loc => ?_⟩
  · rw [Cursor.span, List.takeWhile_cons_of_pos hc, List.dropWhile_cons_of_pos hc]
  · have hrest : SameEnd ((c :: text).dropWhile p) rest' := by rwa [List.dropWhile_cons_of_pos hc]
    have hspan := span_of_sameEnd hleft hright hrest loc
    rwa [List.takeWhile_cons_of_pos hc] at hspan

/-! ## Lexemes -/

/-- Signs have at most two characters. -/
theorem Punct.length_chars_le (sign : Punct) : sign.chars.length ≤ 2 := by
  cases sign <;> decide

/-- The next sign shows in two characters. -/
theorem Punct.longest?_take (text : List Char) : longest? (text.take 2) = longest? text := by
  unfold longest?
  congr 1
  funext sign
  rw [Bool.eq_iff_iff, List.isPrefixOf_iff_prefix, List.isPrefixOf_iff_prefix, List.prefix_take_iff]
  exact and_iff_left sign.length_chars_le

/-- No sign goes on with a parenthesis. -/
theorem Punct.longest?_of_paren (sign : Punct) {c : Char} (hc : c = '(' ∨ c = ')')
    (rest : List Char) :
    longest? (sign.chars ++ c :: rest) = some sign := by
  rw [← longest?_take]
  rcases hc with rfl | rfl
  · cases sign <;> rfl
  · cases sign <;> rfl

theorem Punct.longest?_of_sameEnd {sign : Punct} {rest rest' : List Char}
    (h : longest? (sign.chars ++ rest) = some sign) (hrest : SameEnd rest rest') :
    longest? (sign.chars ++ rest') = some sign := by
  rcases hrest with heq | hparen
  · -- the two characters that show the sign are the same
    have htake : (sign.chars ++ rest').take 2 = (sign.chars ++ rest).take 2 := by
      have hlength : 0 < sign.chars.length := List.length_pos_iff.2 sign.chars_ne_nil
      rw [List.take_append, List.take_append]
      congr 1
      obtain hzero | hone : 2 - sign.chars.length = 0 ∨ 2 - sign.chars.length = 1 := by omega
      · rw [hzero, List.take_zero, List.take_zero]
      · rw [hone, List.take_one, List.take_one, heq]
    rw [← longest?_take, htake, longest?_take]
    exact h
  · rcases hparen with hparen | hparen
    · obtain ⟨tail, rfl⟩ := List.head?_eq_some_iff.1 hparen
      exact sign.longest?_of_paren (.inl rfl) tail
    · obtain ⟨tail, rfl⟩ := List.head?_eq_some_iff.1 hparen
      exact sign.longest?_of_paren (.inr rfl) tail

/-- The next sign begins with the next character. -/
theorem Punct.exists_of_longest? {c : Char} {text : List Char} {sign : Punct}
    (h : longest? (c :: text) = some sign) :
    ∃ tok rest, sign.chars = c :: tok ∧ text = tok ++ rest := by
  have hsign := List.find?_some (p := fun sign : Punct => sign.chars.isPrefixOf (c :: text)) h
  obtain ⟨rest, hrest⟩ := List.isPrefixOf_iff_prefix.1 hsign
  obtain ⟨d, tok, hchars⟩ := List.exists_cons_of_ne_nil sign.chars_ne_nil
  rw [hchars] at hrest
  cases hrest
  exact ⟨tok, rest, hchars, rfl⟩

theorem scanCharacterCode_anywhere {text : List Char} {loc : Location} {next : Cursor} {code : Nat}
    (h : scanCharacterCode ⟨text, loc⟩ = .ok (code, next)) :
    ∃ tok, text = tok ++ next.rest ∧ ∀ rest' loc', ∃ loc'',
      scanCharacterCode ⟨tok ++ rest', loc'⟩ = .ok (code, ⟨rest', loc''⟩) := by
  unfold scanCharacterCode at h
  cases text with
  | nil => cases h
  | cons c text =>
    dsimp only [Cursor.next?] at h
    -- the end, an escape, or a character that stands for itself
    split at h
    · cases h
    · next escape hescape =>
      cases hescape
      cases text with
      | nil => cases h
      | cons d text =>
        dsimp only at h
        cases hcode : escapeCode? d with
        | none =>
          rw [hcode] at h
          cases h
        | some code =>
          rw [hcode] at h
          cases h
          refine ⟨['\\', d], rfl, fun rest' loc' => ?_⟩
          simp only [scanCharacterCode, Cursor.next?, List.cons_append, hcode]
          exact ⟨_, rfl⟩
    · next d after hnot hnext =>
      cases hnext
      cases h
      have hescape : c ≠ '\\' := by
        rintro rfl
        exact hnot rfl
      refine ⟨[c], rfl, fun rest' loc' => ⟨loc'.after c, ?_⟩⟩
      unfold scanCharacterCode
      dsimp only [Cursor.next?, List.cons_append]
      split
      · next hnone => cases hnone
      · next hsome =>
        cases hsome
        exact absurd rfl hescape
      · next hsome =>
        cases hsome
        rfl

theorem scanCharacter_anywhere {text : List Char} {loc : Location} {next : Cursor} {lexeme : Lexeme}
    (h : scanCharacter ⟨text, loc⟩ = .ok (lexeme, next)) :
    ∃ tok, text = tok ++ next.rest ∧ ∀ rest' loc', ∃ loc'',
      scanCharacter ⟨tok ++ rest', loc'⟩ = .ok (lexeme, ⟨rest', loc''⟩) := by
  obtain ⟨⟨code, closing⟩, hcode, hclosing⟩ := exists_of_bind_eq_ok h
  obtain ⟨tok, rfl, hanywhere⟩ := scanCharacterCode_anywhere hcode
  obtain ⟨rest, loc₁⟩ := closing
  cases rest with
  | nil => cases hclosing
  | cons c rest =>
    dsimp only [Cursor.next?] at hclosing
    split at hclosing
    · next after hafter =>
      cases hafter
      cases hclosing
      refine ⟨tok ++ ['\x27'], by simp, fun rest' loc' => ?_⟩
      obtain ⟨loc₂, hcode'⟩ := hanywhere ('\x27' :: rest') loc'
      rw [List.append_assoc, List.singleton_append]
      exact ⟨_, by rw [scanCharacter, hcode']; rfl⟩
    · cases hclosing
    · cases hclosing

/-- The lexeme that is read is the same wherever the text begins and whatever comes after it. -/
theorem exists_token_of_scanLexeme {c : Char} {text : List Char} {loc : Location}
    {lexeme : Lexeme} {next : Cursor} (h : scanLexeme c ⟨c :: text, loc⟩ = .ok (lexeme, next)) :
    ∃ tok, text = tok ++ next.rest ∧ ∀ rest', SameEnd next.rest rest' → ∀ loc',
      ∃ loc'', scanLexeme c ⟨c :: (tok ++ rest'), loc'⟩ = .ok (lexeme, ⟨rest', loc''⟩) := by
  unfold scanLexeme at h ⊢
  -- tried in this order: a character, a number, a word, a sign
  split at h
  · next hquote =>
    replace h : scanCharacter ⟨text, loc.after c⟩ = .ok (lexeme, next) := h
    obtain ⟨tok, htext, hanywhere⟩ := scanCharacter_anywhere h
    refine ⟨tok, htext, fun rest' _ loc' => ?_⟩
    rw [if_pos hquote]
    exact hanywhere rest' _
  next hquote =>
  split at h
  · next hdigit =>
    obtain ⟨tok, rest, htext, hspan, hspan'⟩ :=
      exists_span_eq (p := Char.isDigit) rfl rfl hdigit text
    simp only [scanNumber, hspan] at h
    split at h
    · next hbound =>
      cases h
      refine ⟨tok, htext, fun rest' hrest loc' => ?_⟩
      simp only [if_neg hquote, if_pos hdigit, scanNumber, hspan' rest' hrest, if_pos hbound]
      exact ⟨_, rfl⟩
    · cases h
  next hdigit =>
  split at h
  · next hword =>
    obtain ⟨tok, rest, htext, hspan, hspan'⟩ := exists_span_eq (p := isWordChar) rfl rfl
      (isWordChar_of_isWordStart hword) text
    simp only [scanWord, hspan] at h
    cases h
    refine ⟨tok, htext, fun rest' hrest loc' => ?_⟩
    simp only [if_neg hquote, if_neg hdigit, if_pos hword, scanWord, hspan' rest' hrest]
    exact ⟨_, rfl⟩
  next hword =>
  split at h
  · next sign hsign =>
    cases h
    obtain ⟨tok, rest, hchars, rfl⟩ := Punct.exists_of_longest? hsign
    have hskip (rest' : List Char) (loc' : Location) : (Cursor.mk (c :: (tok ++ rest')) loc').skip
        sign.chars.length = ⟨rest', loc'.afterAll (c :: tok)⟩ := by
      simp [Cursor.skip, hchars]
    rw [hskip]
    refine ⟨tok, rfl, fun rest' hrest loc' => ?_⟩
    have hsign' : Punct.longest? (c :: (tok ++ rest')) = some sign := by
      have hsign : Punct.longest? (sign.chars ++ rest) = some sign := by rwa [hchars]
      have hlongest := Punct.longest?_of_sameEnd hsign hrest
      rwa [hchars] at hlongest
    simp only [if_neg hquote, if_neg hdigit, if_neg hword, hsign', hskip]
    exact ⟨_, rfl⟩
  · cases h

/-! ## Texts and lexemes -/

/-- From the text the lexemes are read, wherever it begins. -/
inductive Spells : List Char → List Lexeme → Prop
  | nil {gap : List Char} : (∀ loc, ∃ loc', skipGap .blank gap loc = .ok ⟨[], loc'⟩) → Spells gap []
  | cons {gap : List Char} {c : Char} {tok rest : List Char} {lexeme : Lexeme} {l : List Lexeme} :
    Skipped gap →
      AtToken (c :: (tok ++ rest)) →
      (∀ rest', SameEnd rest rest' → ∀ loc,
        ∃ loc', scanLexeme c ⟨c :: (tok ++ rest'), loc⟩ = .ok (lexeme, ⟨rest', loc'⟩)) →
      Spells rest l → Spells (gap ++ c :: (tok ++ rest)) (lexeme :: l)

theorem SameEnd.refl (rest : List Char) : SameEnd rest rest := .inl rfl

theorem SameEnd.trans {a b c : List Char} (hab : SameEnd a b) (hbc : SameEnd b c) :
    SameEnd a c := by
  rcases hbc with heq | hparen
  · rw [SameEnd, heq]
    exact hab
  · exact .inr hparen

theorem spells_of_tokensFrom {bound : Nat} {text : List Char} {loc : Location}
    {stream : TokenStream}
    (h : tokensFrom bound ⟨text, loc⟩ = .ok stream) (hbound : text.length ≤ bound) :
    Spells text (stream.tokens.map Token.lexeme) := by
  induction bound generalizing text loc stream with
  | zero =>
    cases h
    obtain rfl : text = [] := List.length_eq_zero_iff.1 (Nat.le_zero.1 hbound)
    exact .nil fun loc => ⟨loc, rfl⟩
  | succ bound ih =>
    unfold tokensFrom at h
    obtain ⟨⟨rest, start⟩, hgap, hfirst⟩ := exists_of_bind_eq_ok h
    dsimp only at hgap hfirst
    cases rest with
    | nil =>
      cases hfirst
      exact .nil fun loc' => skipGap_anywhere hgap .blank trivial loc'
    | cons c rest =>
      obtain ⟨⟨lexeme, next⟩, hscan, hnext⟩ := exists_of_bind_eq_ok hfirst
      obtain ⟨following, hfollowing, hstream⟩ := exists_of_bind_eq_ok hnext
      cases hstream
      -- gap and token are read in the same way wherever they stand
      obtain ⟨gap, htext, hskipped⟩ := exists_skipped hgap (List.cons_ne_nil c rest)
      have htoken := atToken_of_skipGap hgap (List.cons_ne_nil c rest)
      obtain ⟨tok, hrest, hanywhere⟩ := exists_token_of_scanLexeme hscan
      obtain ⟨after, loc'⟩ := next
      dsimp only at hrest htext htoken
      subst hrest htext
      refine .cons hskipped htoken hanywhere (ih hfollowing ?_)
      simp only [List.length_append, List.length_cons] at hbound
      omega

theorem Spells.tokensFrom {text : List Char} {l : List Lexeme} (h : Spells text l) {bound : Nat}
    (hbound : text.length ≤ bound) (loc : Location) :
    ∃ stream, tokensFrom bound ⟨text, loc⟩ = .ok stream ∧ stream.tokens.map Token.lexeme = l := by
  induction h generalizing bound loc with
  | nil hgap =>
    cases bound with
    | zero => exact ⟨_, rfl, rfl⟩
    | succ bound =>
      -- only a gap is left, so there are no more tokens
      obtain ⟨loc', hskip⟩ := hgap loc
      refine ⟨⟨[], loc'⟩, ?_, rfl⟩
      rw [MiniC.tokensFrom, hskip]
      rfl
  | @cons gap c tok rest lexeme l hskipped htoken hscan _ ih =>
    simp only [List.length_append, List.length_cons] at hbound
    obtain ⟨bound, rfl⟩ := Nat.exists_eq_add_of_le' (show 1 ≤ bound by omega)
    -- what follows the token ends it, as it did where it was read first
    obtain ⟨loc', hlexeme⟩ := hscan rest (.refl rest) (loc.afterAll gap)
    have hrest : rest.length ≤ bound := by omega
    obtain ⟨following, hfollowing, hl⟩ := ih hrest loc'
    refine ⟨⟨⟨lexeme, loc.afterAll gap⟩ :: following.tokens, following.endLoc⟩, ?_, ?_⟩
    · rw [MiniC.tokensFrom, hskipped, htoken.skipGap_eq]
      change scanLexeme c ⟨c :: (tok ++ rest), loc.afterAll gap⟩ >>= _ = _
      rw [hlexeme]
      change MiniC.tokensFrom bound ⟨rest, loc'⟩ >>= _ = _
      rw [hfollowing]
      rfl
    · rw [List.map_cons, hl]

/-- What is skipped may come first. -/
theorem Spells.skipped {gap text : List Char} {l : List Lexeme} (hgap : Skipped gap)
    (h : Spells text l) :
    Spells (gap ++ text) l := by
  cases h with
  | nil hend =>
    refine .nil fun loc => ?_
    rw [hgap]
    exact hend _
  | cons hskipped htoken hscan hrest =>
    rw [← List.append_assoc]
    exact .cons (hgap.append hskipped) htoken hscan hrest

/-- A parenthesis is a token. -/
theorem Spells.paren {sign : Punct} {c : Char} (hc : c = '(' ∨ c = ')')
    (hsign : ∀ rest, Punct.longest? (c :: rest) = some sign) (hchars : sign.chars = [c])
    {text : List Char}
    {l : List Lexeme} (h : Spells text l) : Spells (c :: text) (.punct sign :: l) := by
  have hother : c ≠ '\x27' ∧ ¬ c.isDigit = true ∧ ¬ isWordStart c = true := by
    rcases hc with rfl | rfl <;> decide
  have htoken : AtToken (c :: ([] ++ text)) := by
    rcases hc with rfl | rfl
    · exact ⟨by decide, rfl, fun h => absurd h (by decide)⟩
    · exact ⟨by decide, rfl, fun h => absurd h (by decide)⟩
  refine .cons skipped_nil htoken (fun rest' _ loc => ⟨loc.after c, ?_⟩) h
  rw [scanLexeme, if_neg hother.1, if_neg hother.2.1, if_neg hother.2.2]
  simp only [List.nil_append, hsign, hchars]
  rfl

/-- The first token ends where it did if the text goes on in the same way, or with a parenthesis. -/
theorem Spells.first {gap : List Char} {c : Char} {tok rest rest' : List Char}
    {lexeme : Lexeme} {l : List Lexeme}
    (hskipped : Skipped gap) (htoken : AtToken (c :: (tok ++ rest)))
    (hscan : ∀ rest', SameEnd rest rest' → ∀ loc,
      ∃ loc', scanLexeme c ⟨c :: (tok ++ rest'), loc⟩ = .ok (lexeme, ⟨rest', loc'⟩))
    (hend : SameEnd rest rest') (h : Spells rest' l) :
    Spells (gap ++ c :: (tok ++ rest')) (lexeme :: l) :=
  .cons hskipped (htoken.sameEnd hend) (fun rest'' hrest => hscan rest'' (hend.trans hrest)) h

/-- Before a lexeme an opening parenthesis may be put into the text. -/
theorem Spells.exists_before {text : List Char} {a l : List Lexeme}
    (h : Spells text (a ++ l)) (hne : l ≠ []) :
    ∃ before rest, text = before ++ rest ∧ Spells rest l ∧ ∀ rest' l', rest'.head? = some '(' →
      Spells rest' l' → Spells (before ++ rest') (a ++ l') := by
  induction a generalizing text with
  | nil =>
    cases h with
    | nil _ => exact absurd rfl hne
    | cons hskipped htoken hscan hrest =>
      exact ⟨_, _, rfl, .cons skipped_nil htoken hscan hrest, fun rest' l' _ h' =>
        h'.skipped hskipped⟩
  | cons x a ih =>
    cases h with
    | @cons gap c tok _ _ _ hskipped htoken hscan hrest =>
      obtain ⟨before, rest, rfl, hl, hbefore⟩ := ih hrest
      refine ⟨gap ++ c :: (tok ++ before), rest, by simp, hl, fun rest' l' hparen h' => ?_⟩
      have hend : SameEnd (before ++ rest) (before ++ rest') := by
        cases before with
        | nil => exact .inr (.inl hparen)
        | cons d before => exact .inl rfl
      simpa using Spells.first hskipped htoken hscan hend (hbefore rest' l' hparen h')

/-- After a lexeme a closing parenthesis may be put into the text. -/
theorem Spells.exists_after {text : List Char} {m l : List Lexeme}
    (h : Spells text (m ++ l)) (hne : m ≠ []) :
    ∃ inside after, inside ≠ [] ∧ text = inside ++ after ∧ Spells after l ∧
      ∀ after' l', after'.head? = some ')' →
      Spells after' l' → Spells (inside ++ after') (m ++ l') := by
  induction m generalizing text with
  | nil => exact absurd rfl hne
  | cons x m ih =>
    cases h with
    | @cons gap c tok rest _ _ hskipped htoken hscan hrest =>
      cases m with
      | nil =>
        refine ⟨gap ++ c :: tok, rest, by simp, by simp, hrest, fun after' l' hparen h' => ?_⟩
        simpa using Spells.first hskipped htoken hscan (.inr (.inr hparen)) h'
      | cons y m =>
        obtain ⟨inside, after, hinside, rfl, hl, hafter⟩ := ih hrest (List.cons_ne_nil y m)
        refine ⟨gap ++ c :: (tok ++ inside), after, by simp, by simp,
          hl, fun after' l' hparen h' => ?_⟩
        obtain ⟨d, inside, rfl⟩ := List.exists_cons_of_ne_nil hinside
        have hend : SameEnd (d :: inside ++ after) (d :: inside ++ after') := .inl rfl
        simpa using Spells.first hskipped htoken hscan hend (hafter after' l' hparen h')

/-- A pair of parentheses around some of the lexemes may be put into the text. -/
theorem Spells.exists_enclosed {text : List Char} {a m l : List Lexeme}
    (h : Spells text (a ++ (m ++ l)))
    (hne : m ≠ []) : ∃ before inside after, text = before ++ (inside ++ after) ∧
      Spells (before ++ '(' :: (inside ++ ')' :: after))
        (a ++ .punct .leftParen :: (m ++ .punct .rightParen :: l)) := by
  obtain ⟨before, rest, rfl, hrest, hbefore⟩ :=
    h.exists_before (List.append_ne_nil_of_left_ne_nil hne l)
  obtain ⟨inside, after, -, rfl, hl, hafter⟩ := hrest.exists_after hne
  refine ⟨before, inside, after, rfl, hbefore _ _ rfl ?_⟩
  refine .paren (.inl rfl) (fun _ => rfl) rfl (hafter _ _ rfl ?_)
  exact hl.paren (.inr rfl) (fun _ => rfl) rfl

theorem spells_of_tokenize {source : String} {stream : TokenStream}
    (h : tokenize source = .ok stream) :
    Spells source.toList (stream.tokens.map Token.lexeme) := spells_of_tokensFrom h (Nat.le_refl _)

theorem Spells.tokenize {text : List Char} {l : List Lexeme} (h : Spells text l) :
    ∃ stream, tokenize (String.ofList text) = .ok stream ∧ stream.tokens.map Token.lexeme = l := by
  rw [MiniC.tokenize, Cursor.ofString, String.toList_ofList]
  exact h.tokensFrom (Nat.le_refl _) _

end MiniC
