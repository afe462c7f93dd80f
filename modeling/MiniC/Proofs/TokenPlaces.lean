import MiniC.Token.Lexer

/-!
# Places of tokens

Reading moves the place forward: the tokens of a text lie at places that come one before the other
(`pairwise_before_of_tokenize`), so the place of a token identifies it (`nodup_places_of_tokenize`).
-/

set_option autoImplicit false

namespace MiniC

/-! ## Places in order -/

namespace Location

/-- The first place comes before the second one in a text. -/
def Before (a b : Location) : Prop := a.line < b.line ∨ a.line = b.line ∧ a.column < b.column

/-- The places are the same, or the first one comes before the second one. -/
def UpTo (a b : Location) : Prop := a = b ∨ a.Before b

variable {a b c : Location}

/-- Places are in an order. -/
theorem Before.trans (hab : a.Before b) (hbc : b.Before c) : a.Before c := by
  unfold Before at hab hbc ⊢
  omega

/-- No place comes before itself. -/
theorem not_before_self (a : Location) : ¬ a.Before a := by
  unfold Before
  omega

theorem UpTo.refl (a : Location) : a.UpTo a := .inl rfl

theorem Before.trans_upTo (hab : a.Before b) (hbc : b.UpTo c) : a.Before c := by
  rcases hbc with rfl | hbc
  · exact hab
  · exact hab.trans hbc

theorem UpTo.trans (hab : a.UpTo b) (hbc : b.UpTo c) : a.UpTo c := by
  rcases hab with rfl | hab
  · exact hbc
  · exact .inr (hab.trans_upTo hbc)

/-- The next character lies at a later place. -/
theorem before_after (a : Location) (c : Char) : a.Before (a.after c) := by
  unfold Before after
  split
  · exact .inl (Nat.lt_succ_self _)
  · exact .inr ⟨rfl, Nat.lt_succ_self _⟩

theorem upTo_after (a : Location) (c : Char) : a.UpTo (a.after c) := .inr (before_after a c)

theorem upTo_afterAll (a : Location) (cs : List Char) : a.UpTo (a.afterAll cs) := by
  induction cs generalizing a with
  | nil => exact .refl a
  | cons c cs ih => exact (upTo_after a c).trans (ih _)

/-- After some characters the place is a later one. -/
theorem before_afterAll (a : Location) {cs : List Char} (h : cs ≠ []) :
    a.Before (a.afterAll cs) := by
  cases cs with
  | nil => exact absurd rfl h
  | cons c cs => exact (before_after a c).trans_upTo (upTo_afterAll _ cs)

end Location

/-! ## Scanning -/

theorem exists_of_bind_eq_ok {ε α β : Type} {x : Except ε α} {f : α → Except ε β} {b : β}
    (h : x >>= f = .ok b) : ∃ a, x = .ok a ∧ f a = .ok b := by
  cases x with
  | error e => cases h
  | ok a => exact ⟨a, rfl, h⟩

open Location in
/-- Skipping what is between tokens does not go back. -/
theorem upTo_of_skipGap {gap : Gap} {text : List Char} {loc : Location} {cur : Cursor}
    (h : skipGap gap text loc = .ok cur) : loc.UpTo cur.loc := by
  fun_induction skipGap gap text loc with
  | case1 => cases h
  | case2 =>
    cases h
    exact .refl _
  | case3 | case5 | case8 | case9 =>
    rename_i ih
    exact (upTo_after _ _).trans (ih h)
  | case4 | case6 | case7 =>
    rename_i ih
    exact (upTo_afterAll _ _).trans (ih h)
  | case10 =>
    cases h
    exact .refl _

/-- Reading characters up to one of another kind moves on, if the first is of the kind. -/
theorem before_span {cur : Cursor} {p : Char → Bool} {c : Char} {rest : List Char}
    (hcur : cur.rest = c :: rest) (hc : p c = true) : cur.loc.Before (cur.span p).2.loc := by
  apply Location.before_afterAll
  rw [hcur, List.takeWhile_cons_of_pos hc]
  exact List.cons_ne_nil _ _

/-- Taking a character does not go back. -/
theorem upTo_of_next? {cur next : Cursor} {c : Char} (h : cur.next? = some (c, next)) :
    cur.loc.UpTo next.loc := by
  unfold Cursor.next? at h
  split at h
  · cases h
  · cases h
    exact Location.upTo_after _ _

theorem upTo_of_scanCharacterCode {cur next : Cursor} {code : Nat}
    (h : scanCharacterCode cur = .ok (code, next)) : cur.loc.UpTo next.loc := by
  unfold scanCharacterCode at h
  split at h
  · cases h
  · next escape hescape =>
    split at h
    · cases h
    · next c after hafter =>
      split at h
      · cases h
        exact (upTo_of_next? hescape).trans (upTo_of_next? hafter)
      · cases h
  · next c after hnext =>
    cases h
    exact upTo_of_next? hnext

/-- Reading a character in quotes does not go back. -/
theorem upTo_of_scanCharacter {cur next : Cursor} {lexeme : Lexeme}
    (h : scanCharacter cur = .ok (lexeme, next)) : cur.loc.UpTo next.loc := by
  obtain ⟨⟨code, closing⟩, hcode, hclosing⟩ := exists_of_bind_eq_ok h
  dsimp only at hclosing
  split at hclosing
  · next after hafter =>
    cases hclosing
    exact (upTo_of_scanCharacterCode hcode).trans (upTo_of_next? hafter)
  · cases hclosing
  · cases hclosing

/-- No sign is empty. -/
theorem Punct.chars_ne_nil (sign : Punct) : sign.chars ≠ [] := by
  cases sign <;> exact List.cons_ne_nil _ _

/-- What a word begins with may stand inside one. -/
theorem isWordChar_of_isWordStart {c : Char} (h : isWordStart c = true) : isWordChar c = true := by
  unfold isWordStart at h
  unfold isWordChar Char.isAlphanum
  simp only [Bool.or_eq_true] at h ⊢
  exact h.imp_left .inl

/-- Every lexeme takes at least one character. -/
theorem before_of_scanLexeme {cur next : Cursor} {c : Char} {rest : List Char} {lexeme : Lexeme}
    (hcur : cur.rest = c :: rest) (h : scanLexeme c cur = .ok (lexeme, next)) :
    cur.loc.Before next.loc := by
  unfold scanLexeme at h
  split at h
  · -- at least the quote is taken
    have hquote : cur.loc.Before (cur.skip 1).loc := by
      apply Location.before_afterAll
      rw [hcur]
      exact List.cons_ne_nil _ _
    exact hquote.trans_upTo (upTo_of_scanCharacter h)
  split at h
  · next hdigit =>
    unfold scanNumber at h
    dsimp only at h
    split at h
    · cases h
      exact before_span hcur hdigit
    · cases h
  split at h
  · next hword =>
    cases h
    exact before_span hcur (isWordChar_of_isWordStart hword)
  split at h
  · -- no sign is empty, so the place moves on
    next sign _ =>
    cases h
    apply Location.before_afterAll
    intro hnil
    have hlength := congrArg List.length hnil
    have hpos : 0 < sign.chars.length := List.length_pos_iff.2 sign.chars_ne_nil
    rw [hcur, List.length_take, List.length_cons, List.length_nil] at hlength
    omega
  · cases h

/-! ## Tokens -/

/-- The tokens that are read from a cursor on lie after it, in order. -/
theorem before_of_tokensFrom {bound : Nat} {cur : Cursor} {stream : TokenStream}
    (h : tokensFrom bound cur = .ok stream) :
    (∀ token ∈ stream.tokens, cur.loc.UpTo token.loc) ∧
      (stream.tokens.map Token.loc).Pairwise Location.Before := by
  induction bound generalizing cur stream with
  | zero =>
    cases h
    simp
  | succ bound ih =>
    unfold tokensFrom at h
    obtain ⟨first, hgap, hfirst⟩ := exists_of_bind_eq_ok h
    have hstart : cur.loc.UpTo first.loc := upTo_of_skipGap hgap
    split at hfirst
    · cases hfirst
      simp
    · -- the token lies where the gap ends, and all that follow lie after it
      next c rest hrest =>
      obtain ⟨⟨lexeme, next⟩, hscan, hnext⟩ := exists_of_bind_eq_ok hfirst
      obtain ⟨following, hfollowing, hstream⟩ := exists_of_bind_eq_ok hnext
      cases hstream
      have hbefore : first.loc.Before next.loc := before_of_scanLexeme hrest hscan
      obtain ⟨hfrom, hpairwise⟩ := ih hfollowing
      constructor
      · intro token htoken
        rcases List.mem_cons.1 htoken with rfl | htoken
        · exact hstart
        · exact hstart.trans (.inr (hbefore.trans_upTo (hfrom token htoken)))
      · rw [List.map_cons, List.pairwise_cons]
        refine ⟨?_, hpairwise⟩
        rw [List.forall_mem_map]
        intro token htoken
        exact hbefore.trans_upTo (hfrom token htoken)

/-- Tokens come one after the other. -/
theorem pairwise_before_of_tokenize {source : String} {stream : TokenStream}
    (h : tokenize source = .ok stream) : (stream.tokens.map Token.loc).Pairwise Location.Before :=
  (before_of_tokensFrom h).2

/-- No two tokens of a text lie at the same place. -/
theorem nodup_places_of_tokenize {source : String} {stream : TokenStream}
    (h : tokenize source = .ok stream) : (stream.tokens.map Token.loc).Nodup := by
  apply (pairwise_before_of_tokenize h).imp
  rintro a _ hab rfl
  exact Location.not_before_self a hab

end MiniC
