import MiniC.Proofs.TokenSpelling
import MiniC.Proofs.WrittenProgram

/-!
# Printing

`Written.File.print` writes a file out, every lexeme in its own spelling and with a blank after it.
A blank ends every token, so what is printed is read back as the same lexemes
(`Written.File.exists_writes_print`).
-/

set_option autoImplicit false

namespace MiniC

/-! ## Lexemes -/

/-- The characters of a lexeme; a number is written in decimal digits. -/
def Lexeme.print : Lexeme → List Char
  | .integer value => Nat.toDigits 10 value
  | .identifier name => name.toList
  | .keyword word => word.spelling.toList
  | .punct sign => sign.chars

/-- A lexeme that a token can have: a literal is in range, and an identifier is a word that is not
reserved. -/
def Lexeme.Printable : Lexeme → Prop
  | .integer value => value < 2 ^ 31
  | .identifier name => IsWord name.toList ∧ ∀ word : Keyword, word.spelling ≠ name
  | .keyword _ | .punct _ => True

instance (text : List Char) : Decidable (IsWord text) :=
  decidable_of_iff (text.head?.any isWordStart = true ∧ text.all isWordChar = true)
    (and_congr (Option.any_eq_true isWordStart text.head?) List.all_eq_true)

instance : DecidablePred Lexeme.Printable
  | .integer value => inferInstanceAs (Decidable (value < 2 ^ 31))
  | .identifier name =>
    decidable_of_iff (IsWord name.toList ∧ Keyword.ofSpelling? name = none)
      (and_congr_right fun _ => Keyword.ofSpelling?_eq_none_iff)
  | .keyword _ | .punct _ => inferInstanceAs (Decidable True)

theorem isNumeral_toDigits (value : Nat) : IsNumeral (Nat.toDigits 10 value) :=
  ⟨Nat.toDigits_ne_nil, fun _ hd => Nat.isDigit_of_mem_toDigits (by decide) (by decide) hd⟩

theorem numeralValue_toDigits (value : Nat) : numeralValue (Nat.toDigits 10 value) = value := by
  rw [← decimalValue_eq]
  exact Nat.ofDigitChars_ten_toDigits

theorem Lexeme.Printable.spelledBy {x : Lexeme} (h : x.Printable) : x.SpelledBy x.print := by
  cases x with
  | integer value =>
    have hbound : numeralValue (Nat.toDigits 10 value) < 2 ^ 31 := by rwa [numeralValue_toDigits]
    have hspelled := Lexeme.SpelledBy.numeral (isNumeral_toDigits value) hbound
    rwa [numeralValue_toDigits] at hspelled
  | identifier name => exact .identifier h.1 h.2
  | keyword word => exact .keyword word
  | punct sign => exact .punct sign

/-! ## Where tokens begin and end -/

theorem isBlank_of_isWordChar {c : Char} (h : isWordChar c = true) : isBlank c = false := by
  rw [← Bool.not_eq_true]
  intro hblank
  simp only [isBlank, Bool.or_eq_true, decide_eq_true_eq] at hblank
  rcases hblank with ((rfl | rfl) | rfl) | rfl <;> exact absurd h (by decide)

theorem atToken_of_isWordChar {c : Char} (h : isWordChar c = true) (rest : List Char) :
    AtToken (c :: rest) := by
  refine ⟨?_, isBlank_of_isWordChar h, ?_⟩
  · rintro rfl
    exact absurd h (by decide)
  · rintro rfl
    exact absurd h (by decide)

/-- What is printed begins no comment, where the text ends after it or goes on with a blank. -/
theorem Lexeme.Printable.atToken {x : Lexeme} (h : x.Printable) {rest : List Char}
    (hrest : ∀ c ∈ rest.head?, isBlank c = true) : AtToken (x.print ++ rest) := by
  have hword {text : List Char} (hne : text ≠ []) (htext : ∀ d ∈ text, isWordChar d = true) :
      AtToken (text ++ rest) := by
    obtain ⟨c, tok, rfl⟩ := List.exists_cons_of_ne_nil hne
    exact atToken_of_isWordChar (htext c List.mem_cons_self) _
  cases x with
  | integer value =>
    refine hword Nat.toDigits_ne_nil fun d hd => ?_
    have hdigit := (isNumeral_toDigits value).2 d hd
    simp [isWordChar, Char.isAlphanum, hdigit]
  | identifier name =>
    obtain ⟨⟨⟨c, hc, -⟩, hchars⟩, -⟩ := h
    exact hword (List.ne_nil_of_mem (List.mem_of_mem_head? hc)) hchars
  | keyword word =>
    obtain ⟨⟨c, hc, -⟩, hchars⟩ := word.isWord_spelling
    exact hword (List.ne_nil_of_mem (List.mem_of_mem_head? hc)) hchars
  | punct sign =>
    -- a slash does not begin a comment with what comes after it
    have hcomment : rest.head? ≠ some '/' ∧ rest.head? ≠ some '*' := by
      constructor
      · exact fun hhead => absurd (hrest _ hhead) (by decide)
      · exact fun hhead => absurd (hrest _ hhead) (by decide)
    cases sign <;> simp [Lexeme.print, Punct.chars, AtToken, isBlank, hcomment]

/-- A blank or a parenthesis does not go on with a token. -/
theorem longest_of_ends {text rest : List Char} (htext : text ≠ [])
    (hrest : ∀ c ∈ rest.head?, isBlank c = true ∨ c = '(' ∨ c = ')') : Longest text rest := by
  have hsign : ∀ sign ∈ Punct.all,
    (sign.chars.getLast?.any fun c => isBlank c || c = '(' || c = ')') = true →
      sign.chars.length = 1 := by decide
  have hother {c : Char} (hc : isBlank c = true ∨ c = '(' ∨ c = ')') : isWordChar c = false := by
    rcases hc with hblank | rfl | rfl
    · cases hchar : isWordChar c with
      | false => rfl
      | true => exact absurd hblank (Bool.eq_false_iff.1 (isBlank_of_isWordChar hchar))
    · decide
    · decide
  -- with the character that follows, the text is no numeral, no word and no sign
  rintro c hc (hnumeral | hword | ⟨sign, hchars⟩)
  · have hdigit := hnumeral.2 c (by simp)
    have hchar := hother (hrest c hc)
    simp [isWordChar, Char.isAlphanum, hdigit] at hchar
  · have hchar := hword.2 c (by simp)
    rw [hother (hrest c hc)] at hchar
    cases hchar
  · have hlast : (sign.chars.getLast?.any fun c => isBlank c || c = '(' || c = ')') = true := by
      rw [hchars, List.getLast?_concat]
      simpa [or_assoc] using hrest c hc
    have hlength := hsign sign sign.mem_all hlast
    have hpos := List.length_pos_iff.2 htext
    rw [hchars, List.length_append, List.length_singleton] at hlength
    omega

/-! ## Texts -/

/-- The characters of lexemes, with a blank after each. -/
def printLexemes (ls : List Lexeme) : List Char := ls.flatMap fun x => x.print ++ [' ']

theorem skipped_blank : Skipped [' '] := fun rest loc => skipGap_isBlank rfl rest loc

/-- What is printed is read back, token by token. -/
theorem spells_printLexemes {ls : List Lexeme} (h : ∀ x ∈ ls, x.Printable) :
    Spells (printLexemes ls) ls := by
  induction ls with
  | nil => exact .nil fun loc => ⟨loc, rfl⟩
  | cons x ls ih =>
    rw [List.forall_mem_cons] at h
    have hrest : Spells (' ' :: printLexemes ls) ls := (ih h.2).skipped skipped_blank
    have htoken : AtToken (x.print ++ ' ' :: printLexemes ls) := h.1.atToken (by simp [isBlank])
    have hspelled := h.1.spelledBy
    -- the blank after the lexeme is skipped in front of what comes next
    have htext : printLexemes (x :: ls) = x.print ++ ' ' :: printLexemes ls := by
      simp [printLexemes]
    rw [htext]
    generalize x.print = read at *
    obtain ⟨c, tok, rfl, -⟩ :=
      @scanLexeme_of_spelledBy x read [] hspelled (fun _ hc => nomatch hc) .start
    refine .cons skipped_nil htoken (fun rest' hend loc => ?_) hrest
    have hlongest : Longest (c :: tok) rest' := by
      refine longest_of_ends (List.cons_ne_nil c tok) fun d hd => ?_
      have hends : some d = some ' ' ∨ some d = some '(' ∨ some d = some ')' := by
        rw [← show rest'.head? = some d from hd]
        exact hend
      rcases hends with heq | heq | heq <;> cases heq <;> decide
    obtain ⟨c', tok', hread, hscan⟩ := scanLexeme_of_spelledBy hspelled hlongest loc
    cases hread
    exact ⟨_, hscan⟩

namespace Written

/-- A file written out. -/
def File.print (file : File) : String := String.ofList (printLexemes file.lexemes)

/-- The tokens of what is printed are those of the file. -/
theorem File.exists_writes_print {file : File} (hfile : file.WellFormed)
    (h : ∀ x ∈ file.lexemes, x.Printable) :
    ∃ stream, tokenize file.print = .ok stream ∧ Writes stream file := by
  obtain ⟨stream, hstream, hlexemes⟩ := (spells_printLexemes h).tokenize
  exact ⟨stream, hstream, hfile, hlexemes⟩

end Written

end MiniC
