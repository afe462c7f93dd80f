import Mathlib.Data.List.Induction
import Mathlib.Data.Nat.Digits.Defs
import MiniC.Proofs.InsertedParentheses

/-!
# The spelling of tokens

How a token is written, and what may stand between two tokens, without reference to the functions
that read them: `Lexeme.SpelledBy`, `Longest` and `Interlude`. Both directions are proved for each
reading function. What it accepts is spelled in this way (`spelledBy_of_scanLexeme`,
`interlude_of_skipGap`), and what is spelled in this way it accepts (`scanLexeme_of_spelledBy`,
`Interlude.skipGap_append`).
-/

set_option autoImplicit false

namespace MiniC

/-! ## Numerals, words and signs -/

/-- One or more decimal digits. -/
def IsNumeral (text : List Char) : Prop := text ≠ [] ∧ ∀ d ∈ text, d.isDigit = true

/-- A letter or an underscore, followed by letters, digits and underscores. -/
def IsWord (text : List Char) : Prop :=
  (∃ c ∈ text.head?, isWordStart c = true) ∧ ∀ d ∈ text, isWordChar d = true

/-- An operator sign, a bracket or a separator. -/
def IsSign (text : List Char) : Prop := ∃ sign : Punct, sign.chars = text

/-- The number that decimal digits stand for, the last one counting ones. -/
def numeralValue (digits : List Char) : Nat :=
  Nat.ofDigits 10 (digits.reverse.map fun d => d.toNat - '0'.toNat)

/-- The text before `rest` makes no longer numeral, word or sign together with the next
character. -/
def Longest (text rest : List Char) : Prop :=
  ∀ c ∈ rest.head?, ¬ (IsNumeral (text ++ [c]) ∨ IsWord (text ++ [c]) ∨ IsSign (text ++ [c]))

/-- How a lexeme is written. -/
inductive Lexeme.SpelledBy : Lexeme → List Char → Prop
  | numeral {digits : List Char} :
      IsNumeral digits → numeralValue digits < 2 ^ 31 →
        SpelledBy (.integer (numeralValue digits)) digits
  | character {c : Char} : c ≠ '\\' → SpelledBy (.integer c.toNat) ['\x27', c, '\x27']
  | escape {c : Char} {code : Nat} :
      escapeCode? c = some code → SpelledBy (.integer code) ['\x27', '\\', c, '\x27']
  | keyword (word : Keyword) : SpelledBy (.keyword word) word.spelling.toList
  | identifier {name : String} :
      IsWord name.toList → (∀ word : Keyword, word.spelling ≠ name) →
        SpelledBy (.identifier name) name.toList
  | punct (sign : Punct) : SpelledBy (.punct sign) sign.chars

/-- Reading digits from the left gives the number that they stand for. -/
theorem decimalValue_eq (digits : List Char) : decimalValue digits = numeralValue digits := by
  -- the value grows at the last digit, so the induction takes digits from the end
  induction digits using List.reverseRecOn with
  | nil => rfl
  | append_singleton digits d ih =>
    rw [decimalValue] at ih
    rw [decimalValue, List.foldl_append, ih, numeralValue, numeralValue,
      List.reverse_append, List.map_append]
    exact Nat.add_comm _ _

/-! ## Signs -/

/-- The signs of two characters are tried before those of one. -/
theorem Punct.pairwise_all : all.Pairwise fun sign sign' =>
    sign'.chars.length ≤ sign.chars.length := by
  decide

/-- A sign alone is read as that sign. -/
theorem Punct.longest?_chars (sign : Punct) : longest? sign.chars = some sign := by
  cases sign <;> rfl

/-- Different signs are written differently. -/
theorem Punct.chars_injective : Function.Injective chars := by
  intro sign sign' h
  have hlongest := congrArg longest? h
  rw [longest?_chars, longest?_chars] at hlongest
  exact Option.some.inj hlongest

/-- The sign that is read is none shorter than another one that could be read. -/
theorem Punct.length_le_of_longest? {text : List Char} {sign sign' : Punct}
    (h : longest? text = some sign)
    (hbegins : sign'.chars <+: text) : sign'.chars.length ≤ sign.chars.length := by
  obtain ⟨-, before, after, hall, hbefore⟩ := List.find?_eq_some_iff_append.1 h
  have hmem : sign' ∈ before ++ sign :: after := hall ▸ sign'.mem_all
  rcases List.mem_append.1 hmem with hmem | hmem
  · -- a sign that is tried earlier would have been read
    have hnot := hbefore sign' hmem
    simp [List.isPrefixOf_iff_prefix.2 hbegins] at hnot
  · have hpairwise : (sign :: after).Pairwise fun sign sign' =>
      sign'.chars.length ≤ sign.chars.length :=
      (List.pairwise_append.1 (hall ▸ pairwise_all)).2.1
    rcases List.mem_cons.1 hmem with rfl | hmem
    · exact Nat.le_refl _
    · exact List.rel_of_pairwise_cons hpairwise hmem

/-- The sign that is read is one that the text begins with. -/
theorem Punct.prefix_of_longest? {text : List Char} {sign : Punct} (h : longest? text = some sign) :
    sign.chars <+: text := by
  have hbegins := List.find?_some (p := fun sign : Punct => sign.chars.isPrefixOf text) h
  exact List.isPrefixOf_iff_prefix.1 hbegins

/-- A sign that the next character does not extend to a longer one is read as it stands. -/
theorem Punct.longest?_append {sign : Punct} {rest : List Char}
    (hrest : ∀ c ∈ rest.head?, ¬ IsSign (sign.chars ++ [c])) :
    longest? (sign.chars ++ rest) = some sign := by
  cases hlongest : longest? (sign.chars ++ rest) with
  | none =>
    have hnot := List.find?_eq_none.1 hlongest sign sign.mem_all
    exact absurd (List.isPrefixOf_iff_prefix.2 (List.prefix_append _ _)) hnot
  | some found =>
    congr 1
    have hle : sign.chars.length ≤ found.chars.length :=
      length_le_of_longest? hlongest (List.prefix_append _ _)
    obtain ⟨more, hmore⟩ :=
      List.prefix_of_prefix_length_le (List.prefix_append _ _) (prefix_of_longest? hlongest) hle
    cases more with
    | nil => exact chars_injective (by rw [← hmore, List.append_nil])
    | cons c more =>
      -- signs have at most two characters, so the sign that is found has just the next one more
      have hlength : found.chars.length ≤ 2 := found.length_chars_le
      have hpos : 0 < sign.chars.length := List.length_pos_iff.2 sign.chars_ne_nil
      rw [← hmore, List.length_append, List.length_cons] at hlength
      obtain rfl : more = [] := List.length_eq_zero_iff.1 (by omega)
      have hbegins := prefix_of_longest? hlongest
      rw [← hmore, List.prefix_append_right_inj] at hbegins
      obtain ⟨tail, rfl⟩ := hbegins
      exact absurd ⟨found, hmore.symm⟩ (hrest c rfl)

/-- A sign begins with no quote, digit or letter. -/
theorem Punct.head_chars (sign : Punct) :
    ∀ c ∈ sign.chars.head?, c ≠ '\x27' ∧ c.isDigit = false ∧ isWordStart c = false := by
  intro c hc
  cases sign <;> cases hc <;> decide

/-! ## Digits and letters -/

/-- A word does not begin with a digit. -/
theorem isWordStart_of_isDigit {c : Char} (h : c.isDigit = true) : isWordStart c = false := by
  simp only [Char.isDigit, Bool.and_eq_true, decide_eq_true_eq,
    UInt32.le_iff_toNat_le, ge_iff_le] at h
  change 48 ≤ c.toNat ∧ c.toNat ≤ 57 at h
  have hupper : c.isUpper = false := by
    apply decide_eq_false
    change ¬ (65 ≤ c.toNat ∧ c.toNat ≤ 90)
    omega
  have hlower : c.isLower = false := by
    change (decide _ && decide _) = false
    rw [Bool.and_eq_false_iff, decide_eq_false_iff_not, decide_eq_false_iff_not]
    change ¬ 97 ≤ c.toNat ∨ ¬ c.toNat ≤ 122
    omega
  have halpha : c.isAlpha = false := Bool.or_eq_false_iff.2 ⟨hupper, hlower⟩
  rw [isWordStart, Bool.or_eq_false_iff, decide_eq_false_iff_not]
  refine ⟨halpha, ?_⟩
  rintro rfl
  exact absurd h.2 (by decide)

/-- The characters that belong to a token end where the next one does not. -/
theorem span_append {p : Char → Bool} {run rest : List Char} (hrun : ∀ d ∈ run, p d = true)
    (hrest : ∀ c ∈ rest.head?, p c = false) (loc : Location) :
    (Cursor.mk (run ++ rest) loc).span p = (run, ⟨rest, loc.afterAll run⟩) := by
  have hstop : rest.takeWhile p = [] ∧ rest.dropWhile p = rest := by
    cases rest with
    | nil => exact ⟨rfl, rfl⟩
    | cons c rest =>
      have hc : ¬ p c = true := Bool.eq_false_iff.1 (hrest c rfl)
      exact ⟨List.takeWhile_cons_of_neg hc, List.dropWhile_cons_of_neg hc⟩
  rw [Cursor.span, List.takeWhile_append_of_pos hrun,
    List.dropWhile_append_of_pos hrun, hstop.1, hstop.2, List.append_nil]

/-- The run of characters at a cursor is followed by another kind of character. -/
theorem head_dropWhile {p : Char → Bool} {text : List Char} :
    ∀ c ∈ (text.dropWhile p).head?, p c = false := by
  intro c hc
  have hnot := List.head?_dropWhile_not p text
  rwa [show (text.dropWhile p).head? = some c from hc] at hnot

/-! ## The next character -/

/-- After a quote no character is in doubt. -/
theorem longest_of_quote {tok rest : List Char} : Longest ('\x27' :: tok) rest := by
  rintro d - (hnumeral | hword | ⟨sign, hsign⟩)
  · exact absurd (hnumeral.2 '\x27' List.mem_cons_self) (by decide)
  · obtain ⟨⟨c, hc, hstart⟩, -⟩ := hword
    cases hc
    exact absurd hstart (by decide)
  · exact (sign.head_chars '\x27' (hsign ▸ rfl)).1 rfl

/-- A numeral is the longest one if no digit follows. -/
theorem longest_numeral_iff {c : Char} {tok rest : List Char} (hc : c.isDigit = true)
    (htok : ∀ d ∈ tok, d.isDigit = true) :
    Longest (c :: tok) rest ↔ ∀ d ∈ rest.head?, d.isDigit = false := by
  refine forall₂_congr fun d _ => ?_
  constructor
  · intro hlongest
    by_contra hd
    rw [Bool.not_eq_false] at hd
    refine hlongest (.inl ⟨List.cons_ne_nil _ _, ?_⟩)
    simpa [or_imp, forall_and, hc, hd] using htok
  · rintro hd (hnumeral | ⟨⟨e, he, hstart⟩, -⟩ | ⟨sign, hsign⟩)
    · have hdigit := hnumeral.2 d (by simp)
      rw [hd] at hdigit
      cases hdigit
    · cases he
      rw [isWordStart_of_isDigit hc] at hstart
      cases hstart
    · have hhead := (sign.head_chars c (hsign ▸ rfl)).2.1
      rw [hc] at hhead
      cases hhead

/-- A word is the longest one if no letter, digit or underscore follows. -/
theorem longest_word_iff {c : Char} {tok rest : List Char} (hc : isWordStart c = true)
    (htok : ∀ d ∈ tok, isWordChar d = true) :
    Longest (c :: tok) rest ↔ ∀ d ∈ rest.head?, isWordChar d = false := by
  refine forall₂_congr fun d _ => ?_
  constructor
  · intro hlongest
    by_contra hd
    rw [Bool.not_eq_false] at hd
    refine hlongest (.inr (.inl ⟨⟨c, rfl, hc⟩, ?_⟩))
    simpa [or_imp, forall_and, isWordChar_of_isWordStart hc, hd] using htok
  · rintro hd (hnumeral | hword | ⟨sign, hsign⟩)
    · have hdigit := isWordStart_of_isDigit (hnumeral.2 c List.mem_cons_self)
      rw [hc] at hdigit
      cases hdigit
    · have hchar := hword.2 d (by simp)
      rw [hd] at hchar
      cases hchar
    · have hhead := (sign.head_chars c (hsign ▸ rfl)).2.2
      rw [hc] at hhead
      cases hhead

/-- A sign is the longest one if it makes no other sign with the next character. -/
theorem longest_sign_iff {sign : Punct} {rest : List Char} :
    Longest sign.chars rest ↔ ∀ d ∈ rest.head?, ¬ IsSign (sign.chars ++ [d]) := by
  obtain ⟨c, tok, hchars⟩ := List.exists_cons_of_ne_nil sign.chars_ne_nil
  obtain ⟨-, hdigit, hstart⟩ := sign.head_chars c (hchars ▸ rfl)
  refine forall₂_congr fun d _ => not_congr ?_
  constructor
  · rintro (hnumeral | ⟨⟨e, he, hword⟩, -⟩ | hsign)
    · have hc := hnumeral.2 c (by simp [hchars])
      rw [hdigit] at hc
      cases hc
    · rw [hchars] at he
      cases he
      rw [hstart] at hword
      cases hword
    · exact hsign
  · exact fun hsign => .inr (.inr hsign)

/-! ## What is read is spelled so -/

theorem Keyword.spelling_of_ofSpelling? {name : String} {word : Keyword}
    (h : ofSpelling? name = some word) :
    word.spelling = name :=
      of_decide_eq_true (List.find?_some (p := fun word : Keyword => word.spelling = name) h)

/-- What is no keyword is spelled like none. -/
theorem Keyword.ofSpelling?_eq_none_iff {name : String} :
    ofSpelling? name = none ↔ ∀ word : Keyword, word.spelling ≠ name := by
  rw [ofSpelling?, List.find?_eq_none]
  simp [mem_all]

/-- Every keyword is read as itself. -/
theorem Keyword.ofSpelling?_spelling (word : Keyword) : ofSpelling? word.spelling = some word := by
  cases word <;> decide

/-- The text `read` from `text` on is a spelling of the lexeme, and the longest one. -/
structure Reads (lexeme : Lexeme) (text : List Char) (loc : Location) (next : Cursor)
    (read : List Char) : Prop where
  eq_append : text = read ++ next.rest
  next_loc : next.loc = loc.afterAll read
  spelled : lexeme.SpelledBy read
  longest : Longest read next.rest

/-- What is read as a number is a numeral, and the longest one. -/
theorem reads_of_scanNumber {c : Char} {text : List Char} {loc : Location}
    {lexeme : Lexeme} {next : Cursor}
    (hc : c.isDigit = true) (h : scanNumber ⟨c :: text, loc⟩ = .ok (lexeme, next)) :
    ∃ tok, Reads lexeme (c :: text) loc next (c :: tok) := by
  rw [scanNumber, Cursor.span, List.takeWhile_cons_of_pos hc, List.dropWhile_cons_of_pos hc] at h
  dsimp only at h
  split at h
  · next hbound =>
    cases h
    have htok : ∀ d ∈ text.takeWhile Char.isDigit, d.isDigit = true :=
      List.all_eq_true.1 List.all_takeWhile
    rw [decimalValue_eq] at hbound ⊢
    exact ⟨_, (by simp), rfl, .numeral
      ⟨List.cons_ne_nil _ _, List.forall_mem_cons.2 ⟨hc, htok⟩⟩ hbound,
      (longest_numeral_iff hc htok).2 head_dropWhile⟩
  · cases h

/-- What is read as a word is a name or a keyword, and the longest one. -/
theorem reads_scanWord {c : Char} (text : List Char) (loc : Location) (hc : isWordStart c = true) :
    ∃ tok, Reads (scanWord ⟨c :: text, loc⟩).1 (c :: text) loc
      (scanWord ⟨c :: text, loc⟩).2 (c :: tok) := by
  have hchar := isWordChar_of_isWordStart hc
  have htok : ∀ d ∈ text.takeWhile isWordChar, isWordChar d = true :=
    List.all_eq_true.1 List.all_takeWhile
  rw [scanWord, Cursor.span, List.takeWhile_cons_of_pos hchar, List.dropWhile_cons_of_pos hchar]
  refine ⟨text.takeWhile isWordChar, by simp, rfl, ?_, (longest_word_iff hc htok).2 head_dropWhile⟩
  dsimp only
  cases hword : Keyword.ofSpelling? (String.ofList (c :: text.takeWhile isWordChar)) with
  | none =>
    have hidentifier :
      (Lexeme.identifier (String.ofList (c :: text.takeWhile isWordChar))).SpelledBy
        (String.ofList (c :: text.takeWhile isWordChar)).toList := by
      refine .identifier ?_ (Keyword.ofSpelling?_eq_none_iff.1 hword)
      rw [String.toList_ofList]
      exact ⟨⟨c, rfl, hc⟩, List.forall_mem_cons.2 ⟨hchar, htok⟩⟩
    rwa [String.toList_ofList] at hidentifier
  | some word =>
    have hkeyword := Lexeme.SpelledBy.keyword word
    rwa [Keyword.spelling_of_ofSpelling? hword, String.toList_ofList] at hkeyword

/-- Between the quotes stands one character, or an escape. -/
theorem exists_of_scanCharacterCode {text : List Char} {loc : Location} {code : Nat}
    {closing : Cursor}
    (h : scanCharacterCode ⟨text, loc⟩ = .ok (code, closing)) :
    ∃ inner, text = inner ++ closing.rest ∧
      closing.loc = loc.afterAll inner ∧
        (Lexeme.integer code).SpelledBy ('\x27' :: (inner ++ ['\x27'])) := by
  cases text with
  | nil => cases h
  | cons c text =>
    by_cases hc : c = '\\'
    · subst hc
      cases text with
      | nil => cases h
      | cons d text =>
        simp only [scanCharacterCode, Cursor.next?] at h
        split at h
        · next hescape =>
          cases h
          exact ⟨['\\', d], rfl, rfl, .escape hescape⟩
        · cases h
    · simp only [scanCharacterCode, Cursor.next?] at h
      cases h
      exact ⟨[c], rfl, rfl, .character hc⟩

/-- What is read as a character is one between quotes. -/
theorem reads_of_scanCharacter {text : List Char} {loc : Location} {lexeme : Lexeme} {next : Cursor}
    (h : scanCharacter ⟨text, loc.after '\x27'⟩ = .ok (lexeme, next)) :
    ∃ tok, Reads lexeme ('\x27' :: text) loc next ('\x27' :: tok) := by
  obtain ⟨⟨code, closing⟩, hcode, hclosing⟩ := exists_of_bind_eq_ok h
  obtain ⟨inner, htext, hloc, hspelled⟩ := exists_of_scanCharacterCode hcode
  obtain ⟨rest, loc'⟩ := closing
  cases rest with
  | nil => cases hclosing
  | cons c rest =>
    dsimp only [Cursor.next?] at hclosing htext hloc
    split at hclosing
    · next after hafter =>
      cases hafter
      cases hclosing
      refine ⟨inner ++ ['\x27'], by simp [htext], ?_, hspelled, longest_of_quote⟩
      rw [Location.afterAll_cons, Location.afterAll_append, ← hloc]
      rfl
    · cases hclosing
    · cases hclosing

/-- What is read as a sign is the longest one. -/
theorem reads_of_longest? {text : List Char} {sign : Punct} (loc : Location)
    (h : Punct.longest? text = some sign) :
    Reads (.punct sign) text loc (Cursor.skip ⟨text, loc⟩ sign.chars.length) sign.chars := by
  obtain ⟨rest, rfl⟩ := Punct.prefix_of_longest? h
  rw [Cursor.skip, List.drop_left, List.take_left]
  refine ⟨rfl, rfl, .punct sign, longest_sign_iff.2 ?_⟩
  rintro d hd ⟨longer, hlonger⟩
  obtain ⟨tail, rfl⟩ := List.head?_eq_some_iff.1 hd
  have hbegins : longer.chars <+: sign.chars ++ d :: tail := by
    rw [hlonger, List.prefix_append_right_inj]
    exact ⟨tail, rfl⟩
  have hle := Punct.length_le_of_longest? h hbegins
  rw [hlonger, List.length_append, List.length_singleton] at hle
  omega

/-- Whatever is read is spelled as its lexeme, and is not empty. -/
theorem reads_of_scanLexeme {c : Char} {text : List Char} {loc : Location}
    {lexeme : Lexeme} {next : Cursor} (h : scanLexeme c ⟨c :: text, loc⟩ = .ok (lexeme, next)) :
    ∃ read, read ≠ [] ∧ Reads lexeme (c :: text) loc next read := by
  -- the first character decides: a quote, a digit, a letter, or a sign
  unfold scanLexeme at h
  split at h
  · next hquote =>
    subst hquote
    obtain ⟨tok, hreads⟩ := reads_of_scanCharacter h
    exact ⟨_, List.cons_ne_nil _ _, hreads⟩
  split at h
  · next hdigit =>
    obtain ⟨tok, hreads⟩ := reads_of_scanNumber hdigit h
    exact ⟨_, List.cons_ne_nil _ _, hreads⟩
  split at h
  · next hword =>
    cases h
    obtain ⟨tok, hreads⟩ := reads_scanWord text loc hword
    exact ⟨_, List.cons_ne_nil _ _, hreads⟩
  split at h
  · next sign hsign =>
    cases h
    exact ⟨_, sign.chars_ne_nil, reads_of_longest? loc hsign⟩
  · cases h

/-! ## What is spelled so is read -/

/-- An escape is read as the character that it stands for. -/
theorem scanCharacterCode_of_escape {c : Char} {code : Nat} (h : escapeCode? c = some code)
    (rest : List Char) (loc : Location) :
    scanCharacterCode ⟨'\\' :: c :: rest, loc⟩ = .ok (code, ⟨rest, loc.afterAll ['\\', c]⟩) := by
  simp only [scanCharacterCode, Cursor.next?, h]
  rfl

/-- Any other character stands for itself. -/
theorem scanCharacterCode_of_ne {c : Char} (h : c ≠ '\\') (rest : List Char) (loc : Location) :
    scanCharacterCode ⟨c :: rest, loc⟩ = .ok (c.toNat, ⟨rest, loc.after c⟩) := by
  simp only [scanCharacterCode, Cursor.next?]
  rfl

/-- A word is read as the lexeme that it spells. -/
theorem scanLexeme_of_word {lexeme : Lexeme} {name : String} (hname : IsWord name.toList)
    (hlexeme : (Keyword.ofSpelling? name).elim (.identifier name) .keyword = lexeme)
    {rest : List Char}
    (hlongest : Longest name.toList rest) (loc : Location) : ∃ c tok, name.toList = c :: tok ∧
      scanLexeme c ⟨c :: (tok ++ rest), loc⟩ = .ok (lexeme, ⟨rest, loc.afterAll name.toList⟩) := by
  obtain ⟨⟨c, hhead, hc⟩, hchars⟩ := hname
  obtain ⟨tok, htok⟩ := List.head?_eq_some_iff.1 hhead
  refine ⟨c, tok, htok, ?_⟩
  rw [htok] at hchars hlongest
  have hquote : c ≠ '\x27' := by
    rintro rfl
    cases hc
  have hdigit : ¬ c.isDigit = true := by
    intro hdigit
    rw [isWordStart_of_isDigit hdigit] at hc
    cases hc
  have hrest := (longest_word_iff hc fun d hd => hchars d (List.mem_cons_of_mem c hd)).1 hlongest
  rw [scanLexeme, if_neg hquote, if_neg hdigit, if_pos hc, scanWord, ← List.cons_append,
    span_append hchars hrest, ← htok]
  dsimp only
  rw [String.ofList_toList, hlexeme]
  rfl

/-- Keywords are spelled like names. -/
theorem Keyword.isWord_spelling (word : Keyword) : IsWord word.spelling.toList := by
  refine ⟨?_, ?_⟩
  · cases word <;> exact ⟨_, rfl, by decide⟩
  · exact List.all_eq_true.1 (by cases word <;> decide)

/-- A numeral within range is read as its number. -/
theorem scanLexeme_of_numeral {digits rest : List Char} (hnumeral : IsNumeral digits)
    (hbound : numeralValue digits < 2 ^ 31) (hlongest : Longest digits rest) (loc : Location) :
    ∃ c tok, digits = c :: tok ∧ scanLexeme c ⟨c :: (tok ++ rest), loc⟩ =
      .ok (.integer (numeralValue digits), ⟨rest, loc.afterAll digits⟩) := by
  obtain ⟨c, tok, rfl⟩ := List.exists_cons_of_ne_nil hnumeral.1
  have hc : c.isDigit = true := hnumeral.2 c List.mem_cons_self
  have htok : ∀ d ∈ tok, d.isDigit = true := fun d hd => hnumeral.2 d (List.mem_cons_of_mem c hd)
  have hquote : c ≠ '\x27' := by
    rintro rfl
    cases hc
  refine ⟨c, tok, rfl, ?_⟩
  rw [scanLexeme, if_neg hquote, if_pos hc, scanNumber, ← List.cons_append,
    span_append hnumeral.2 ((longest_numeral_iff hc htok).1 hlongest)]
  dsimp only
  rw [decimalValue_eq]
  exact if_pos hbound

/-- A sign is read as itself. -/
theorem scanLexeme_of_sign (sign : Punct) {rest : List Char} (hlongest : Longest sign.chars rest)
    (loc : Location) :
    ∃ c tok, sign.chars = c :: tok ∧ scanLexeme c ⟨c :: (tok ++ rest), loc⟩ =
      .ok (.punct sign, ⟨rest, loc.afterAll sign.chars⟩) := by
  obtain ⟨c, tok, hchars⟩ := List.exists_cons_of_ne_nil sign.chars_ne_nil
  obtain ⟨hquote, hdigit, hstart⟩ := sign.head_chars c (hchars ▸ rfl)
  have hsign : Punct.longest? (c :: (tok ++ rest)) = some sign := by
    rw [← List.cons_append, ← hchars]
    exact Punct.longest?_append (longest_sign_iff.1 hlongest)
  refine ⟨c, tok, hchars, ?_⟩
  rw [scanLexeme, if_neg hquote, if_neg (Bool.eq_false_iff.1 hdigit),
    if_neg (Bool.eq_false_iff.1 hstart), hsign]
  simp only [Cursor.skip, ← List.cons_append, ← hchars, List.drop_left, List.take_left]
  rfl

/-- What spells a lexeme is read as it, if it could not be longer. -/
theorem scanLexeme_of_spelledBy {lexeme : Lexeme} {read rest : List Char}
    (hspelled : lexeme.SpelledBy read)
    (hlongest : Longest read rest) (loc : Location) : ∃ c tok, read = c :: tok ∧
      scanLexeme c ⟨c :: (tok ++ rest), loc⟩ = .ok (lexeme, ⟨rest, loc.afterAll read⟩) := by
  cases hspelled with
  | numeral hnumeral hbound => exact scanLexeme_of_numeral hnumeral hbound hlongest loc
  | @character c hc =>
    refine ⟨_, _, rfl, ?_⟩
    rw [scanLexeme, if_pos rfl]
    change scanCharacter ⟨c :: '\x27' :: rest, loc.after '\x27'⟩ = _
    rw [scanCharacter, scanCharacterCode_of_ne hc]
    rfl
  | @escape c code hescape =>
    refine ⟨_, _, rfl, ?_⟩
    rw [scanLexeme, if_pos rfl]
    change scanCharacter ⟨'\\' :: c :: '\x27' :: rest, loc.after '\x27'⟩ = _
    rw [scanCharacter, scanCharacterCode_of_escape hescape]
    rfl
  | keyword word =>
    refine scanLexeme_of_word word.isWord_spelling ?_ hlongest loc
    rw [Keyword.ofSpelling?_spelling]
    rfl
  | identifier hname hkeyword =>
    refine scanLexeme_of_word hname ?_ hlongest loc
    rw [Keyword.ofSpelling?_eq_none_iff.2 hkeyword]
    rfl
  | punct sign => exact scanLexeme_of_sign sign hlongest loc

/-! ## Skipped text -/

/-- A line comment and a directive begin in one of these ways and go on to the end of the line. -/
def OpensLine (opening : List Char) : Prop := opening = ['/', '/'] ∨ opening = ['#']

/-- What may stand between tokens: blanks, line comments, directives and block comments that are
closed. Where the whole text ends, a line comment or a directive may end with it. -/
inductive Interlude (atEnd : Prop) : List Char → Prop
  | nil : Interlude atEnd []
  | blank {c : Char} {gap : List Char} :
    isBlank c = true → Interlude atEnd gap → Interlude atEnd (c :: gap)
  | line {opening body gap : List Char} : OpensLine opening → '\n' ∉ body → Interlude atEnd gap →
      Interlude atEnd (opening ++ (body ++ '\n' :: gap))
  | block {body gap : List Char} : ¬ ['*', '/'] <:+: body → Interlude atEnd gap →
      Interlude atEnd ('/' :: '*' :: (body ++ '*' :: '/' :: gap))
  | lastLine {opening body : List Char} : atEnd → OpensLine opening → '\n' ∉ body →
      Interlude atEnd (opening ++ body)

/-- What is left of skipped text when reading begins inside a gap of the given kind. -/
def Gap.Completes (atEnd : Prop) : Gap → List Char → Prop
  | .blank, text => Interlude atEnd text
  | .line, text => (∃ body gap, text = body ++ '\n' :: gap ∧ '\n' ∉ body ∧ Interlude atEnd gap) ∨
      atEnd ∧ '\n' ∉ text
  | .block _, text =>
    ∃ body gap, text = body ++ '*' :: '/' :: gap ∧ ¬ ['*', '/'] <:+: body ∧ Interlude atEnd gap

/-- The rest of a line completes what its opening began. -/
theorem Gap.Completes.interlude {atEnd : Prop} {opening text : List Char}
    (hopening : OpensLine opening)
    (h : Gap.line.Completes atEnd text) : Interlude atEnd (opening ++ text) := by
  rcases h with ⟨body, gap, rfl, hbody, hgap⟩ | ⟨hend, hbody⟩
  · exact .line hopening hbody hgap
  · exact .lastLine hend hopening hbody

/-- What is skipped is an interlude, or the rest of one. -/
theorem completes_of_skipGap {gap : Gap} {text : List Char} {loc : Location} {cur : Cursor}
    (h : skipGap gap text loc = .ok cur) :
    ∃ skipped, text = skipped ++ cur.rest ∧ cur.loc = loc.afterAll skipped ∧
      gap.Completes (cur.rest = []) skipped := by
  -- the cases are those of the function: the text ends, a gap goes on, or a gap may begin
  fun_induction skipGap gap text loc with
  | case1 => cases h
  | case2 gap loc hgap =>
    cases h
    refine ⟨[], rfl, rfl, ?_⟩
    cases gap with
    | blank => exact .nil
    | line => exact .inr ⟨rfl, List.not_mem_nil⟩
    | block opened => exact absurd rfl (hgap opened)
  | case3 c text loc ih =>
    -- in a line comment or a directive, which a line feed ends
    obtain ⟨skipped, rfl, hloc, hskipped⟩ := ih h
    refine ⟨c :: skipped, rfl, hloc, ?_⟩
    split at hskipped
    · next hc => exact .inl ⟨[], skipped, by rw [hc]; rfl, List.not_mem_nil, hskipped⟩
    · next hc =>
      rcases hskipped with ⟨body, gap, rfl, hbody, hgap⟩ | ⟨hend, hbody⟩
      · exact .inl ⟨c :: body, gap, rfl,
          List.not_mem_cons_of_ne_of_not_mem (Ne.symm hc) hbody, hgap⟩
      · exact .inr ⟨hend, List.not_mem_cons_of_ne_of_not_mem (Ne.symm hc) hbody⟩
  | case4 opened text loc ih =>
    -- at the end of a block comment
    obtain ⟨skipped, rfl, hloc, hskipped⟩ := ih h
    exact ⟨'*' :: '/' :: skipped, rfl, hloc, [], skipped, rfl, by simp, hskipped⟩
  | case5 opened c text loc hopen ih =>
    obtain ⟨skipped, rfl, hloc, body, gap, rfl, hbody, hgap⟩ := ih h
    refine ⟨c :: (body ++ '*' :: '/' :: gap), rfl, hloc, c :: body, gap, rfl, ?_, hgap⟩
    -- a closing sign at the first character would have ended the comment
    rw [List.infix_cons_iff, not_or]
    refine ⟨?_, hbody⟩
    rintro ⟨tail, htail⟩
    cases htail
    exact hopen (tail ++ '*' :: '/' :: gap ++ cur.rest) rfl rfl
  | case6 text loc ih =>
    -- a line comment begins
    obtain ⟨skipped, rfl, hloc, hskipped⟩ := ih h
    exact ⟨'/' :: '/' :: skipped, rfl, hloc, Gap.Completes.interlude (.inl rfl) hskipped⟩
  | case7 text loc ih =>
    -- a block comment begins
    obtain ⟨skipped, rfl, hloc, body, gap, rfl, hbody, hgap⟩ := ih h
    exact ⟨'/' :: '*' :: (body ++ '*' :: '/' :: gap), rfl, hloc, .block hbody hgap⟩
  | case8 text loc _ _ ih =>
    -- a directive begins
    obtain ⟨skipped, rfl, hloc, hskipped⟩ := ih h
    exact ⟨'#' :: skipped, rfl, hloc, Gap.Completes.interlude (.inr rfl) hskipped⟩
  | case9 c text loc _ _ _ hc ih =>
    obtain ⟨skipped, rfl, hloc, hskipped⟩ := ih h
    exact ⟨c :: skipped, rfl, hloc, .blank hc hskipped⟩
  | case10 =>
    cases h
    exact ⟨[], rfl, rfl, .nil⟩

/-- A comment goes on until its line ends. -/
theorem skipGap_line {body : List Char} (hbody : '\n' ∉ body) (rest : List Char) (loc : Location) :
    skipGap .line (body ++ rest) loc = skipGap .line rest (loc.afterAll body) := by
  induction body generalizing loc with
  | nil => rfl
  | cons c body ih =>
    rw [List.mem_cons, not_or] at hbody
    rw [List.cons_append, skipGap.eq_3, if_neg (Ne.symm hbody.1), ih hbody.2,
      Location.afterAll_cons]

/-- A block comment goes on until it is closed. -/
theorem skipGap_block {body : List Char} (hbody : ¬ ['*', '/'] <:+: body) (opened : Location)
    (rest : List Char) (loc : Location) : skipGap (.block opened) (body ++ '*' :: '/' :: rest) loc =
      skipGap .blank rest (loc.afterAll (body ++ ['*', '/'])) := by
  induction body generalizing loc with
  | nil => rfl
  | cons c body ih =>
    rw [List.infix_cons_iff, not_or] at hbody
    rw [List.cons_append, skipGap.eq_5, ih hbody.2]
    · rfl
    · -- no closing sign begins here, not even with the star of the one at the end
      rintro tail rfl htail
      cases body with
      | nil => cases htail
      | cons d body =>
        cases htail
        exact hbody.1 ⟨body, rfl⟩

theorem OpensLine.skipGap_append {opening : List Char} (h : OpensLine opening) (rest : List Char)
    (loc : Location) :
    skipGap .blank (opening ++ rest) loc = skipGap .line rest (loc.afterAll opening) := by
  rcases h with rfl | rfl
  · rfl
  · exact skipGap_number_sign rest loc

/-- What may stand between tokens is skipped as a whole. -/
theorem Interlude.skipGap_append {atEnd : Prop} {gap rest : List Char} (h : Interlude atEnd gap)
    (hrest : atEnd → rest = []) (loc : Location) :
    skipGap .blank (gap ++ rest) loc = skipGap .blank rest (loc.afterAll gap) := by
  induction h generalizing loc with
  | nil => rfl
  | blank hc _ ih => rw [List.cons_append, skipGap_isBlank hc, ih, Location.afterAll_cons]
  | line hopening hbody _ ih =>
    rw [List.append_assoc, hopening.skipGap_append, List.append_assoc,
      skipGap_line hbody, List.cons_append, skipGap.eq_3, if_pos rfl, ih, Location.afterAll_append,
      Location.afterAll_append, Location.afterAll_cons]
  | @block body gap hbody _ ih =>
    have hgap : '/' :: '*' :: (body ++ '*' :: '/' :: gap) ++ rest =
        '/' :: '*' :: (body ++ '*' :: '/' :: (gap ++ rest)) := by simp
    rw [hgap, skipGap.eq_7, skipGap_block hbody, ih]
    simp [Location.afterAll_append]
  | @lastLine opening body hend hopening hbody =>
    obtain rfl := hrest hend
    rw [List.append_nil, hopening.skipGap_append, ← List.append_nil body, skipGap_line hbody,
      List.append_nil, Location.afterAll_append]
    rfl

end MiniC
