import MiniC.Command.Basic
import MiniC.Proofs.ConsoleRuns

/-!
# The terminal and the script

A run at a terminal does what a run with a script does (`Image.terminal_agrees_with_script`): the
script holds the integers at the beginning of the input, however its words are spread over lines.
The words that a terminal has not taken yet (`Terminal.Holds`) are those left of the current line
and those of the lines after it.
-/

set_option autoImplicit false

namespace MiniC

namespace Text

/-! ## Words on lines -/

/-- The values of the longest sequence of words, from the first one on, that are all integers. -/
def leadingIntegers (words : List (List Char)) : List Int32 :=
  (words.takeWhile fun word => (int32? word).isSome).filterMap int32?

/-- Integers in decimal, each on a line of its own. -/
def onLines (values : List Int32) : String := .join (values.map fun value => s!"{value}\n")

theorem leadingIntegers_cons_of_some {word : List Char} {value : Int32}
    (h : int32? word = some value)
    (words : List (List Char)) : leadingIntegers (word :: words) =
      value :: leadingIntegers words := by
  simp [leadingIntegers, h]

/-- After a word that is no integer none counts. -/
theorem leadingIntegers_cons_of_none {word : List Char} (h : int32? word = none)
    (words : List (List Char)) :
    leadingIntegers (word :: words) = [] := by
  simp [leadingIntegers, h]

/-- One more value is one more line. -/
theorem onLines_append_singleton (values : List Int32) (value : Int32) :
    onLines (values ++ [value]) = onLines values ++ s!"{value}\n" := by
  simp [onLines]

theorem pieces_ne_nil {α : Type} (isSeparator : α → Bool) (as : List α) :
    pieces isSeparator as ≠ [] := by
  cases as with
  | nil => exact List.cons_ne_nil _ _
  | cons a as =>
    rw [pieces]
    split
    · exact List.cons_ne_nil _ _
    · split <;> exact List.cons_ne_nil _ _

/-- Where some of the separators cut first, the others cut the pieces, which are the same in the
end. -/
theorem flatMap_pieces {α : Type} {coarse fine : α → Bool}
    (h : ∀ a, coarse a = true → fine a = true)
    (as : List α) : (pieces coarse as).flatMap (pieces fine) = pieces fine as := by
  induction as with
  | nil => rfl
  | cons a as ih =>
    by_cases hcoarse : coarse a = true
    · -- the element separates two lines, so it separates two pieces
      simp [pieces, hcoarse, h a hcoarse, ih]
    · obtain ⟨first, others, hpieces⟩ := List.exists_cons_of_ne_nil (pieces_ne_nil coarse as)
      rw [hpieces, List.flatMap_cons] at ih
      rw [pieces, if_neg hcoarse, hpieces]
      by_cases hfine : fine a = true
      · simp [pieces, hfine, ih]
      · -- the element begins the first piece of the first line, which is the first piece of all
        obtain ⟨start, rest, hstart⟩ := List.exists_cons_of_ne_nil (pieces_ne_nil fine first)
        rw [hstart] at ih
        simp [pieces, hfine, hstart, ← ih]

/-- The words of a text are those of its lines. -/
theorem flatMap_words_lines (text : List Char) :
    (pieces (· = '\n') text).flatMap words = words text := by
  have hlines : ∀ c : Char, decide (c = '\n') = true → isSpace c = true := by
    intro c hc
    obtain rfl := of_decide_eq_true hc
    decide
  have hwords := congrArg (List.filter fun word => !word.isEmpty) (flatMap_pieces hlines text)
  rwa [List.filter_flatMap] at hwords

end Text

namespace Terminal

/-! ## The words that are left -/

/-- The words that are still to be taken, where the input is a text. -/
def Holds (terminal : Terminal) (words : List (List Char)) : Prop :=
  ∃ lines : List (List Char), terminal.lines = lines.map some ∧
    terminal.words ++ lines.flatMap Text.words = words

/-- The next word was taken, if there was one, and what was written is the same. -/
def Took (written : String) : List (List Char) → Option (List Char) × Terminal → Prop
  | [], (word?, after) => word? = none ∧ after.written = written
  | word :: words, (word?, after) => word? = some word ∧ after.Holds words ∧ after.written = written

/-- The next word is taken from the first line that has one. -/
theorem took_nextWord (terminal : Terminal) (lines : List (List Char)) :
    Took terminal.written (lines.flatMap Text.words) (terminal.nextWord (lines.map some)) := by
  induction lines with
  | nil => exact ⟨rfl, rfl⟩
  | cons line lines ih =>
    rw [List.map_cons, nextWord, List.flatMap_cons]
    cases hwords : Text.words line with
    | nil => exact ih
    | cons word words => exact ⟨rfl, ⟨lines, rfl, rfl⟩, rfl⟩

/-- Words that are pending are taken first. -/
theorem Holds.took_takeWord {terminal : Terminal} {words : List (List Char)}
    (h : terminal.Holds words) :
    Took terminal.written words terminal.takeWord := by
  obtain ⟨lines, hlines, rfl⟩ := h
  rw [takeWord]
  cases hwords : terminal.words with
  | cons word words => exact ⟨rfl, ⟨lines, hlines, rfl⟩, rfl⟩
  | nil =>
    rw [hlines]
    exact took_nextWord _ lines

/-- At first a terminal holds all words of the text. -/
theorem holds_ofBytes (text : String) : (ofBytes text.toUTF8).Holds (Text.words text.toList) := by
  have htext : String.fromUTF8? text.toUTF8 = some text := by
    rw [String.fromUTF8?, String.toUTF8_eq_toByteArray, dif_pos text.isValidUTF8]
    rfl
  refine ⟨Text.pieces (· = '\n') text.toList, ?_, Text.flatMap_words_lines _⟩
  rw [ofBytes, linesOfBytes, htext]

/-- Where no word is left, no integer is read. -/
theorem readInt_of_none {terminal after : Terminal} (h : terminal.takeWord = (none, after)) :
    terminal.readInt = (none, after) := by
  rw [readInt, h]

/-- A word that is an integer is read as its value. -/
theorem readInt_of_integer {terminal after : Terminal} {word : List Char} {value : Int32}
    (h : terminal.takeWord = (some word, after)) (hword : Text.int32? word = some value) :
    terminal.readInt = (some value, after) := by
  rw [readInt, h]
  simp only [hword]

/-- Any other word is reported. -/
theorem readInt_of_other {terminal after : Terminal} {word : List Char}
    (h : terminal.takeWord = (some word, after)) (hword : Text.int32? word = none) :
    terminal.readInt =
      (none, after.warn s!"input is not an integer token={String.ofList word}") := by
  rw [readInt, h]
  simp only [hword]

/-! ## A terminal beside a script -/

/-- The script holds the integers that the terminal is about to read, and has put out what the
terminal wrote. -/
structure Follows (terminal : Terminal) (script : Scripted) : Prop where
  input : ∃ words, terminal.Holds words ∧ script.input = Text.leadingIntegers words
  output : terminal.written = Text.onLines script.output.toList

namespace Follows

variable {terminal : Terminal} {script : Scripted} (h : terminal.Follows script)
include h

/-- An integer that is read is the next one of the script; where there is none, the script is at its
end. -/
theorem readInt :
    (∃ value, (Console.readInt terminal).1 = some value ∧ (Console.readInt script).1 = some value ∧
      (Console.readInt terminal).2.Follows (Console.readInt script).2) ∨
    ((Console.readInt terminal).1 = none ∧ (Console.readInt script).1 = none ∧
      (Console.readInt terminal).2.written = terminal.written) := by
  -- the next word of the terminal is the first of those it holds
  obtain ⟨words, hholds, hinput⟩ := h.input
  have htook := hholds.took_takeWord
  change (∃ value, terminal.readInt.1 = some value ∧ script.input.head? = some value ∧
      terminal.readInt.2.Follows { script with input := script.input.tail }) ∨
    (terminal.readInt.1 = none ∧ script.input.head? = none ∧
      terminal.readInt.2.written = terminal.written)
  rw [hinput]
  cases htaken : terminal.takeWord with
  | mk word? after =>
    rw [htaken] at htook
    cases words with
    | nil =>
      obtain ⟨rfl, hwritten⟩ := htook
      rw [readInt_of_none htaken]
      exact .inr ⟨rfl, rfl, hwritten⟩
    | cons word words =>
      obtain ⟨rfl, hafter, hwritten⟩ := htook
      cases hvalue : Text.int32? word with
      | some value =>
        rw [readInt_of_integer htaken hvalue, Text.leadingIntegers_cons_of_some hvalue]
        exact .inl ⟨value, rfl, rfl, ⟨words, hafter, rfl⟩, hwritten.trans h.output⟩
      | none =>
        rw [readInt_of_other htaken hvalue, Text.leadingIntegers_cons_of_none hvalue]
        exact .inr ⟨rfl, rfl, hwritten⟩

/-- A value that is written by both is written alike. -/
theorem writeInt (value : Int32) :
    (Console.writeInt value terminal).Follows (Console.writeInt value script) where
  input := h.input
  output := by
    change terminal.written ++ s!"{value}\n" = Text.onLines (script.output.push value).toList
    rw [h.output, Array.toList_push, Text.onLines_append_singleton]

end Follows

/-- A terminal and the script that it follows; they are parted where no integer could be read. -/
def pairing : Console.Pairing Terminal Scripted where
  related := Follows
  parted terminal script := terminal.written = Text.onLines script.output.toList
  part h := h.output
  answer h := by
    rcases h.readInt with ⟨value, hread, hread', -⟩ | ⟨hread, hread', -⟩
    · rw [hread, hread']
    · rw [hread, hread']
  read h hsome := by
    rcases h.readInt with ⟨value, -, -, hfollows⟩ | ⟨hread, -, -⟩
    · exact hfollows
    · exact absurd hread hsome
  unread h hnone := by
    rcases h.readInt with ⟨value, hread, -, -⟩ | ⟨-, -, hwritten⟩
    · rw [hread] at hnone
      cases hnone
    · exact hwritten.trans h.output
  write value h := h.writeInt value
  notify _ h := ⟨h.input, h.output⟩

/-- At first the script holds the integers at the beginning of the text. -/
theorem follows_ofBytes (text : String) :
    (ofBytes text.toUTF8).Follows (.ofInput (Text.leadingIntegers (Text.words text.toList))) :=
  ⟨⟨_, holds_ofBytes text, rfl⟩, rfl⟩

end Terminal

/-! ## Runs -/

/-- Runs with consoles that are related end alike. -/
theorem Image.runFrom_paired {κ κ' : Type} [Console κ] [Console κ']
    {P : Console.Pairing κ κ'} (image : Image)
    (fuel : Nat) {s : State κ} {t : State κ'} (h : s.Paired P.related t) :
    (image.runFrom fuel t).1 = (image.runFrom fuel s).1 ∧
      (image.runFrom fuel s).2.Paired P.parted (image.runFrom fuel t).2 := by
  have hrun := Run.mirrors_run image fuel s t h
  unfold runFrom
  generalize Run.run image fuel s = r, Run.run image fuel t = r' at hrun
  cases hrun with
  | ok h => exact ⟨rfl, Run.parted_of_related h⟩
  | @error halt _ _ h => cases halt <;> exact ⟨rfl, h⟩

/-- The two consoles agree. With any text as its input, a run at a terminal has the same outcome as
a run with the integers at the beginning of the text as the script, and leaves everything but the
console the same; what it writes are the integers that the other run puts out, in order, one on each
line. This is also what the command writes. -/
theorem Image.terminal_agrees_with_script (p : Program) (config : Config) (text : String) :
    let image := load p config
    let terminal := State.initial image (Terminal.ofBytes text.toUTF8)
    let script :=
      State.initial image (Scripted.ofInput (Text.leadingIntegers (Text.words text.toList)))
    (∀ fuel, (image.runFrom fuel terminal).1 = (image.runFrom fuel script).1 ∧
      (image.runFrom fuel terminal).2.Paired (fun c c' => c.written = Text.onLines c'.output.toList)
        (image.runFrom fuel script).2) ∧
    (Answer.ofImage image text.toUTF8).output =
      Text.onLines (image.runFrom Run.ampleFuel script).2.console.output.toList := by
  intro image terminal script
  have hstart : terminal.Paired Terminal.pairing.related script :=
    ⟨rfl, rfl, rfl, rfl, Terminal.follows_ofBytes text⟩
  have hruns (fuel : Nat) := image.runFrom_paired fuel hstart
  refine ⟨fun fuel => ⟨(hruns fuel).1.symm, (hruns fuel).2⟩, ?_⟩
  have hwritten : (image.runFrom Run.ampleFuel terminal).2.console.written =
      Text.onLines (image.runFrom Run.ampleFuel script).2.console.output.toList :=
        (hruns Run.ampleFuel).2.console
  -- whatever the outcome, the command puts out what the terminal wrote
  have houtput (outcome : Outcome) (console : Terminal) :
      (Answer.ofRun outcome console).output = console.written := by
    cases outcome with
    | returned value =>
      dsimp only [Answer.ofRun]
      split <;> rfl
    | failed e => rfl
    | outOfFuel => rfl
  exact (houtput _ _).trans hwritten

end MiniC
