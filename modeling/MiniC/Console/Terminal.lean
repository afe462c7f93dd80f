import MiniC.Console.Basic
import MiniC.Console.Text

/-!
# The textual console

A terminal reads integers from lines of text and writes one integer per line. It asks for input
whenever no word of the current line is left, and skips lines without words. A word that is no
integer, and a line that is no text, count as the end of the input and are mentioned among the
messages.
-/

set_option autoImplicit false

namespace MiniC

/-- The lines still to be read, where nothing stands for a line that is no text; the words left of
the current line; what was written; and the messages. -/
structure Terminal where
  lines : List (Option (List Char))
  words : List (List Char)
  written : String
  messages : String

namespace Terminal

/-- The lines of some bytes. A text is split into lines; bytes that are no text are split first, and
each line is text or not by itself. -/
def linesOfBytes (bytes : ByteArray) : List (Option (List Char)) :=
  match String.fromUTF8? bytes with
  | some text => (Text.pieces (· = '\n') text.toList).map some
  | none =>
    (Text.pieces (· = (10 : UInt8)) bytes.toList).map fun line =>
      (String.fromUTF8? ⟨line.toArray⟩).map String.toList

/-- A terminal whose input is given as bytes. -/
def ofBytes (bytes : ByteArray) : Terminal := ⟨linesOfBytes bytes, [], "", ""⟩

/-- What is written when input is asked for. -/
def prompt : String := "please input an integer value: "

/-- Adds a warning to the messages. -/
def warn (terminal : Terminal) (text : String) : Terminal :=
  { terminal with messages := terminal.messages ++ s!"  WARN {text}\n" }

/-- Takes the first word of the first line that has one. -/
def nextWord (terminal : Terminal) : List (Option (List Char)) → Option (List Char) × Terminal
  | [] => (none, { terminal with lines := [], words := [] })
  | none :: lines =>
    (none, warn { terminal with lines, words := [] }
      "failed to read standard input err=stream did not contain valid UTF-8")
  | some line :: lines =>
    match Text.words line with
    | word :: words => (some word, { terminal with lines, words })
    | [] => terminal.nextWord lines

/-- Takes the next word, from the current line or, after asking, from the lines after it. -/
def takeWord (terminal : Terminal) : Option (List Char) × Terminal :=
  match terminal.words with
  | word :: words => (some word, { terminal with words })
  | [] => nextWord { terminal with messages := terminal.messages ++ prompt } terminal.lines

/-- Takes the next word if it is an integer; any other word is mentioned. -/
def readInt (terminal : Terminal) : Option Int32 × Terminal :=
  match terminal.takeWord with
  | (none, terminal) => (none, terminal)
  | (some word, terminal) =>
    match Text.int32? word with
    | some value => (some value, terminal)
    | none => (none, terminal.warn s!"input is not an integer token={String.ofList word}")

instance : Console Terminal where
  readInt := readInt
  writeInt value terminal := { terminal with written := terminal.written ++ s!"{value}\n" }
  notify d terminal :=
    terminal.warn s!"{d.construct.message} line={d.loc.line} column={d.loc.column}"

end Terminal

end MiniC
