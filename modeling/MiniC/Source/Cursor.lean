import MiniC.Source.Location

/-!
# Reading positions

A `Cursor` is the part of a source text that is still to be read together with the place of its
first character. Every operation reads whole characters from the front and moves the place along.
-/

set_option autoImplicit false

namespace MiniC

/-- The unread rest of a source text and the place where it begins. -/
structure Cursor where
  rest : List Char
  loc : Location

namespace Cursor

/-- The cursor at the beginning of a text. -/
def ofString (text : String) : Cursor := ⟨text.toList, .start⟩

/-- The next character, if one is left, and the cursor after it. -/
def next? (cur : Cursor) : Option (Char × Cursor) :=
  match cur.rest with
  | [] => none
  | c :: rest => some (c, ⟨rest, cur.loc.after c⟩)

/-- The cursor after `n` more characters. -/
def skip (cur : Cursor) (n : Nat) : Cursor :=
  ⟨cur.rest.drop n, cur.loc.afterAll (cur.rest.take n)⟩

/-- The longest run of characters that satisfy `p`, and the cursor after it. -/
def span (cur : Cursor) (p : Char → Bool) : List Char × Cursor :=
  let run := cur.rest.takeWhile p
  (run, ⟨cur.rest.dropWhile p, cur.loc.afterAll run⟩)

theorem span_append (cur : Cursor) (p : Char → Bool) :
    (cur.span p).1 ++ (cur.span p).2.rest = cur.rest := by
  simp [span]

end Cursor

end MiniC
