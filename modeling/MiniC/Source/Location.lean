/-!
# Places in a source text

A `Location` is a line and a column, both counted from one; a column counts characters.
`Location.after` says how reading one character moves the place, so the place of every token is
determined by the characters before it (`Location.afterAll`).
-/

set_option autoImplicit false

namespace MiniC

/-- A line and a column of a source text. -/
structure Location where
  line : Nat
  column : Nat
  deriving DecidableEq, Inhabited

namespace Location

/-- The place of the first character of a text. -/
def start : Location := ⟨1, 1⟩

/-- The place that stands for no place in any text. -/
def nowhere : Location := ⟨0, 0⟩

/-- The place after a character: a line feed opens a new line, any other character is one column
wide. -/
def after (loc : Location) (c : Char) : Location :=
  if c = '\n' then ⟨loc.line + 1, 1⟩ else ⟨loc.line, loc.column + 1⟩

/-- The place after a piece of text. -/
def afterAll (loc : Location) (cs : List Char) : Location :=
  cs.foldl after loc

@[simp] theorem afterAll_nil (loc : Location) : loc.afterAll [] = loc := rfl

@[simp] theorem afterAll_cons (loc : Location) (c : Char) (cs : List Char) :
    loc.afterAll (c :: cs) = (loc.after c).afterAll cs := rfl

theorem afterAll_append (loc : Location) (cs ds : List Char) :
    loc.afterAll (cs ++ ds) = (loc.afterAll cs).afterAll ds := by
  simp [afterAll]

instance : ToString Location where
  toString loc := s!"{loc.line}:{loc.column}"

end Location

end MiniC
