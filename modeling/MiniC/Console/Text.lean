/-!
# Integers in text

Input is a text whose lines hold words separated by white space; a word that is a decimal numeral
with an optional sign, in the range of 32 bits, is an integer.
-/

set_option autoImplicit false

namespace MiniC.Text

/-- The white space of the Unicode standard. -/
def isSpace (c : Char) : Bool :=
  let n := c.toNat
  (9 ≤ n && n ≤ 13) || n = 0x20 || n = 0x85 || n = 0xA0 || n = 0x1680 ||
    (0x2000 ≤ n && n ≤ 0x200A) || n = 0x2028 || n = 0x2029 || n = 0x202F || n = 0x205F || n = 0x3000

/-- The pieces of a list between the elements of a class, empty pieces included. -/
def pieces {α : Type} (isSeparator : α → Bool) : List α → List (List α)
  | [] => [[]]
  | a :: as =>
    if isSeparator a then [] :: pieces isSeparator as
    else match pieces isSeparator as with
      | first :: others => (a :: first) :: others
      | [] => [[a]]

/-- The words of a text. -/
def words (text : List Char) : List (List Char) :=
  (pieces isSpace text).filter fun word => !word.isEmpty

/-- The value of a nonempty sequence of decimal digits. -/
def nat? (digits : List Char) : Option Nat :=
  if !digits.isEmpty && digits.all Char.isDigit then
    some (digits.foldl (fun value d => 10 * value + (d.toNat - '0'.toNat)) 0)
  else none

/-- The value of a decimal numeral with an optional sign. -/
def int? : List Char → Option Int
  | '-' :: digits => (nat? digits).map fun n => -(n : Int)
  | '+' :: digits => (nat? digits).map Int.ofNat
  | digits => (nat? digits).map Int.ofNat

/-- The value of a numeral in the range of 32 bits. -/
def int32? (word : List Char) : Option Int32 :=
  (int? word).bind fun n =>
    if Int32.minValue.toInt ≤ n ∧ n ≤ Int32.maxValue.toInt then some (.ofInt n) else none

end MiniC.Text
