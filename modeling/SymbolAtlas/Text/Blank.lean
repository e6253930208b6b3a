/-!
# Blanks and words

A blank is a character with the Unicode property White_Space. A word is a maximal run of
characters that are not blank.

* `isBlank`: the property, as a table of ranges.
* `words`: the words of a text, in order.
* `compact`: a text without its blanks.
-/

namespace SymbolAtlas.Text

/-- The character has the Unicode property White_Space. -/
def isBlank (c : Char) : Bool :=
  let n := c.toNat
  (0x09 ≤ n && n ≤ 0x0D) || n == 0x20 || n == 0x85 || n == 0xA0 || n == 0x1680 ||
    (0x2000 ≤ n && n ≤ 0x200A) || n == 0x2028 || n == 0x2029 || n == 0x202F || n == 0x205F ||
    n == 0x3000

/-- Add the word `run`, collected last character first, in front of `rest` unless it is empty. -/
def closeWord (run : List Char) (rest : List (List Char)) : List (List Char) :=
  if run.isEmpty then rest else run.reverse :: rest

/-- The words of a text whose first word starts with `run`, collected last character first. -/
def wordsFrom (run : List Char) : List Char → List (List Char)
  | [] => closeWord run []
  | c :: cs => if isBlank c then closeWord run (wordsFrom [] cs) else wordsFrom (c :: run) cs

/-- The maximal runs of characters that are not blank. -/
def words (s : String) : List String :=
  (wordsFrom [] s.toList).map String.ofList

/-- The text without its blanks. -/
def compact (s : String) : String :=
  String.ofList (s.toList.filter fun c => !isBlank c)

end SymbolAtlas.Text
