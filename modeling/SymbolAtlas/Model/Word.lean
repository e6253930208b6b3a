import SymbolAtlas.Text.LetterCase

/-!
# Worded types

The finite types of the model are written as lower-case words, in texts, in documents and in the
store. A type gives the list of its values and the word of each; reading is then the same for all
of them: `ofWord?` takes exactly the words, `parse?` takes them in any letter case.
-/

namespace SymbolAtlas

/-- A finite type whose values are written as words. -/
class Worded (α : Type) where
  /-- every value, once -/
  all : List α
  /-- the word of a value -/
  word : α → String

namespace Worded

variable {α : Type} [Worded α]

/-- The value with exactly the given word. -/
def ofWord? (s : String) : Option α := (all : List α).find? fun a => word a == s

/-- The value with the given word in any letter case. -/
def parse? (s : String) : Option α := ofWord? (Text.lower s)

end Worded

end SymbolAtlas
