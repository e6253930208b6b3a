/-!
# Patterns with wildcards

In a pattern `%` stands for any text and `_` for any one character; every other character stands
for itself. There is no way to write a wildcard as itself.
-/

namespace SymbolAtlas.Text

/-- The list and all it becomes by dropping characters from its start, longest first. -/
def suffixes : List Char → List (List Char)
  | [] => [[]]
  | c :: rest => (c :: rest) :: suffixes rest

/-- The text matches the pattern as a whole. -/
def matchesPattern : (pattern text : List Char) → Bool
  | [], text => text.isEmpty
  | p :: pattern, text =>
    if p = '%' then (suffixes text).any (matchesPattern pattern)
    else
      match text with
      | [] => false
      | c :: rest => (p = '_' || p = c) && matchesPattern pattern rest

/-- The text matches the pattern as a whole. -/
def like (text pattern : String) : Bool := matchesPattern pattern.toList text.toList

end SymbolAtlas.Text
