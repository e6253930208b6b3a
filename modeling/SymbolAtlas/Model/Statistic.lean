/-!
# Statistic rows

A counter of the last run, under a category and a key.
-/

namespace SymbolAtlas

/-- One counter. -/
structure Statistic where
  category : String
  key : String
  value : Int
  deriving DecidableEq, Repr, Inhabited

end SymbolAtlas
