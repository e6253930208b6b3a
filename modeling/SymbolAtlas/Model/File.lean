/-!
# Files

A file is known by its path; its language is told from the path when the file is first seen. A
pair holds one source of an action and the target made from it; either may be missing.
-/

namespace SymbolAtlas

/-- A file of the workspace. -/
structure File where
  id : Int
  path : String
  language : Option String
  deriving DecidableEq, Repr, Inhabited

/-- A source with its target. -/
structure FilePair where
  source : Option File
  target : Option File
  deriving DecidableEq, Repr, Inhabited

namespace FilePair

/-- Pair the sources of an action with its targets: one to one if there are equally many, else
every source with the last target. -/
def pairUp (sources targets : List (Option File)) : List FilePair :=
  if sources.length = targets.length then sources.zipWith FilePair.mk targets
  else sources.map fun source => ⟨source, targets.getLast?.join⟩

end FilePair

end SymbolAtlas
