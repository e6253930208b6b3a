import SymbolAtlas.Model.Word

/-!
# Parse outcomes

Outcomes are ordered from best to worst; several of them together are as good as the worst.
-/

namespace SymbolAtlas

/-- What came of a parse. -/
inductive Outcome where
  | success
  | deferred
  | fail
  deriving DecidableEq, Repr, Inhabited

namespace Outcome

instance : Worded Outcome where
  all := [.success, .deferred, .fail]
  word
    | .success => "success"
    | .deferred => "deferred"
    | .fail => "fail"

/-- The rank of an outcome: the higher, the worse. -/
def badness : Outcome → Nat
  | .success => 0
  | .deferred => 1
  | .fail => 2

/-- The worse of two outcomes. -/
def worst (a b : Outcome) : Outcome := if a.badness < b.badness then b else a

/-- The worst of several outcomes; of none, success. -/
def worstOf (outcomes : List Outcome) : Outcome := outcomes.foldl worst .success

end Outcome

end SymbolAtlas
