import SymbolAtlas.Ascending
import SymbolAtlas.Model.Outcome
import SymbolAtlas.Model.Statistic

/-!
# Counting outcomes

Outcomes are counted by their kind, and those with a known language also by language. Actions with
both successes and failures are counted as partial.
-/

namespace SymbolAtlas

/-- How often one outcome was seen. -/
structure OutcomeCount where
  total : Nat := 0
  /-- the counts of the known languages -/
  languages : List (String × Nat) := []
  deriving DecidableEq, Repr, Inhabited

/-- Count one more. -/
def OutcomeCount.add (language : Option String) (count : OutcomeCount) : OutcomeCount :=
  { total := count.total + 1
    languages := match language with
      | some language => Ascending.adjust language 0 (· + 1) count.languages
      | none => count.languages }

/-- The counts of a run. -/
structure Tally where
  succeeded : OutcomeCount := {}
  deferred : OutcomeCount := {}
  failed : OutcomeCount := {}
  /-- the number of actions with both successes and failures -/
  partials : Nat := 0
  deriving DecidableEq, Repr, Inhabited

namespace Tally

/-- The count of an outcome. -/
def count (tally : Tally) : Outcome → OutcomeCount
  | .success => tally.succeeded
  | .deferred => tally.deferred
  | .fail => tally.failed

/-- Count an outcome. -/
def record (language : Option String) (outcome : Outcome) (tally : Tally) : Tally :=
  match outcome with
  | .success => { tally with succeeded := tally.succeeded.add language }
  | .deferred => { tally with deferred := tally.deferred.add language }
  | .fail => { tally with failed := tally.failed.add language }

/-- Count an action with both successes and failures. -/
def recordPartial (tally : Tally) : Tally := { tally with partials := tally.partials + 1 }

/-- The counters of the languages for an outcome. -/
def languageRows (tally : Tally) (outcome : Outcome) : List Statistic :=
  (tally.count outcome).languages.map fun (language, n) =>
    ⟨"parse." ++ Worded.word outcome, language, n⟩

/-- The counters of a run: the totals, then the languages from the best outcome to the worst. -/
def rows (tally : Tally) : List Statistic :=
  [⟨"parse", "succeeded", tally.succeeded.total⟩,
   ⟨"parse", "failed", tally.failed.total⟩,
   ⟨"parse", "deferred", tally.deferred.total⟩,
   ⟨"parse", "partial", tally.partials⟩] ++
    (Worded.all : List Outcome).flatMap tally.languageRows

end Tally

end SymbolAtlas
