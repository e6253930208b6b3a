import SymbolAtlas.Dispatch.Tally
import SymbolAtlas.Outcome.Handle

/-!
# Units of work and their collector

A dispatched action is a unit of work that waits for the results of its parses. The collector holds
the units until all of their results are there.

* `Unfinished`: an action with the results it waits for, and how many succeeded or failed so far.
* `Unfinished.poll`: take the results that are there.
* `Unfinished.takeNext`, `Unfinished.drain`: wait for the first result, and for all.
* `Collector`: the units that were handed over, those that are being polled, and the actions that
  are in flight.
-/

namespace SymbolAtlas

/-- A result that may not be there yet. -/
structure PendingResult where
  handle : Handle
  /-- the language of the source -/
  language : Option String
  deriving Repr

/-- An outcome with the language of its source. -/
abbrev Resolved := Option String × Outcome

/-- An action with the results it waits for. -/
structure Unfinished where
  action : Int
  results : List PendingResult
  succeeded : Nat := 0
  failed : Nat := 0
  deriving Repr

namespace Unfinished

/-- No result is missing. -/
def isComplete (work : Unfinished) : Bool := work.results.isEmpty

/-- Some results succeeded and some failed. -/
def isPartial (work : Unfinished) : Bool := 0 < work.succeeded && 0 < work.failed

/-- Count an outcome. -/
def note (work : Unfinished) (outcome : Outcome) : Unfinished :=
  match outcome with
  | .success => { work with succeeded := work.succeeded + 1 }
  | .fail => { work with failed := work.failed + 1 }
  | .deferred => work

/-- The outcome that a result counts as: an error is a failure. -/
def countedAs : Except HandleError Outcome → Outcome
  | .ok outcome => outcome
  | .error _ => .fail

/-- Ask every result once: those that are not there, and those that are. -/
def askAll (channels : Channels) : List PendingResult → List PendingResult × List Resolved
  | [] => ([], [])
  | result :: rest =>
    let (waiting, resolved) := askAll channels rest
    match result.handle.poll channels with
    | (handle, .pending) => ({ result with handle } :: waiting, resolved)
    | (_, .done outcome) => (waiting, (result.language, countedAs outcome) :: resolved)

/-- Take the results that are there. -/
def poll (channels : Channels) (work : Unfinished) : Unfinished × List Resolved :=
  let (waiting, resolved) := askAll channels work.results
  ((resolved.map Prod.snd).foldl note { work with results := waiting }, resolved)

/-- Wait for the first result; none if there is no result left, or as long as that blocks. -/
def takeNext (channels : Channels) (work : Unfinished) : Option (Resolved × Unfinished) :=
  match work.results with
  | [] => none
  | result :: rest =>
    (result.handle.wait channels).map fun found =>
      ((result.language, countedAs found), { work with results := rest }.note (countedAs found))

/-- Wait for all results; none as long as that blocks. -/
def drain (channels : Channels) (work : Unfinished) : Option (Unfinished × List Resolved) := do
  let resolved ← work.results.mapM fun result =>
    (result.handle.wait channels).map fun found => (result.language, countedAs found)
  return ((resolved.map Prod.snd).foldl note { work with results := [] }, resolved)

end Unfinished

/-- Count outcomes. -/
def Tally.recordAll (resolved : List Resolved) (tally : Tally) : Tally :=
  resolved.foldl (fun tally (language, outcome) => tally.record language outcome) tally

/-- What a collector is doing. A collector starts at most once. -/
inductive CollectorPhase where
  /-- it takes units and does not look at them yet -/
  | fresh
  | running
  /-- it waits for the units that it has taken up -/
  | stopping
  /-- it takes no units any more -/
  | stopped
  deriving DecidableEq, Repr, Inhabited

/-- The units that are not finished. -/
structure Collector where
  phase : CollectorPhase := .fresh
  /-- units that were handed over -/
  queued : List Unfinished := []
  /-- units that are being polled -/
  working : List Unfinished := []
  /-- the actions with a unit that was handed over and not released -/
  inFlight : List Int := []
  deriving Repr, Inhabited

namespace Collector

/-- The action has a unit that is not finished. -/
def isPending (collector : Collector) (action : Int) : Bool := collector.inFlight.contains action

/-- Hand over a unit; a collector that is stopped drops it. -/
def queue (work : Unfinished) (collector : Collector) : Collector :=
  match collector.phase with
  | .stopped => { collector with inFlight := collector.inFlight.filter (· ≠ work.action) }
  | .fresh | .running | .stopping =>
    { collector with
      queued := collector.queued ++ [work]
      inFlight := Ascending.insert work.action collector.inFlight }

/-- Take up the units that were handed over. -/
def receive (collector : Collector) : Collector :=
  { collector with queued := [], working := collector.working ++ collector.queued }

/-- The number of steps that it takes to wait for the units that were taken up: one for every
result, one for every unit, and a last one. -/
def stepsLeft (collector : Collector) : Nat :=
  (collector.working.flatMap Unfinished.results).length + collector.working.length + 1

/-- An action is not in flight any more. -/
def release (action : Int) (collector : Collector) : Collector :=
  { collector with inFlight := collector.inFlight.filter (· ≠ action) }

end Collector

end SymbolAtlas
