import SymbolAtlas.Dispatch.Collector
import SymbolAtlas.Dispatch.Indexer
import SymbolAtlas.Dispatch.Parser
import SymbolAtlas.Source.Reader
import SymbolAtlas.Store.Actions
import SymbolAtlas.Store.Database

/-!
# The workbench

Everything that a run of parsers works on, and what the collector does there.

* `Bench`: the database, the channels, the index jobs, the counts, the collector, the place of the
  scheduler and the record of calls to plugins.
* `Bench.finish`: what happens to a unit with all its results: its action is marked, and then it is
  released.
* `Bench.poll`, `Bench.process`, `Bench.stopStep`: the three ways in which units are finished.
* `Bench.runJobs`: index jobs run once no transaction is open.
-/

namespace SymbolAtlas

/-- What a run of parsers works on. -/
structure Bench where
  database : Database := .empty
  channels : Channels := []
  /-- the channels whose producer is outside, in the order in which they were made -/
  producers : List Nat := []
  /-- the index jobs that have not run -/
  jobs : List IndexJob := []
  indexer : Indexer := {}
  tally : Tally := {}
  collector : Collector := {}
  /-- the last action that the scheduler has looked at -/
  cursor : Option Int := none
  /-- the calls to plugins, in order -/
  calls : List Call := []
  /-- what the plugins remember -/
  memory : String := ""
  deriving Inhabited

/-- Work on a bench that may fail. -/
abbrev Work (α : Type) := ExceptT Fault (StateM Bench) α

namespace Work

variable {α : Type}

/-- Work on the database. -/
def onDatabase (work : Tx α) : Work α := fun bench =>
  let (result, database) := work.run.run bench.database
  (result, { bench with database })

/-- Do the work in a transaction. Only the tables are undone if it fails. -/
def transaction (work : Work α) : Work α := fun bench =>
  let (result, bench) := work.run.run { bench with database := bench.database.enter }
  (result, { bench with database := bench.database.leave result.isOk })

end Work

namespace Bench

/-- Add a channel. -/
def newChannel (state : Channel) (bench : Bench) : Nat × Bench :=
  (bench.channels.length, { bench with channels := bench.channels ++ [state] })

/-- All producers outside go away. -/
def dropProducers (bench : Bench) : Bench := { bench with channels := bench.channels.dropAll }

/-- The channel of a producer outside, if the producer is still there. -/
def producer? (bench : Bench) (number : Nat) : Option Nat :=
  bench.producers[number]?.filter fun id => bench.channels.state id = .waiting

/-- A producer outside sends an outcome. -/
def send? (number : Nat) (outcome : Outcome) (bench : Bench) : Option Bench :=
  (bench.producer? number).map fun id =>
    { bench with channels := bench.channels.send id outcome }

/-- A producer outside goes away. -/
def drop? (number : Nat) (bench : Bench) : Option Bench :=
  (bench.producer? number).map fun id => { bench with channels := bench.channels.drop id }

/-! ### Finishing units -/

/-- Mark an action parsed, if it is outstanding. -/
def mark (action : Int) (bench : Bench) : Bench :=
  { bench with
    database := ((Tx.transaction
      (Tx.writeOr (Store.setState action .parsed))).run.run bench.database).2 }

/-- An action is not in flight any more. -/
def release (action : Int) (bench : Bench) : Bench :=
  { bench with collector := bench.collector.release action }

/-- Finish a unit with all its results. -/
def finish (work : Unfinished) (bench : Bench) : Bench :=
  let tally := if work.isPartial then bench.tally.recordPartial else bench.tally
  (({ bench with tally }).mark work.action).release work.action

/-- Take the results of a unit that are there; it is finished if none is missing, and else is given
back. -/
def pollUnit (work : Unfinished) (bench : Bench) : Option Unfinished × Bench :=
  let (work, resolved) := work.poll bench.channels
  let bench := { bench with tally := bench.tally.recordAll resolved }
  if work.isComplete then (none, bench.finish work) else (some work, bench)

/-- Poll units: those that still wait. -/
def pollUnits : List Unfinished → Bench → List Unfinished × Bench
  | [], bench => ([], bench)
  | work :: rest, bench =>
    let (left, bench) := bench.pollUnit work
    let (waiting, bench) := pollUnits rest bench
    (left.toList ++ waiting, bench)

/-- One round of a running collector: take up what was handed over and poll it. -/
def poll (bench : Bench) : Bench :=
  let bench := { bench with collector := bench.collector.receive }
  let (waiting, bench) := pollUnits bench.collector.working bench
  { bench with collector := { bench.collector with working := waiting } }

/-- Wait for all results of a unit and finish it; none as long as that blocks. -/
def process (work : Unfinished) (bench : Bench) : Option Bench :=
  (work.drain bench.channels).map fun (work, resolved) =>
    ({ bench with tally := bench.tally.recordAll resolved }).finish work

/-- Start the collector. -/
def start (bench : Bench) : Except Fault Bench :=
  match bench.collector.phase with
  | .fresh => .ok { bench with collector := { bench.collector with phase := .running } }
  | .running | .stopping | .stopped => .error .collectorStarted

/-- The collector begins to stop: it takes up what was handed over. -/
def beginStop (bench : Bench) : Bench :=
  { bench with collector := { bench.collector.receive with phase := .stopping } }

/-- A step of a collector that stops. It waits for the next result of its first unit, finishes the
unit if no result is left, and is done if no unit is left. None if it does not stop, or as long as
the step blocks. -/
def stopStep (bench : Bench) : Option Bench :=
  match bench.collector.phase, bench.collector.working with
  | .stopping, work :: rest =>
    if work.isComplete then
      some (({ bench with collector := { bench.collector with working := rest } }).finish work)
    else
      (work.takeNext bench.channels).map fun ((language, outcome), work) =>
        { bench with
          tally := bench.tally.record language outcome
          collector := { bench.collector with working := work :: rest } }
  | .stopping, [] =>
    some { bench with collector := { bench.collector with phase := .stopped, queued := [] } }
  | .fresh, _ | .running, _ | .stopped, _ => none

/-- At most so many steps of a collector that stops. -/
def stopWithin : Nat → Bench → Bench
  | 0, bench => bench
  | n + 1, bench =>
    match bench.stopStep with
    | some bench => stopWithin n bench
    | none => bench

/-- Stop the collector, as far as that is possible without a producer that does something. If no
result is missing, every unit is finished. -/
def stop (bench : Bench) : Bench :=
  let bench := bench.beginStop
  stopWithin bench.collector.stepsLeft bench

/-- Take a new collector, once the old one is stopped, with a scheduler that starts over. -/
def renew (bench : Bench) : Option Bench :=
  let bench := bench.stop
  if bench.collector.phase = .stopped then some { bench with collector := {}, cursor := none }
  else none

/-! ### Background work -/

/-- Run an index job and send its outcome. -/
def runJob (extract : Extractor) (tree : FileTree) (job : IndexJob) (bench : Bench) : Bench :=
  let (result, database) := (job.run extract tree bench.indexer).run.run bench.database
  match result with
  | .ok (outcome, indexer) =>
    { bench with database, indexer, channels := bench.channels.send job.channel outcome }
  | .error _ => { bench with database, channels := bench.channels.drop job.channel }

/-- Run the index jobs in order. -/
def runJobs (extract : Extractor) (tree : FileTree) (bench : Bench) : Bench :=
  bench.jobs.foldl (fun bench job => bench.runJob extract tree job) { bench with jobs := [] }

/-- What goes on in the background: index jobs run, and a running collector polls. -/
def settle (tree : FileTree) (bench : Bench) : Bench :=
  let bench := bench.runJobs Source.extract tree
  match bench.collector.phase with
  | .running => bench.poll
  | .fresh | .stopping | .stopped => bench

end Bench

end SymbolAtlas
