import SymbolAtlas.BuildLog.Import
import SymbolAtlas.BuildLog.Load
import SymbolAtlas.Cluster.Assignment
import SymbolAtlas.Discovery
import SymbolAtlas.Dispatch.Pass
import SymbolAtlas.Settings

/-!
# A run over a workspace

A run discovers the workspace, imports a build log, parses every outstanding action, lets the
parsers finish, computes clusters and records the counters of the run.

* `RunOptions`: what a run is about.
* `Stage`: what a run works on. Its stages are `discoverStage`, `importStage`, `parseStage`,
  `afterParse`, `clusterStage` and `persistStatistics`.
* `runWorkspace`: all stages in order; the first one that fails ends the run.
-/

namespace SymbolAtlas

/-- What a run is about. -/
structure RunOptions where
  root : String
  buildLog : Option String := none
  /-- the project of imported actions -/
  project : String
  deriving DecidableEq, Repr

/-- The usual project of a root: the last name in its path. -/
def RunOptions.projectOf (root : String) : String := (Path.fileName? root).getD "default"

/-- How a run is done. -/
structure RunSetup where
  tree : FileTree
  settings : Settings
  registry : Registry
  /-- what is noted as the time of the run -/
  time : String

/-- The setup with the built-in parser, unless the settings disable it. -/
def RunSetup.builtIn (tree : FileTree) (settings : Settings) (time : String) : RunSetup :=
  { tree, settings, time
    registry := { Registry.builtIn with disabled := settings.parse.disabledParsers } }

/-- What came of a run. -/
structure RunSummary where
  filesDiscovered : Nat
  repositories : Nat
  actionsImported : Nat
  schedule : PassSummary
  parse : Tally
  /-- missing if clusters are not computed -/
  cluster : Option Cluster.Summary
  deriving DecidableEq, Repr

/-- Why a run fails. -/
inductive RunError where
  | log (error : BuildLog.LogError)
  | fault (fault : Fault)

/-- What a run works on: the bench, and what is known of the scheduling pass. -/
structure RunState where
  bench : Bench
  progress : List (Nat × Nat) := []

/-- A stage of a run. -/
abbrev Stage (α : Type) := ExceptT RunError (StateM RunState) α

namespace Stage

/-- A stage that works on the database. -/
def onDatabase {α : Type} (work : Tx α) : Stage α := fun state =>
  let (result, database) := work.run.run state.bench.database
  (result.mapError RunError.fault, { state with bench := { state.bench with database } })

/-- Change the bench. -/
def onBench (change : Bench → Bench) : Stage Unit :=
  modify fun state => { state with bench := change state.bench }

end Stage

/-- Discover the workspace, if its root is a directory. -/
def discoverStage (setup : RunSetup) (root : String) : Stage Discovery :=
  if (setup.tree.find? root).any Node.isDirectory then
    Stage.onDatabase (discover setup.tree setup.settings.traversal.maxFiles root)
  else return {}

/-- Import the build log, if there is one. -/
def importStage (setup : RunSetup) (options : RunOptions) : Stage BuildLog.ImportSummary :=
  match options.buildLog with
  | none => return {}
  | some path =>
    match BuildLog.load setup.tree path with
    | .error error => throw (.log error)
    | .ok actions => Stage.onDatabase (BuildLog.importActions options.project actions)

/-- Dispatch every outstanding action and collect all results, also when dispatching fails. -/
def parseStage (setup : RunSetup) (root : String) : Stage PassSummary := do
  let settings : DispatchSettings :=
    { registry := setup.registry
      wholeCommand := setup.settings.parse.wholeCommand
      includePaths := setup.settings.resolvedIncludePaths root }
  match (← get).bench.start with
  | .error fault => throw (.fault fault)
  | .ok bench =>
    let (pass, bench) := runPass settings setup.tree bench
    set { bench := bench.dropProducers.stop, progress := pass.progress : RunState }
    match pass.fault with
    | some fault => throw (.fault fault)
    | none => return pass.summary

/-- Let a parser finish: the indexer reports how many included files it has indexed and starts
over. What a plugin records is taken back if it fails, and the run goes on. -/
def finishParser : Parser → Stage Unit
  | .plugin p => do
    let bench := (← get).bench
    let (succeeded, effects) := p.afterParse ⟨bench.memory, bench.database.store⟩ bench.tally
    Stage.onBench fun bench =>
      { bench with calls := bench.calls ++ [.afterParse p.name], memory := effects.memory }
    if succeeded then Stage.onDatabase (Tx.transaction (Tx.write effects.record))
  | parser@(.indexer) => do
    let headers := (← get).bench.indexer.indexed
    Stage.onBench fun bench => { bench with indexer := {} }
    Stage.onDatabase (Tx.transaction
      (Tx.write (Store.putStatistic ⟨parser.name, "headers", headers⟩)))

/-- Let the parsers finish, in order. -/
def afterParse (registry : Registry) : Stage Unit := registry.enabled.forM finishParser

/-- Compute clusters, if the settings ask for them. -/
def clusterStage (settings : Settings) : Stage (Option Cluster.Summary) := do
  if settings.cluster.enabled then
    let (_, summary) ← Stage.onDatabase (Cluster.run Worded.all)
    return some summary
  else return none

/-- The counters of a run take the place of those of earlier runs. -/
def recordCounters (tally : Tally) (cluster : Option Cluster.Summary) (store : Store) : Store :=
  let store := (store.clearStatistics "parse").putStatistics tally.rows
  match cluster with
  | some summary => (store.clearStatistics "cluster").putStatistics summary.rows
  | none => store

/-- Record the counters and the time of a run. -/
def persistStatistics (time : String) (cluster : Option Cluster.Summary) : Stage Unit := do
  let tally := (← get).bench.tally
  Stage.onDatabase (Tx.transaction (Tx.write fun store =>
    (recordCounters tally cluster store).setNote "last_run" (some time)))

/-- All stages of a run. -/
def runStages (setup : RunSetup) (options : RunOptions) : Stage RunSummary := do
  let discovery ← discoverStage setup options.root
  let imported ← importStage setup options
  let schedule ← parseStage setup options.root
  afterParse setup.registry
  let cluster ← clusterStage setup.settings
  persistStatistics setup.time cluster
  return { filesDiscovered := discovery.counts.files
           repositories := discovery.repositories.length
           actionsImported := imported.imported
           schedule
           parse := (← get).bench.tally
           cluster }

/-- A run over a workspace: what came of it, and what it worked on. -/
def runWorkspace (setup : RunSetup) (options : RunOptions) (database : Database) :
    Except RunError RunSummary × RunState :=
  (runStages setup options).run.run { bench := { database } }

end SymbolAtlas
