import SymbolAtlas.Dispatch.Bench

/-!
# Scheduling passes

A pass takes the outstanding actions in order, each in a transaction of its own, and dispatches
them. An action that links is done at once, one with a missing source is skipped, and all others
are handed to the collector with one result for every source, or with one for the whole command.

* `Task`: an action with its paired files and its options.
* `nextTask`: the next outstanding action that is not in flight.
* `dispatch`: what becomes of a task.
* `runPass`: dispatch every outstanding action once.
-/

namespace SymbolAtlas

/-- How actions are dispatched. -/
structure DispatchSettings where
  registry : Registry := .builtIn
  /-- an action with several sources is given to a parser as a whole -/
  wholeCommand : Bool := false
  /-- directories searched before those of the command lines -/
  includePaths : List String := []

/-- An action that is to be dispatched. -/
structure Task where
  action : BuildAction
  pairs : List FilePair
  options : Command.Options
  /-- the action is given to a parser as a whole -/
  wholeCommand : Bool
  deriving DecidableEq, Repr

/-- What became of a task. -/
inductive Dispatched where
  /-- handed to the collector with so many results -/
  | queued (results : Nat)
  | linked
  | skipped
  deriving DecidableEq, Repr

/-- What a pass did. -/
structure PassSummary where
  tasks : Nat := 0
  dispatched : Nat := 0
  skipped : Nat := 0
  links : Nat := 0
  deriving DecidableEq, Repr, Inhabited

/-- Count a task. -/
def PassSummary.add (summary : PassSummary) : Dispatched → PassSummary
  | .queued n => { summary with tasks := summary.tasks + 1, dispatched := summary.dispatched + n }
  | .linked => { summary with tasks := summary.tasks + 1, links := summary.links + 1 }
  | .skipped => { summary with tasks := summary.tasks + 1, skipped := summary.skipped + 1 }

/-! ### Calling parsers -/

mutual

/-- The handle for what a plugin answers. -/
def Reply.handle : Reply → Work Handle
  | .ready outcome => return .ready outcome
  | .started (some outcome) => return .pending (← modifyGet (Bench.newChannel (.sent outcome)))
  | .started none | .abandoned => return .pending (← modifyGet (Bench.newChannel .dropped))
  | .channel => do
    let id ← modifyGet (Bench.newChannel .waiting)
    modify fun bench => { bench with producers := bench.producers ++ [id] }
    return .pending id
  | .taken => return .taken
  | .joined replies => return .join (← Reply.handles replies)

/-- The handles for several answers. -/
def Reply.handles : List Reply → Work (List Handle)
  | [] => return []
  | reply :: rest => return (← reply.handle) :: (← Reply.handles rest)

end

/-- A unit of work for an action whose results come by the given answers. -/
def unitOf (action : Int) (replies : List (Reply × Option String)) : Work Unfinished := do
  let results ← replies.mapM fun (reply, language) => return ⟨← reply.handle, language⟩
  return { action, results }

/-- Call a plugin: what it records is recorded at once, in the transaction that is open. -/
def Plugin.respond (act : View → Option Reply × Effects) : Work Handle := do
  let bench ← get
  let (reply, effects) := act ⟨bench.memory, bench.database.store⟩
  modify fun bench => { bench with memory := effects.memory }
  Work.onDatabase (Tx.write effects.record)
  match reply with
  | some reply => reply.handle
  | none => throw .crashed

/-- Record a call to a plugin. -/
def recordCall (call : Call) : Work Unit :=
  modify fun bench => { bench with calls := bench.calls ++ [call] }

namespace Parser

/-- Give a source to a parser. -/
def parse (parser : Parser) (action : BuildAction) (options : Command.Options) (source : File)
    (target : Option File) : Work Handle := do
  match parser with
  | .indexer =>
    let id ← modifyGet (Bench.newChannel .waiting)
    let job : IndexJob := ⟨id, source.id, source.path, options.includePaths⟩
    modify fun bench => { bench with jobs := bench.jobs ++ [job] }
    return .pending id
  | .plugin p =>
    recordCall (.parse p.name action.id source.path (target.map File.path) options)
    Plugin.respond fun view => p.parse view action source target options

/-- Give every pair to a parser; a pair without a source fails. -/
def parseEach (parser : Parser) (action : BuildAction) (options : Command.Options)
    (pairs : List FilePair) : Work (List Handle) :=
  pairs.mapM fun pair =>
    match pair.source with
    | some source => parser.parse action options source pair.target
    | none => return .ready .fail

/-- Give a whole command to a parser. -/
def parseCommand (parser : Parser) (action : BuildAction) (options : Command.Options)
    (pairs : List FilePair) : Work Handle := do
  match parser with
  | .indexer => return .join (← parser.parseEach action options pairs)
  | .plugin p =>
    recordCall (.command p.name action.id pairs)
    match p.command with
    | some command => Plugin.respond fun view => command view action pairs options
    | none => return .join (← parser.parseEach action options pairs)

end Parser

/-! ### Tasks -/

/-- The task of an action. -/
def Task.of (settings : DispatchSettings) (store : Store) (action : BuildAction) : Task :=
  let pairs := FilePair.pairUp (store.sourcesOf action.id) (store.targetsOf action.id)
  { action, pairs
    options := .ofLabel action.label settings.includePaths
    wholeCommand := settings.wholeCommand && 1 < pairs.length }

/-- The next outstanding action after the cursor that is not in flight, looking at so many. -/
def nextTaskWithin (settings : DispatchSettings) : Nat → Work (Option Task)
  | 0 => return none
  | n + 1 => do
    let cursor := (← get).cursor
    match ← Work.onDatabase (Tx.readOr fun store => store.nextOutstanding cursor) with
    | none => return none
    | some action =>
      modify fun bench => { bench with cursor := some action.id }
      if (← get).collector.isPending action.id then nextTaskWithin settings n
      else
        return some (← Work.onDatabase (Tx.read fun store => Task.of settings store action))

/-- The next outstanding action after the cursor that is not in flight. Every look moves the cursor
to a later action, so as many looks as there are actions are enough. -/
def nextTask (settings : DispatchSettings) : Work (Option Task) := do
  nextTaskWithin settings ((← get).database.store.actions.length + 1)

/-- The result of one source. -/
def dispatchSource (settings : DispatchSettings) (task : Task) (source : File)
    (target : Option File) : Work PendingResult := do
  let handle ← match settings.registry.resolve? source.path with
    | some parser => parser.parse task.action task.options source target
    | none => pure (.ready .success)
  return ⟨handle, source.language⟩

/-- The results of the sources of a task. -/
def dispatchEach (settings : DispatchSettings) (task : Task) : Work (List PendingResult) :=
  (task.pairs.filterMap fun pair => pair.source.map fun source => (source, pair.target)).mapM
    fun (source, target) => dispatchSource settings task source target

/-- The one result of a task as a whole: the parser of the first source takes the command. -/
def dispatchWhole (settings : DispatchSettings) (task : Task) : Work (List PendingResult) := do
  let first := task.pairs.head?.bind FilePair.source
  let handle ← match first.bind fun file => settings.registry.resolve? file.path with
    | some parser => parser.parseCommand task.action task.options task.pairs
    | none => pure (.ready .success)
  return [⟨handle, first.bind File.language⟩]

/-- Dispatch a task. -/
def dispatch (settings : DispatchSettings) (task : Task) : Work Dispatched := do
  let setState := fun state => Work.onDatabase (Tx.writeOr (Store.setState task.action.id state))
  let record := fun outcome => show Work Unit from
    modify fun bench => { bench with tally := bench.tally.record none outcome }
  if task.action.kind = .link then
    if ← setState .parsed then record .success
    return .linked
  if task.pairs.any fun pair => pair.source.isNone then
    let _ ← setState .skipped
    record .fail
    return .skipped
  let results ←
    if task.wholeCommand then dispatchWhole settings task else dispatchEach settings task
  modify fun bench =>
    { bench with collector := bench.collector.queue { action := task.action.id, results } }
  return .queued results.length

/-- Take the next task and dispatch it, in one transaction: the number of its pairs and what became
of it. -/
def passStep (settings : DispatchSettings) : Work (Option (Nat × Dispatched)) :=
  Work.transaction do
    match ← nextTask settings with
    | none => return none
    | some task => return some (task.pairs.length, ← dispatch settings task)

/-- What is known of a pass. -/
structure Pass where
  summary : PassSummary := {}
  /-- after each task, the number of sources so far and the number of all -/
  progress : List (Nat × Nat) := []
  /-- why the pass ended early -/
  fault : Option Fault := none
  deriving Repr, Inhabited

/-- The number of sources of the tasks so far. -/
def Pass.current (pass : Pass) : Nat := (pass.progress.getLast?.map Prod.fst).getD 0

/-- Take at most so many tasks. -/
def passWithin (settings : DispatchSettings) (tree : FileTree) (total : Nat) :
    Nat → Pass → Bench → Pass × Bench
  | 0, pass, bench => (pass, bench)
  | n + 1, pass, bench =>
    match (passStep settings).run.run bench with
    | (.error fault, bench) => ({ pass with fault := some fault }, bench.settle tree)
    | (.ok none, bench) => (pass, bench.settle tree)
    | (.ok (some (sources, dispatched)), bench) =>
      passWithin settings tree total n
        { pass with
          summary := pass.summary.add dispatched
          progress := pass.progress ++ [(pass.current + sources, total)] }
        (bench.settle tree)

/-- Dispatch every outstanding action once. Every task moves the cursor to a later action, so there
are at most as many tasks as actions. -/
def runPass (settings : DispatchSettings) (tree : FileTree) (bench : Bench) : Pass × Bench :=
  let store := bench.database.store
  passWithin settings tree store.outstandingSources (store.actions.length + 1) {}
    { bench with cursor := none }

end SymbolAtlas
