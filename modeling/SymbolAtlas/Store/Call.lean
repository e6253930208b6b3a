import SymbolAtlas.Store.Actions
import SymbolAtlas.Store.Clusters
import SymbolAtlas.Store.Database
import SymbolAtlas.Store.Symbols

/-!
# Storage calls

Every change of the tables is one of these calls.

* `StoreCall.perform`: what a call answers, and the tables after it.
* `StoreCall.refusal`: what it says when the open transaction takes no statements.
* `StoreCall.work`: the call as work on a database.
* `StoreCall.isBeside`: the calls by which parsers record what they find.
-/

namespace SymbolAtlas

/-- What a storage call answers. -/
inductive StoreAnswer where
  | done
  | action (action : BuildAction)
  | file (file : File)
  /-- whether an action was outstanding and is moved -/
  | moved (outstanding : Bool)
  deriving DecidableEq, Repr

/-- A storage call. -/
inductive StoreCall where
  | insertAction (kind : ActionKind) (label project : String)
  | addSource (action file ordinal : Int)
  | addTarget (action file ordinal : Int)
  | setState (action : Int) (state : ActionState)
  | internFile (path : String)
  | replaceSymbols (file : Int) (symbols : List Symbol)
  | addSymbol (symbol : Symbol)
  | replaceIncludes (includer : Int) (included : List Int)
  | addInclude (includer included : Int)
  | replaceClusters (map : ClusterMap)
  | clearStatistics (category : String)
  | putStatistic (row : Statistic)
  | addRepository (path kind : String)
  | setNote (key value : String)
  /-- any question, which may fail -/
  | ask (query : Store → Except Fault Unit)

namespace StoreCall

/-- What a call answers, and the tables after it. -/
def perform (call : StoreCall) (store : Store) : Except Fault (StoreAnswer × Store) :=
  match call with
  | .insertAction kind label project =>
    let (action, store) := store.insertAction kind label project
    .ok (.action action, store)
  | .addSource action file ordinal =>
    (store.addSource action file ordinal).map fun store => (.done, store)
  | .addTarget action file ordinal =>
    (store.addTarget action file ordinal).map fun store => (.done, store)
  | .setState action state =>
    (store.setState action state).map fun (moved, store) => (.moved moved, store)
  | .internFile path =>
    let (file, store) := store.internFile path
    .ok (.file file, store)
  | .replaceSymbols file symbols => .ok (.done, store.replaceSymbols file symbols)
  | .addSymbol symbol => .ok (.done, store.addSymbol symbol)
  | .replaceIncludes includer included => .ok (.done, store.replaceIncludes includer included)
  | .addInclude includer included => .ok (.done, store.addInclude includer included)
  | .replaceClusters map => .ok (.done, store.replaceClusters map)
  | .clearStatistics category => .ok (.done, store.clearStatistics category)
  | .putStatistic row => .ok (.done, store.putStatistic row)
  | .addRepository path kind => .ok (.done, store.addRepository path kind)
  | .setNote key value => .ok (.done, store.setNote key (some value))
  | .ask query => (query store).map fun _ => (.done, store)

/-- What a call says when its first statement is refused. -/
def refusal : StoreCall → Fault
  | .insertAction .. => .actionNotInserted
  | .addSource action _ _ => .sourceNotAdded action
  | .addTarget action _ _ => .targetNotAdded action
  | .setState action _ => .stateNotUpdated action
  | .replaceSymbols file _ => .symbolsNotCleared file
  | .addSymbol _ => .symbolNotInserted
  | .replaceIncludes includer _ => .includesNotCleared includer
  | .addInclude .. => .includeNotInserted
  | .replaceClusters _ => .clustersNotCleared
  | .clearStatistics category => .statisticsNotCleared category
  | .putStatistic _ => .statisticNotWritten
  | .addRepository path _ => .repositoryNotRecorded path
  | .setNote key _ => .noteNotSet key
  | .internFile _ | .ask _ => .engine

/-- The tables after a call; one that fails leaves them. -/
def after (call : StoreCall) (store : Store) : Store :=
  match call.perform store with
  | .ok (_, after) => after
  | .error _ => store

/-- A call that leaves the build graph alone, and cannot fail. -/
def isBeside : StoreCall → Bool
  | .internFile _ | .replaceSymbols .. | .addSymbol _ | .replaceIncludes .. | .addInclude ..
  | .clearStatistics _ | .putStatistic _ | .setNote .. => true
  | .insertAction .. | .addSource .. | .addTarget .. | .setState .. | .replaceClusters _
  | .addRepository .. | .ask _ => false

/-- A call as work on a database. -/
def work (call : StoreCall) : Tx StoreAnswer := (Tx.writeOr call.perform).named call.refusal

end StoreCall

end SymbolAtlas
