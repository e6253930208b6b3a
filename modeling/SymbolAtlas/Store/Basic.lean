import SymbolAtlas.Model.Action
import SymbolAtlas.Model.File
import SymbolAtlas.Model.Statistic
import SymbolAtlas.Model.Symbol

/-!
# The store

The tables of a workspace. A table is a list of rows in the order in which they were written.

* `ActionRow`, `Link`: the build graph. The kind and the state of an action are kept as text and
  read when they are asked for, so that a word nobody knows is found by its reader.
* `SymbolRow`: occurrences of symbols, kind and role kept as text for the same reason.
* `Store`: all tables, and the next identity of actions and of files.
* `Fault`: what can go wrong in a storage call, and what is said about it.
-/

namespace SymbolAtlas

/-- A recorded action. -/
structure ActionRow where
  id : Int
  kind : String
  state : String
  label : String
  project : String
  deriving DecidableEq, Repr, Inhabited

/-- A file as source or target of an action, at a place among the others. -/
structure Link where
  action : Int
  file : Int
  ordinal : Int
  deriving DecidableEq, Repr, Inhabited

/-- An occurrence of a symbol in a file. -/
structure SymbolRow where
  hash : Int
  name : String
  kind : String
  role : String
  file : Int
  deriving DecidableEq, Repr, Inhabited

/-- A file that includes another one. -/
structure IncludeRow where
  includer : Int
  included : Int
  deriving DecidableEq, Repr, Inhabited

/-- An action that a file may end up in. -/
structure ClusterRow where
  file : Int
  action : Int
  deriving DecidableEq, Repr, Inhabited

/-- A checkout found in the workspace. -/
structure Repository where
  path : String
  kind : String
  deriving DecidableEq, Repr, Inhabited

/-- A note about the workspace; its value may be missing. -/
structure Note where
  key : String
  value : Option String
  deriving DecidableEq, Repr, Inhabited

/-- The tables of a workspace. -/
structure Store where
  actions : List ActionRow := []
  files : List File := []
  sources : List Link := []
  targets : List Link := []
  includes : List IncludeRow := []
  symbols : List SymbolRow := []
  clusters : List ClusterRow := []
  repositories : List Repository := []
  statistics : List Statistic := []
  notes : List Note := []
  /-- the identity of the next action -/
  nextAction : Int := 1
  /-- the identity of the next file -/
  nextFile : Int := 1
  deriving DecidableEq, Repr, Inhabited

/-- Why a storage call fails. -/
inductive Fault where
  /-- the kind of a recorded action is no known word -/
  | unknownActionKind (word : String) (action : Int)
  /-- the state of a recorded action is no known word -/
  | unknownActionState (word : String) (action : Int)
  | unknownSymbolKind (word : String)
  | unknownSymbolRole (word : String)
  /-- an action was to be moved back to its first state -/
  | movedToCreated (action : Int)
  | actionNotInserted
  | sourceNotAdded (action : Int)
  | targetNotAdded (action : Int)
  | stateNotUpdated (action : Int)
  | symbolsNotCleared (file : Int)
  | symbolNotInserted
  | includesNotCleared (file : Int)
  | includeNotInserted
  | clustersNotCleared
  | statisticsNotCleared (category : String)
  | statisticNotWritten
  | repositoryNotRecorded (path : String)
  | noteNotSet (key : String)
  /-- the query of a marker could not be read -/
  | invalidMarker (query : String)
  /-- a query could not be read, and nothing is said about it -/
  | unreadableQuery
  | collectorStarted
  /-- the tables could not be asked -/
  | engine
  /-- the call crashed -/
  | crashed
  deriving DecidableEq, Repr

/-- The call is refused before the tables are asked or changed. -/
def Fault.isEarly : Fault → Bool
  | .movedToCreated _ | .invalidMarker _ | .unreadableQuery => true
  | _ => false

/-- The tables could not be asked or changed. All other faults are found before or after that. -/
def Fault.isStatement : Fault → Bool
  | .unknownActionKind .. | .unknownActionState .. | .unknownSymbolKind _ | .unknownSymbolRole _
  | .movedToCreated _ | .invalidMarker _ | .unreadableQuery | .collectorStarted | .crashed => false
  | _ => true

/-- What is said about a fault, if anything is. -/
def Fault.message? : Fault → Option String
  | .unknownActionKind word action =>
    some s!"Unknown build action type '{word}' on action {action}"
  | .unknownActionState word action =>
    some s!"Unknown build action state '{word}' on action {action}"
  | .unknownSymbolKind word => some s!"Unknown symbol kind '{word}'"
  | .unknownSymbolRole word => some s!"Unknown symbol role '{word}'"
  | .movedToCreated action => some s!"Refusing to move action {action} to created"
  | .actionNotInserted => some "Failed to insert build action"
  | .sourceNotAdded action => some s!"Failed to add source to action {action}"
  | .targetNotAdded action => some s!"Failed to add target to action {action}"
  | .stateNotUpdated action => some s!"Failed to update state of action {action}"
  | .symbolsNotCleared file => some s!"Failed to clear symbols of file {file}"
  | .symbolNotInserted => some "Failed to insert symbol"
  | .includesNotCleared file => some s!"Failed to clear includes of file {file}"
  | .includeNotInserted => some "Failed to insert include"
  | .clustersNotCleared => some "Failed to clear clusters"
  | .statisticsNotCleared category => some s!"Failed to clear statistics for {category}"
  | .statisticNotWritten => some "Failed to write statistic"
  | .repositoryNotRecorded path => some s!"Failed to record repository {path}"
  | .noteNotSet key => some s!"Failed to set metadata {key}"
  | .invalidMarker query => some s!"Invalid marker query: {query}"
  | .collectorStarted => some "Result collector already started"
  | .unreadableQuery | .engine | .crashed => none

end SymbolAtlas
