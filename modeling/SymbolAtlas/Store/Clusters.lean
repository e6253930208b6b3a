import SymbolAtlas.Ascending
import SymbolAtlas.Store.Basic

/-!
# Clusters in the store

A cluster map gives files the actions they may end up in. The table holds one map at a time.
-/

namespace SymbolAtlas

/-- The actions of files, ascending in both. -/
abbrev ClusterMap := List (Int × List Int)

namespace ClusterMap

/-- The map of a list of entries: the last entry of a file counts. -/
def ofEntries (entries : List (Int × List Int)) : ClusterMap :=
  entries.foldl (fun map (file, actions) => Ascending.put file (Ascending.ofList actions) map) []

/-- The rows of a map. -/
def rows (map : ClusterMap) : List ClusterRow :=
  map.flatMap fun (file, actions) => actions.map fun action => ⟨file, action⟩

end ClusterMap

namespace Store

/-- Replace the whole table by a map. -/
def replaceClusters (map : ClusterMap) (store : Store) : Store :=
  { store with clusters := map.rows }

/-- The actions recorded for a file, ascending; none if it was never clustered. -/
def clusterOf (store : Store) (file : Int) : List Int :=
  Ascending.ofList ((store.clusters.filter fun row => row.file = file).map ClusterRow.action)

/-- The number of files with some action. -/
def clusteredFiles (store : Store) : Nat :=
  (Ascending.ofList (store.clusters.map ClusterRow.file)).length

end Store

end SymbolAtlas
