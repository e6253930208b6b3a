import SymbolAtlas.Cluster.Ambiguity
import SymbolAtlas.Cluster.Leaves
import SymbolAtlas.Store.Clusters
import SymbolAtlas.Store.Database

/-!
# Assigning clusters to files

Every file of concern is given its cluster, the actions that its code can end up in. A file that is
built is seeded by its own actions. A file that is only included takes what the files have where
its includers end; these may have an entry already, and otherwise count by their own actions. A
file that is neither built nor included is left out.

* `Cluster.Groups`: the files of concern by the way they get their cluster.
* `Cluster.seedJob`, `Cluster.headerJob`: the job of one file, on the map that all jobs share.
* `Cluster.runJobs`: jobs one after the other; a job that fails leaves the map as it is.
* `Cluster.assign`: the map and its summary.
-/

namespace SymbolAtlas.Cluster

/-- The files of concern by the way they get their cluster. -/
structure Groups where
  /-- files that are built -/
  seeded : List Int
  /-- files that are not built but included -/
  headers : List Int
  /-- all others -/
  excluded : List Int
  deriving DecidableEq, Repr

/-- Group files. -/
def Groups.of (store : Store) (files : List Int) : Groups :=
  let isBuilt := fun file => !(store.actionsWithSource file).isEmpty
  let (built, others) := files.partition isBuilt
  let (included, rest) := others.partition store.isIncluded
  ⟨built, included, rest⟩

/-- A job on the shared map. -/
abbrev Job := ClusterMap → Except Fault ClusterMap

/-- The job of a file that is built. -/
def seedJob (store : Store) (file : Int) : Job := fun map =>
  .ok (Ascending.put file (store.ownCluster file) map)

/-- What a file where includers end contributes. -/
def leafCluster (store : Store) (map : ClusterMap) (leaf : Int) : List Int :=
  (Ascending.get? leaf map).getD (store.ownCluster leaf)

/-- The job of a file that is only included. -/
def headerJob (store : Store) (header : Int) : Job := fun map =>
  .ok (Ascending.put header
    (Ascending.ofList ((store.includerLeaves header).flatMap (leafCluster store map))) map)

/-- Run jobs one after the other: the map, and the number of jobs that failed. -/
def runJobs (jobs : List Job) (map : ClusterMap) : ClusterMap × Nat :=
  jobs.foldl
    (fun (map, failures) job =>
      match job map with
      | .ok map => (map, failures)
      | .error _ => (map, failures + 1))
    (map, 0)

/-- What came of clustering. -/
structure Summary where
  concerned : Nat
  seeded : Nat
  headers : Nat
  excluded : Nat
  /-- files with an entry at the end -/
  clustered : Nat
  failedJobs : Nat
  deriving DecidableEq, Repr

/-- The counters of a summary. -/
def Summary.rows (s : Summary) : List Statistic :=
  [⟨"cluster", "concerned", s.concerned⟩,
   ⟨"cluster", "seeded", s.seeded⟩,
   ⟨"cluster", "headers", s.headers⟩,
   ⟨"cluster", "excluded", s.excluded⟩,
   ⟨"cluster", "clustered", s.clustered⟩,
   ⟨"cluster", "failed_jobs", s.failedJobs⟩]

/-- The clusters of the files of concern. The jobs of the files that are only included run in the
given order. -/
def assignInOrder (store : Store) (concerned : List Int) (headers : List Int) :
    ClusterMap × Summary :=
  let groups := Groups.of store concerned
  let (seeds, failedSeeds) := runJobs (groups.seeded.map (seedJob store)) []
  let (map, failedHeaders) := runJobs (headers.map (headerJob store)) seeds
  (map,
    { concerned := concerned.length
      seeded := groups.seeded.length
      headers := groups.headers.length
      excluded := groups.excluded.length
      clustered := map.length
      failedJobs := failedSeeds + failedHeaders })

/-- The clusters of the files that some marker is concerned about. -/
def assign (store : Store) (markers : List Marker) : ClusterMap × Summary :=
  let concerned := store.concerned markers
  assignInOrder store concerned (Groups.of store concerned).headers

/-- Assign clusters and record them. -/
def run (markers : List Marker) : Tx (ClusterMap × Summary) := Tx.transaction do
  let (map, summary) ← Tx.read fun store => assign store markers
  Tx.write (Store.replaceClusters map)
  return (map, summary)

end SymbolAtlas.Cluster
