import SymbolAtlas.Proofs.Cluster.Jobs
import SymbolAtlas.Proofs.Store.References

/-!
# Clustering with several workers

The jobs of headers share one map and run on as many workers as there are. A job reads the entries
that it needs one by one, while other jobs write theirs, and then writes its own.

- **Writing** (`Cluster.Writing`): all maps that can come of this. Since an entry is written once, a
  job has found each entry missing or as it is when the job writes.
- **References** (`Writing.known`): whatever the order, the map names only files and actions that
  have rows, if the tables that it is made from do.
- **Outcomes** (`Cluster.Comes`): with one worker the map is that of `Cluster.assign`, which is one
  of these maps for any number of workers (`comes_assign`). It depends on the symbols, the includes
  and the links of the build graph only (`assign_congr`).
-/

namespace SymbolAtlas

namespace Store

variable {store : Store}

/-- A file ends in actions that have rows. -/
theorem Intact.hasAction_of_ownCluster (h : store.Intact) {file action : Int}
    (haction : action ∈ store.ownCluster file) : store.HasAction action := by
  obtain ⟨seed, hseed, hreach⟩ :=
    Propagation.reached_of_mem_stops (((lists_actionLeaves store _).mem_iff action).mp haction)
  rcases Relation.ReflTransGen.cases_tail hreach with rfl | ⟨_, -, -, _, -, source, hsource, -, rfl, -⟩
  · -- no hop: the action has the file as a source
    simp only [actionsWithSource, Set.mem_ofPred_eq, Ascending.mem_ofList, List.mem_map,
      List.mem_filter] at hseed
    obtain ⟨link, ⟨hlink, -⟩, rfl⟩ := hseed
    exact (h.sources link hlink).1
  · exact (h.sources source hsource).1

/-- Only files with symbols are of concern. -/
theorem Intact.hasFile_of_concerned (h : store.Intact) {markers : List Marker} {file : Int}
    (hfile : file ∈ store.concerned markers) : store.HasFile file := by
  simp only [concerned, concernedBy, Ascending.mem_ofList, List.mem_flatMap, List.mem_map,
    List.mem_filter] at hfile
  obtain ⟨marker, -, row, ⟨hrow, -⟩, rfl⟩ := hfile
  exact h.symbols row hrow

end Store

namespace Cluster

variable {store : Store} {markers : List Marker} {map : ClusterMap} {rest : List Int}

/-- The map before the first job of a header: the files that are built have their own clusters. -/
def seeds (store : Store) (markers : List Marker) : ClusterMap :=
  writeAll (fun _ => store.ownCluster) (Groups.of store (store.concerned markers)).seeded []

/-- The map while jobs of headers run on any number of workers, and the headers whose jobs have not
written. -/
inductive Writing (store : Store) (markers : List Marker) : ClusterMap → List Int → Prop where
  | seeds : Writing store markers (seeds store markers) (headers store markers)
  /-- a job writes; an entry that it has read was missing then, or is the one that is there now -/
  | header {map : ClusterMap} {rest : List Int} {h : Int} {read : Int → List Int} :
      Writing store markers map rest → h ∈ rest →
      (∀ leaf, read leaf = store.ownCluster leaf ∨ read leaf = leafCluster store map leaf) →
      Writing store markers
        (Ascending.put h (Ascending.ofList ((store.includerLeaves h).flatMap read)) map)
        (rest.erase h)

theorem mem_writeAll {value : ClusterMap → Int → List Int} {files : List Int}
    {entry : Int × List Int} (h : entry ∈ writeAll value files map) :
    entry ∈ map ∨ ∃ file ∈ files, ∃ now, entry = (file, value now file) := by
  induction files generalizing map with
  | nil => exact .inl h
  | cons file files ih =>
    rcases ih h with hput | ⟨other, hother, now, hentry⟩
    · rcases Ascending.mem_put hput with hnew | hold
      · exact .inr ⟨file, .head _, map, hnew⟩
      · exact .inl hold
    · exact .inr ⟨other, .tail _ hother, now, hentry⟩

/-- The map names only files and actions that have rows. -/
theorem Writing.known (h : Writing store markers map rest) (hintact : store.Intact) :
    (∀ entry ∈ map, store.HasFile entry.1 ∧ ∀ action ∈ entry.2, store.HasAction action) ∧
      ∀ header ∈ rest, header ∈ headers store markers := by
  induction h with
  | seeds =>
    refine ⟨fun entry hentry => ?_, fun _ hheader => hheader⟩
    rcases mem_writeAll hentry with hnone | ⟨file, hfile, _, rfl⟩
    · cases hnone
    · have hconcerned : file ∈ store.concerned markers := by
        simp only [Groups.of, List.partition_eq_filter_filter] at hfile
        exact List.mem_of_mem_filter hfile
      exact ⟨hintact.hasFile_of_concerned hconcerned,
        fun action haction => hintact.hasAction_of_ownCluster haction⟩
  | @header map rest h read _ hh hread ih =>
    obtain ⟨hentries, hheaders⟩ := ih
    refine ⟨fun entry hentry => ?_, fun other hother => hheaders other (List.mem_of_mem_erase hother)⟩
    rcases Ascending.mem_put hentry with rfl | hold
    · refine ⟨hintact.hasFile_of_concerned (mem_headers.mp (hheaders h hh)).1, fun action haction => ?_⟩
      rw [Ascending.mem_ofList, List.mem_flatMap] at haction
      obtain ⟨leaf, -, haction⟩ := haction
      rcases hread leaf with hown | hentry
      · rw [hown] at haction
        exact hintact.hasAction_of_ownCluster haction
      · rw [hentry, leafCluster] at haction
        cases hget : Ascending.get? leaf map with
        | some cluster =>
          rw [hget] at haction
          exact (hentries _ (Ascending.mem_of_get? hget)).2 action haction
        | none =>
          rw [hget] at haction
          exact hintact.hasAction_of_ownCluster haction
    · exact hentries entry hold

/-- Jobs that run one after the other each read the map as it is. -/
theorem Writing.writeAll {order : List Int} (h : Writing store markers map (order ++ rest)) :
    Writing store markers (writeAll (headerCluster store) order map) rest := by
  induction order generalizing map with
  | nil => exact h
  | cons first order ih =>
    have hfirst := h.header (.head _) fun leaf => .inr (Eq.refl (leafCluster store map leaf))
    rw [List.cons_append, List.erase_cons_head] at hfirst
    exact ih hfirst

/-! ## Outcomes -/

/-- The summary of a run of clustering that came to a map. -/
def summaryOf (store : Store) (markers : List Marker) (map : ClusterMap) : Summary :=
  let groups := Groups.of store (store.concerned markers)
  { concerned := (store.concerned markers).length
    seeded := groups.seeded.length
    headers := groups.headers.length
    excluded := groups.excluded.length
    clustered := map.length
    failedJobs := 0 }

/-- What clustering may come to with the given number of workers, or with any if none is given. -/
structure Comes (workers : Option Nat) (store : Store) (markers : List Marker) (map : ClusterMap)
    (summary : Summary) : Prop where
  writing : Writing store markers map []
  summary : summary = summaryOf store markers map
  single : workers = some 1 → map = (assign store markers).1

theorem assign_eq (store : Store) (markers : List Marker) :
    assign store markers =
      (writeAll (headerCluster store) (headers store markers) (seeds store markers),
        summaryOf store markers
          (writeAll (headerCluster store) (headers store markers) (seeds store markers))) := by
  have hseeds : ∀ files map, runJobs (files.map (seedJob store)) map =
      (writeAll (fun _ => store.ownCluster) files map, 0) :=
    runJobs_write fun _ => store.ownCluster
  have hheaders : ∀ files map, runJobs (files.map (headerJob store)) map =
      (writeAll (headerCluster store) files map, 0) :=
    runJobs_write (headerCluster store)
  simp only [assign, assignInOrder, hseeds, hheaders]
  rfl

/-- Jobs one after the other are a case for any number of workers. -/
theorem comes_assign (workers : Option Nat) (store : Store) (markers : List Marker) :
    Comes workers store markers (assign store markers).1 (assign store markers).2 where
  writing := by
    rw [assign_eq]
    refine Writing.writeAll ?_
    rw [List.append_nil]
    exact .seeds
  summary := by rw [assign_eq]
  single _ := rfl

/-- With one worker there is one outcome. -/
theorem Comes.eq_assign {summary : Summary} (h : Comes (some 1) store markers map summary) :
    (map, summary) = assign store markers := by
  have hmap := h.single rfl
  have hassign := assign_eq store markers
  refine Prod.ext hmap ?_
  rw [h.summary, hmap, hassign]

/-- Clusters depend on the symbols, the includes and the links of the build graph only. -/
theorem assign_congr {store' : Store} (hsymbols : store'.symbols = store.symbols)
    (hincludes : store'.includes = store.includes) (hsources : store'.sources = store.sources)
    (htargets : store'.targets = store.targets) (markers : List Marker) :
    assign store' markers = assign store markers := by
  obtain ⟨_, _, _, _, _, _, _, _, _, _, _, _⟩ := store
  obtain ⟨_, _, _, _, _, _, _, _, _, _, _, _⟩ := store'
  dsimp only at hsymbols hincludes hsources htargets
  subst hsymbols hincludes hsources htargets
  rfl

end Cluster

end SymbolAtlas
