import SymbolAtlas.Proofs.Cluster.Workers

/-!
# The table of clusters

How the summary of a run of clustering and the table that it leaves fit the map that it came to.

- **Groups** (`lists_seeded`, `lists_headers`, `perm_groups`): a file of concern is built, or only
  included, or neither, and counts in one group only.
- **Entries** (`Writing.entries`): while jobs run, the files with an entry are those that are built
  and the headers whose jobs have written. The entry of a file that is built is its own cluster.
- **Table** (`Store.mem_rows`, `Store.nodup_rows`): the table holds one row for each action of
  an entry and nothing else, whatever it held before.
- **Runs** (`Tabled`): all of this together, for a run with one worker and for whatever clustering
  may come to with several (`run_tables`).
-/

namespace SymbolAtlas

namespace Store

open Ascending (KeysAscending)

variable {store : Store} {map : ClusterMap} {f a : Int}

theorem mem_rows (hkeys : KeysAscending map) :
    ⟨f, a⟩ ∈ map.rows ↔ a ∈ (Ascending.get? f map).getD [] := by
  simp only [ClusterMap.rows, List.mem_flatMap, List.mem_map, ClusterRow.mk.injEq]
  constructor
  · rintro ⟨⟨_, actions⟩, hentry, _, ha, rfl, rfl⟩
    rw [(Ascending.get?_eq_some_iff hkeys).mpr hentry]
    exact ha
  · intro ha
    cases hget : Ascending.get? f map with
    | none =>
      rw [hget] at ha
      cases ha
    | some actions =>
      rw [hget] at ha
      exact ⟨(f, actions), (Ascending.get?_eq_some_iff hkeys).mp hget, a, ha, rfl, rfl⟩

/-- There is one row for each action of an entry. -/
theorem nodup_rows (hkeys : KeysAscending map)
    (hentries : ∀ entry ∈ map, entry.2.Pairwise (· < ·)) : map.rows.Nodup := by
  rw [ClusterMap.rows, List.nodup_flatMap]
  refine ⟨fun entry hentry => ?_, hkeys.imp fun {entry entry'} hlt row hrow hrow' => ?_⟩
  · have hnodup : entry.2.Nodup := (hentries entry hentry).imp ne_of_lt
    exact hnodup.map fun a b hab => (ClusterRow.mk.injEq ..).mp hab |>.2
  · obtain ⟨_, -, rfl⟩ := List.mem_map.mp hrow
    obtain ⟨_, -, heq⟩ := List.mem_map.mp hrow'
    exact hlt.ne (congrArg ClusterRow.file heq).symm

/-- A file that is built ends in some action. -/
theorem ownCluster_ne_nil (h : store.Built f) : store.ownCluster f ≠ [] := by
  have htargets : ∀ a b, store.Feeds a b → b ∈ store.sources.map Link.action := by
    rintro a b ⟨-, _, -, source, hsource, -, rfl, -⟩
    exact List.mem_map_of_mem hsource
  obtain ⟨_, -, hdepth⟩ := Propagation.exists_hasDepth
    (Propagation.layer_eq_empty (store.actionsWithSource f) htargets)
  have hseed : store.actionsWithSource f ≠ [] := fun hnil =>
    actionsWithSource_eq_nil.mp hnil h
  obtain ⟨a, ha⟩ := List.exists_mem_of_ne_nil _ hseed
  obtain ⟨b, hb⟩ := (Propagation.stops_nonempty hdepth).mpr ⟨a, ha⟩
  exact List.ne_nil_of_mem (((lists_actionLeaves store _).mem_iff b).mpr hb)

/-- What is recorded for a file is its entry, or nothing if it has none. -/
theorem clusterOf_replaceClusters_getD (hkeys : KeysAscending map)
    (hentries : ∀ entry ∈ map, entry.2.Pairwise (· < ·)) (f : Int) :
    (store.replaceClusters map).clusterOf f = (Ascending.get? f map).getD [] := by
  cases hget : Ascending.get? f map with
  | some cluster =>
    exact clusterOf_replaceClusters hkeys hget (hentries _ (Ascending.mem_of_get? hget))
  | none =>
    have hnone : ∀ a, ⟨f, a⟩ ∉ map.rows := fun a => by simp [mem_rows hkeys, hget]
    refine List.eq_nil_iff_forall_not_mem.mpr fun a ha => ?_
    simp only [clusterOf, replaceClusters, Ascending.mem_ofList, List.mem_map, List.mem_filter,
      decide_eq_true_eq] at ha
    obtain ⟨⟨_, _⟩, ⟨hrow, rfl⟩, rfl⟩ := ha
    exact hnone _ hrow

end Store

namespace Cluster

open Ascending (Lists KeysAscending)

variable {store : Store} {markers : List Marker} {map : ClusterMap} {rest : List Int} {f : Int}

/-! ## Groups -/

/-- A row says that some file includes the file. -/
theorem isIncluded_iff : store.isIncluded f = true ↔ ∃ row ∈ store.includes, row.included = f := by
  simp [Store.isIncluded]

theorem ascending_concerned (store : Store) (markers : List Marker) :
    (store.concerned markers).Pairwise (· < ·) :=
  Ascending.ascending_ofList _

/-- The groups of files, in the order of the files. -/
theorem groups_eq (store : Store) (files : List Int) :
    (Groups.of store files).seeded = files.filter (fun f => store.Built f) ∧
    (Groups.of store files).headers =
      (files.filter fun f => ¬ store.Built f).filter store.isIncluded ∧
    (Groups.of store files).excluded =
      (files.filter fun f => ¬ store.Built f).filter fun f => !store.isIncluded f := by
  have hbuilt : ∀ f, (!(store.actionsWithSource f).isEmpty) = decide (store.Built f) := by
    intro f
    rw [Bool.eq_iff_iff]
    simp [Store.actionsWithSource_eq_nil]
  simp [Groups.of, List.partition_eq_filter_filter, hbuilt, Function.comp_def]

/-- Each file is in one group. -/
theorem perm_groups (store : Store) (files : List Int) :
    ((Groups.of store files).seeded ++ ((Groups.of store files).headers ++
      (Groups.of store files).excluded)).Perm files := by
  obtain ⟨hseeded, hheaders, hexcluded⟩ := groups_eq store files
  rw [hseeded, hheaders, hexcluded]
  have hothers := List.filter_append_perm store.isIncluded (files.filter fun f => ¬ store.Built f)
  have hall := List.filter_append_perm (fun f => decide (store.Built f)) files
  refine (hothers.append_left _).trans ?_
  simpa using hall

theorem lists_seeded (store : Store) (markers : List Marker) :
    Lists (Groups.of store (store.concerned markers)).seeded
      {f | f ∈ store.concerned markers ∧ store.Built f} := by
  rw [(groups_eq _ _).1]
  exact ⟨(ascending_concerned store markers).filter _, fun f => by simp⟩

theorem lists_headers (store : Store) (markers : List Marker) :
    Lists (Groups.of store (store.concerned markers)).headers
      {f | f ∈ store.concerned markers ∧ ¬ store.Built f ∧
        ∃ row ∈ store.includes, row.included = f} := by
  rw [(groups_eq _ _).2.1]
  refine ⟨((ascending_concerned store markers).filter _).filter _, fun f => ?_⟩
  simp only [List.mem_filter, decide_eq_true_eq, isIncluded_iff, Set.mem_ofPred_eq, and_assoc]

theorem lists_excluded (store : Store) (markers : List Marker) :
    Lists (Groups.of store (store.concerned markers)).excluded
      {f | f ∈ store.concerned markers ∧ ¬ store.Built f ∧
        ∀ row ∈ store.includes, row.included ≠ f} := by
  rw [(groups_eq _ _).2.2]
  refine ⟨((ascending_concerned store markers).filter _).filter _, fun f => ?_⟩
  simp [Store.isIncluded, and_comm]

/-! ## Entries -/

/-- What the map holds while the jobs of the headers in `rest` have not written. -/
structure Entries (store : Store) (markers : List Marker) (map : ClusterMap) (rest : List Int) :
    Prop where
  keys : KeysAscending map
  ascending : ∀ entry ∈ map, entry.2.Pairwise (· < ·)
  seeded : ∀ f ∈ (Groups.of store (store.concerned markers)).seeded,
    Ascending.get? f map = some (store.ownCluster f)
  isSome_iff : ∀ f, (Ascending.get? f map).isSome ↔
    f ∈ (Groups.of store (store.concerned markers)).seeded ∨ f ∈ headers store markers ∧ f ∉ rest
  nodup : rest.Nodup
  subset : rest ⊆ headers store markers

theorem entries_seeds (store : Store) (markers : List Marker) :
    Entries store markers (seeds store markers) (headers store markers) where
  keys := keysAscending_writeAll _ .nil
  ascending := by
    intro entry hentry
    rcases mem_writeAll hentry with hnone | ⟨file, -, _, rfl⟩
    · cases hnone
    · exact (Store.lists_actionLeaves store _).ascending
  seeded := by
    intro f hf
    rw [seeds, get?_seeds, if_pos hf]
  isSome_iff := by
    intro f
    rw [seeds, get?_seeds]
    split <;> simp_all
  nodup := nodup_headers store markers
  subset := List.Subset.refl _

theorem Entries.put {h : Int} (hentries : Entries store markers map rest) (hh : h ∈ rest)
    (actions : List Int) :
    Entries store markers (Ascending.put h (Ascending.ofList actions) map) (rest.erase h) where
  keys := Ascending.keysAscending_put _ _ hentries.keys
  ascending := by
    intro entry hentry
    rcases Ascending.mem_put hentry with rfl | hold
    · exact Ascending.ascending_ofList _
    · exact hentries.ascending entry hold
  seeded := by
    intro f hf
    have hne : f ≠ h := by
      rintro rfl
      have hbuilt := (((lists_seeded store markers).mem_iff f).mp hf).2
      exact (mem_headers.mp (hentries.subset hh)).2.1 hbuilt
    rw [Ascending.get?_put, if_neg hne]
    exact hentries.seeded f hf
  isSome_iff := by
    intro f
    rw [Ascending.get?_put, hentries.nodup.mem_erase_iff]
    by_cases hf : f = h
    · simp [hf, hentries.subset hh]
    · simp [hf, hentries.isSome_iff f]
  nodup := hentries.nodup.erase h
  subset := fun f hf => hentries.subset (List.mem_of_mem_erase hf)

theorem Writing.entries (h : Writing store markers map rest) : Entries store markers map rest := by
  induction h with
  | seeds => exact entries_seeds store markers
  | header _ hh _ ih => exact ih.put hh _

/-! ## Runs -/

/-- The map, the summary and the tables after a run fit together. -/
structure Tabled (before : Store) (markers : List Marker) (map : ClusterMap) (summary : Summary)
    (after : Store) : Prop where
  /-- every file of concern is in one group -/
  groups : ∃ seeded headers excluded,
    Lists seeded {f | f ∈ before.concerned markers ∧ before.Built f} ∧
    Lists headers {f | f ∈ before.concerned markers ∧ ¬ before.Built f ∧
      ∃ row ∈ before.includes, row.included = f} ∧
    Lists excluded {f | f ∈ before.concerned markers ∧ ¬ before.Built f ∧
      ∀ row ∈ before.includes, row.included ≠ f} ∧
    (seeded ++ (headers ++ excluded)).Perm (before.concerned markers) ∧
    summary.seeded = seeded.length ∧ summary.headers = headers.length ∧
    summary.excluded = excluded.length ∧
    Lists (map.map Prod.fst) {f | f ∈ seeded ∨ f ∈ headers}
  concerned : summary.concerned = (before.concerned markers).length
  total : summary.seeded + summary.headers + summary.excluded = summary.concerned
  failedJobs : summary.failedJobs = 0
  clustered : summary.clustered = map.length ∧ summary.clustered = summary.seeded + summary.headers
  /-- a file that is built has the actions that its own ones end in -/
  seeded : ∀ f ∈ before.concerned markers, before.Built f → ∃ cluster, cluster ≠ [] ∧
    Ascending.get? f map = some cluster ∧
    cluster = before.actionLeaves (before.actionsWithSource f)
  clusterOf : ∀ f, after.clusterOf f = (Ascending.get? f map).getD []
  /-- a row for each action of an entry, and no other -/
  count : ∀ f a, after.clusters.count ⟨f, a⟩ =
    if a ∈ (Ascending.get? f map).getD [] then 1 else 0
  others : after = { before with clusters := after.clusters }

theorem Entries.lists_keys (h : Entries store markers map []) :
    Lists (map.map Prod.fst) {f | f ∈ (Groups.of store (store.concerned markers)).seeded ∨
      f ∈ (Groups.of store (store.concerned markers)).headers} := by
  refine h.keys.lists_keys.congr fun f => (h.isSome_iff f).trans ?_
  simp [headers]

/-- As many files have an entry as are built or headers. -/
theorem Entries.length_eq (h : Entries store markers map []) :
    map.length = (Groups.of store (store.concerned markers)).seeded.length +
      (Groups.of store (store.concerned markers)).headers.length := by
  have hnodup := (perm_groups store (store.concerned markers)).nodup_iff.mpr
    ((ascending_concerned store markers).imp ne_of_lt)
  rw [← List.append_assoc] at hnodup
  have hkeys := h.lists_keys
  have hperm : (map.map Prod.fst).Perm ((Groups.of store (store.concerned markers)).seeded ++
      (Groups.of store (store.concerned markers)).headers) := by
    refine (List.perm_ext_iff_of_nodup (hkeys.ascending.imp ne_of_lt)
      hnodup.of_append_left).mpr fun f => ?_
    rw [hkeys.mem_iff, List.mem_append]
    rfl
  simpa using hperm.length_eq

/-- What clustering may come to with any number of workers fits the table that it is written to. -/
theorem Comes.tabled {workers : Option Nat} {summary : Summary}
    (h : Comes workers store markers map summary) :
    Tabled store markers map summary (store.replaceClusters map) := by
  obtain ⟨hwriting, rfl, -⟩ := h
  have hentries := hwriting.entries
  have hperm := perm_groups store (store.concerned markers)
  refine
    { groups := ⟨_, _, _, lists_seeded store markers, lists_headers store markers,
        lists_excluded store markers, hperm, rfl, rfl, rfl, hentries.lists_keys⟩
      concerned := rfl
      total := ?_
      failedJobs := rfl
      clustered := ⟨rfl, hentries.length_eq⟩
      seeded := fun f hf hbuilt => ?_
      clusterOf := Store.clusterOf_replaceClusters_getD hentries.keys hentries.ascending
      count := fun f a => ?_
      others := rfl }
  · have hlength := hperm.length_eq
    simp only [List.length_append] at hlength
    simp only [summaryOf]
    omega
  · have hseeded := ((lists_seeded store markers).mem_iff f).mpr ⟨hf, hbuilt⟩
    exact ⟨_, Store.ownCluster_ne_nil hbuilt, hentries.seeded f hseeded, rfl⟩
  · have hnodup := Store.nodup_rows hentries.keys hentries.ascending
    simp only [Store.replaceClusters, hnodup.count, Store.mem_rows hentries.keys]

/-- A run succeeds, whatever the tables hold, and its map, its summary and the tables that it leaves
fit together; so they do for all that clustering may come to with several workers. In a transaction
that takes no statements, a run fails and leaves the tables. -/
theorem run_tables (markers : List Marker) (db : Database) :
    (if db.refuses then
      ∃ db', (run markers).run.run db = (.error .engine, db') ∧ db'.store = db.store
    else
      ∃ map summary db', (run markers).run.run db = (.ok (map, summary), db') ∧
        Tabled db.store markers map summary db'.store) ∧
    ∀ workers map summary, Comes workers db.store markers map summary →
      Tabled db.store markers map summary (db.store.replaceClusters map) := by
  refine ⟨?_, fun _ _ _ h => h.tabled⟩
  split
  next hdb => exact run_of_refuses hdb
  next hdb =>
    obtain ⟨db', hrun, hdb'⟩ :=
      (yields_run markers db.store).run (Bool.eq_false_iff.mpr hdb)
    refine ⟨_, _, db', hrun, ?_⟩
    rw [hdb'.store]
    exact (comes_assign (some 1) db.store markers).tabled

end Cluster

end SymbolAtlas
