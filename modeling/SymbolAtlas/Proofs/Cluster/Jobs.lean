import SymbolAtlas.Cluster.Assignment
import SymbolAtlas.Proofs.Cluster.Leaves
import SymbolAtlas.Proofs.Store.Database

/-!
# The jobs of clustering

What the jobs leave in the map that they share.

- **Groups** (`mem_headers`): the headers are the files of concern that are included and not built
  (`Store.Built`).
- **Seeds** (`get?_seeds`): every file that is built gets its own cluster.
- **Headers** (`exists_get?_writeAll`): a header takes in the own clusters of the files that it is
  supplied with (`Supplies`): those where the walk along includers stops, and those that a header
  where it stops was supplied with, if the job of that header came first. Nothing else about the
  order of the jobs matters.
- **Table** (`yields_run`, `clusterOf_replaceClusters`): a run succeeds on a database that takes
  statements, and what it records for a file is the entry of the file.
-/

namespace SymbolAtlas

namespace Store

variable {store : Store} {f : Int}

/-- The file is a source of some action. -/
def Built (store : Store) (f : Int) : Prop := ∃ source ∈ store.sources, source.file = f

instance (store : Store) (f : Int) : Decidable (store.Built f) :=
  inferInstanceAs (Decidable (∃ source ∈ store.sources, source.file = f))

theorem actionsWithSource_eq_nil : store.actionsWithSource f = [] ↔ ¬ store.Built f := by
  simp [actionsWithSource, Built]

/-- A file that is not built has no cluster of its own. -/
theorem ownCluster_eq_nil (h : ¬ store.Built f) : store.ownCluster f = [] := by
  refine List.eq_nil_iff_forall_not_mem.mpr fun a ha => ?_
  obtain ⟨s, hs, -⟩ :=
    Propagation.reached_of_mem_stops (((lists_actionLeaves store _).mem_iff a).mp ha)
  rw [actionsWithSource_eq_nil.mpr h] at hs
  exact List.not_mem_nil hs

theorem built_of_mem_ownCluster {a : Int} (h : a ∈ store.ownCluster f) : store.Built f := by
  by_contra hb
  rw [ownCluster_eq_nil hb] at h
  exact List.not_mem_nil h

/-- What is recorded for a file is its entry in the map. -/
theorem clusterOf_replaceClusters {map : ClusterMap} (hkeys : Ascending.KeysAscending map)
    {cluster : List Int} (hget : Ascending.get? f map = some cluster)
    (hcluster : cluster.Pairwise (· < ·)) : (store.replaceClusters map).clusterOf f = cluster := by
  have hmem : ∀ a, (∃ actions, (f, actions) ∈ map ∧ a ∈ actions) ↔ a ∈ cluster := by
    intro a
    constructor
    · rintro ⟨actions, hentry, ha⟩
      rw [(Ascending.get?_eq_some_iff hkeys).mpr hentry] at hget
      cases hget
      exact ha
    · exact fun ha => ⟨cluster, (Ascending.get?_eq_some_iff hkeys).mp hget, ha⟩
  refine (Ascending.lists_ofList _).unique ⟨hcluster, fun a => ?_⟩
  rw [Set.mem_ofPred_eq, ← hmem a]
  simp only [replaceClusters, ClusterMap.rows, List.mem_map, List.mem_filter, List.mem_flatMap,
    decide_eq_true_eq]
  constructor
  · rintro ⟨actions, hentry, ha⟩
    exact ⟨⟨f, a⟩, ⟨⟨(f, actions), hentry, a, ha, rfl⟩, rfl⟩, rfl⟩
  · rintro ⟨_, ⟨⟨⟨_, actions⟩, hentry, _, ha, rfl⟩, rfl⟩, rfl⟩
    exact ⟨actions, hentry, ha⟩

end Store

namespace Cluster

open Ascending (Lists KeysAscending)
open Propagation (stops)

variable {store : Store} {map : ClusterMap} {order files : List Int} {f h x : Int}

/-! ## Groups -/

/-- The headers that the markers are concerned about, in the order of their jobs in a run with one
worker. -/
def headers (store : Store) (markers : List Marker) : List Int :=
  (Groups.of store (store.concerned markers)).headers

theorem mem_headers {markers : List Marker} :
    h ∈ headers store markers ↔
      h ∈ store.concerned markers ∧ ¬ store.Built h ∧ store.isIncluded h = true := by
  simp [headers, Groups.of, Store.actionsWithSource_eq_nil, and_comm]

theorem nodup_headers (store : Store) (markers : List Marker) : (headers store markers).Nodup := by
  have hconcerned : (store.concerned markers).Nodup :=
    (Ascending.ascending_ofList _).imp ne_of_lt
  simp only [headers, Groups.of, List.partition_eq_filter_filter]
  exact (hconcerned.filter _).filter _

/-! ## Running jobs -/

/-- The map after jobs that each write the entry of a file, computed from the map so far. -/
def writeAll (value : ClusterMap → Int → List Int) (files : List Int) (map : ClusterMap) :
    ClusterMap :=
  files.foldl (fun map file => Ascending.put file (value map file) map) map

section

variable {value : ClusterMap → Int → List Int}

/-- Jobs that only write do not fail. -/
theorem runJobs_write (value : ClusterMap → Int → List Int) (files : List Int)
    (map : ClusterMap) :
    runJobs (files.map fun file map => .ok (Ascending.put file (value map file) map)) map =
      (writeAll value files map, 0) := by
  unfold runJobs
  rw [List.foldl_map]
  induction files generalizing map with
  | nil => rfl
  | cons file files ih => exact ih (Ascending.put file (value map file) map)

theorem keysAscending_writeAll (files : List Int) (hmap : KeysAscending map) :
    KeysAscending (writeAll value files map) := by
  induction files generalizing map with
  | nil => exact hmap
  | cons file files ih => exact ih (Ascending.keysAscending_put _ _ hmap)

theorem writeAll_append_singleton (files : List Int) (last : Int) (map : ClusterMap) :
    writeAll value (files ++ [last]) map =
      Ascending.put last (value (writeAll value files map) last) (writeAll value files map) := by
  simp [writeAll]

theorem get?_writeAll_of_notMem (hf : f ∉ files) :
    Ascending.get? f (writeAll value files map) = Ascending.get? f map := by
  induction files using List.reverseRecOn with
  | nil => rfl
  | append_singleton files last ih =>
    rw [List.mem_append, List.mem_singleton, not_or] at hf
    rw [writeAll_append_singleton, Ascending.get?_put, if_neg hf.2, ih hf.1]

end

/-- What the job of a header writes as its entry. -/
def headerCluster (store : Store) (map : ClusterMap) (header : Int) : List Int :=
  Ascending.ofList ((store.includerLeaves header).flatMap (leafCluster store map))

theorem assignInOrder_map (store : Store) (concerned order : List Int) :
    (assignInOrder store concerned order).1 =
      writeAll (headerCluster store) order
        (writeAll (fun _ => store.ownCluster) (Groups.of store concerned).seeded []) := by
  have hseeds : ∀ files map, runJobs (files.map (seedJob store)) map =
      (writeAll (fun _ => store.ownCluster) files map, 0) :=
    runJobs_write fun _ => store.ownCluster
  have hheaders : ∀ files map, runJobs (files.map (headerJob store)) map =
      (writeAll (headerCluster store) files map, 0) :=
    runJobs_write (headerCluster store)
  simp only [assignInOrder, hseeds, hheaders]

theorem keysAscending_assignInOrder (store : Store) (concerned order : List Int) :
    KeysAscending (assignInOrder store concerned order).1 := by
  rw [assignInOrder_map]
  exact keysAscending_writeAll order (keysAscending_writeAll _ .nil)

/-- The files that are built have their own clusters, and no other file has an entry. -/
theorem get?_seeds (store : Store) (files : List Int) (f : Int) :
    Ascending.get? f (writeAll (fun _ => store.ownCluster) files []) =
      if f ∈ files then some (store.ownCluster f) else none := by
  induction files using List.reverseRecOn with
  | nil => rfl
  | append_singleton files last ih =>
    rw [writeAll_append_singleton, Ascending.get?_put, ih]
    by_cases hf : f = last
    · simp [hf]
    · simp [hf]

/-! ## What headers take in -/

/-- The headers whose jobs come before that of `h`. -/
def ahead (order : List Int) (h : Int) : List Int := order.takeWhile fun x => x ≠ h

theorem ahead_append_of_mem (hh : h ∈ order) (rest : List Int) :
    ahead (order ++ rest) h = ahead order h := by
  induction order with
  | nil => cases hh
  | cons x xs ih =>
    by_cases hx : x = h
    · simp [ahead, hx]
    · have := ih ((List.mem_cons.mp hh).resolve_left (Ne.symm hx))
      simpa [ahead, hx] using this

theorem ahead_append_self (hh : h ∉ order) : ahead (order ++ [h]) h = order := by
  have hne : ∀ x ∈ order, decide (x ≠ h) = true := by
    intro x hx
    rw [decide_eq_true_eq]
    rintro rfl
    exact hh hx
  rw [ahead, List.takeWhile_append_of_pos hne]
  simp

theorem mem_of_mem_ahead (hx : x ∈ ahead order h) : x ∈ order :=
  (List.takeWhile_sublist _).subset hx

/-- The header is supplied with the file: the walk along includers stops there, or at a header
whose job came first and that is supplied with the file. -/
inductive Supplies (store : Store) (order : List Int) : Int → Int → Prop where
  | stop {h f : Int} : f ∈ stops store.IncludedBy {h} → Supplies store order h f
  | entry {h x f : Int} : x ∈ stops store.IncludedBy {h} → x ∈ ahead order h →
      Supplies store order x f → Supplies store order h f

/-- A header is supplied with files that can be reached from it along includers. -/
theorem Supplies.reaches (hs : Supplies store order h f) :
    Relation.ReflTransGen store.IncludedBy h f := by
  have hstop : ∀ {h f : Int}, f ∈ stops store.IncludedBy {h} →
      Relation.ReflTransGen store.IncludedBy h f := by
    intro h f hf
    obtain ⟨_, rfl, hreach⟩ := Propagation.reached_of_mem_stops hf
    exact hreach
  induction hs with
  | stop hf => exact hstop hf
  | entry hx _ _ ih => exact (hstop hx).trans ih

/-- Jobs that come later do not change what a header is supplied with. -/
theorem supplies_append_iff (hh : h ∈ order) (rest : List Int) :
    Supplies store (order ++ rest) h f ↔ Supplies store order h f := by
  constructor
  · intro hs
    induction hs with
    | stop hf => exact .stop hf
    | entry hx hahead _ ih =>
      rw [ahead_append_of_mem hh] at hahead
      exact .entry hx hahead (ih (mem_of_mem_ahead hahead))
  · intro hs
    induction hs with
    | stop hf => exact .stop hf
    | entry hx hahead _ ih =>
      have hmem := mem_of_mem_ahead hahead
      rw [← ahead_append_of_mem hh rest] at hahead
      exact .entry hx hahead (ih hmem)

/-- The actions of the files that a header is supplied with. -/
def supplied (store : Store) (order : List Int) (h : Int) : Set Int :=
  {a | ∃ f, Supplies store order h f ∧ a ∈ store.ownCluster f}

/-- The job of a header, on a map where each header before it has what it is supplied with and all
other entries are own clusters. -/
theorem lists_headerCluster (hh : h ∉ order) (hunbuilt : ∀ x ∈ order, ¬ store.Built x)
    (hheaders : ∀ x ∈ order, ∃ cluster, Ascending.get? x map = some cluster ∧
      Lists cluster (supplied store order x))
    (hothers : ∀ x, x ∉ order → leafCluster store map x = store.ownCluster x) :
    Lists (headerCluster store map h) (supplied store (order ++ [h]) h) := by
  refine (Ascending.lists_ofList _).congr fun a => ?_
  simp only [Set.mem_ofPred_eq, List.mem_flatMap, (Store.lists_includerLeaves store h).mem_iff]
  constructor
  · rintro ⟨x, hx, ha⟩
    by_cases hmem : x ∈ order
    · obtain ⟨cluster, hget, hlists⟩ := hheaders x hmem
      rw [leafCluster, hget, Option.getD_some, hlists.mem_iff] at ha
      obtain ⟨f, hf, ha⟩ := ha
      refine ⟨f, .entry hx ?_ ((supplies_append_iff hmem [h]).mpr hf), ha⟩
      rwa [ahead_append_self hh]
    · rw [hothers x hmem] at ha
      exact ⟨x, .stop hx, ha⟩
  · rintro ⟨f, hf, ha⟩
    cases hf with
    | stop hf =>
      have hmem : f ∉ order := fun hmem => hunbuilt f hmem (Store.built_of_mem_ownCluster ha)
      exact ⟨f, hf, by rwa [hothers f hmem]⟩
    | @entry _ x _ hx hahead hf =>
      rw [ahead_append_self hh] at hahead
      obtain ⟨cluster, hget, hlists⟩ := hheaders x hahead
      refine ⟨x, hx, ?_⟩
      rw [leafCluster, hget, Option.getD_some, hlists.mem_iff]
      exact ⟨f, (supplies_append_iff hahead [h]).mp hf, ha⟩

/-- After all jobs, every header has just what it is supplied with. -/
theorem exists_get?_writeAll (hnodup : order.Nodup) (hunbuilt : ∀ x ∈ order, ¬ store.Built x)
    (hmap : ∀ x, leafCluster store map x = store.ownCluster x) (hh : h ∈ order) :
    ∃ cluster, Ascending.get? h (writeAll (headerCluster store) order map) = some cluster ∧
      Lists cluster (supplied store order h) := by
  -- the jobs one after the other; the invariant is the statement itself, for all headers so far
  induction order using List.reverseRecOn generalizing h with
  | nil => cases hh
  | append_singleton order last ih =>
    obtain ⟨hinit, -, hlast⟩ := List.nodup_append.mp hnodup
    have hlast : last ∉ order := fun hmem => hlast last hmem last (by simp) rfl
    have ih := fun x => @ih x hinit fun y hy => hunbuilt y (List.mem_append_left _ hy)
    rw [writeAll_append_singleton, Ascending.get?_put]
    by_cases hh' : h = last
    · subst hh'
      refine ⟨_, if_pos rfl, lists_headerCluster hlast
        (fun x hx => hunbuilt x (List.mem_append_left _ hx)) ih fun x hx => ?_⟩
      rw [leafCluster, get?_writeAll_of_notMem hx]
      exact hmap x
    · have hmem : h ∈ order := by simpa [hh'] using hh
      obtain ⟨cluster, hget, hlists⟩ := ih h hmem
      refine ⟨cluster, by rw [if_neg hh', hget], hlists.congr fun a => ?_⟩
      exact exists_congr fun f => and_congr_left' (supplies_append_iff hmem _).symm

/-! ## A whole run -/

/-- A run records the map that it computes. -/
theorem yields_run (markers : List Marker) (store : Store) :
    Tx.Yields (run markers) store (assign store markers)
      (store.replaceClusters (assign store markers).1) :=
  Tx.Yields.transaction <| (Tx.Yields.read _ store).bind <|
    (Tx.Yields.write _ store).bind (Tx.Yields.pure _ _)

/-- In an invalidated transaction, a run fails and changes nothing. -/
theorem run_of_refuses {db : Database} (hdb : db.refuses = true) :
    ∃ db', (run markers).run.run db = (.error .engine, db') ∧ db'.store = db.store := by
  have hread : (Tx.read fun store => assign store markers).run.run db.enter =
      (.error .engine, db.enter) :=
    Tx.run_read_of_refuses (by rw [Database.refuses_enter, hdb]) _
  refine ⟨db.enter.leave false, ?_, Database.store_leave_enter db false⟩
  unfold run
  rw [Tx.run_transaction, run_run_bind, hread]
  rfl

/-- The entry of a header, in the map and in the table, when the jobs of the headers ran in any
order. -/
theorem exists_header_entry (store : Store) (markers : List Marker)
    (horder : order.Perm (headers store markers)) (hh : h ∈ headers store markers) :
    ∃ cluster, Ascending.get? h (assignInOrder store (store.concerned markers) order).1 =
        some cluster ∧
      (store.replaceClusters (assignInOrder store (store.concerned markers) order).1).clusterOf h =
        cluster ∧
      Lists cluster (supplied store order h) := by
  have hnodup : order.Nodup := horder.nodup_iff.mpr (nodup_headers store markers)
  have hunbuilt : ∀ x ∈ order, ¬ store.Built x := fun x hx =>
    (mem_headers.mp (horder.mem_iff.mp hx)).2.1
  have hseeds : ∀ x, leafCluster store (writeAll (fun _ => store.ownCluster)
      (Groups.of store (store.concerned markers)).seeded []) x = store.ownCluster x := by
    intro x
    rw [leafCluster, get?_seeds]
    split <;> rfl
  obtain ⟨cluster, hget, hlists⟩ :=
    exists_get?_writeAll hnodup hunbuilt hseeds (horder.mem_iff.mpr hh)
  rw [← assignInOrder_map] at hget
  exact ⟨cluster, hget, Store.clusterOf_replaceClusters (keysAscending_assignInOrder ..) hget
    hlists.ascending, hlists⟩

end Cluster

end SymbolAtlas
