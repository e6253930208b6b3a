import SymbolAtlas.Proofs.Cluster.Jobs

/-!
# What the cluster of a header holds

A header is a file of concern that is included and not built. Three sets of actions to compare its
entry with:

- `upperCluster store h`: of all files that can be reached from the header along includers.
- `lowerCluster store h`: of those among them that no other file includes.
- `includerCluster store h`: of the files that are built and include the header, directly or
  through other files.

In every order of the jobs the entry lies between the lower and the upper set. It holds actions of
such includers only, but not always of all of them: where the walk passes over a file that is built,
because a file further on includes that one, the actions of the former are left out.
-/

namespace SymbolAtlas.Cluster

open Ascending (Lists)

variable {store : Store} {order : List Int} {a f h : Int}

/-- The actions of the files that can be reached from `h` along includers. -/
def upperCluster (store : Store) (h : Int) : Set Int :=
  {a | ∃ f, Relation.ReflTransGen store.IncludedBy h f ∧ a ∈ store.ownCluster f}

/-- The actions of the files that can be reached from `h` along includers and that no other file
includes. -/
def lowerCluster (store : Store) (h : Int) : Set Int :=
  {a | ∃ f, Relation.ReflTransGen store.IncludedBy h f ∧ (∀ g, ¬ store.IncludedBy f g) ∧
    a ∈ store.ownCluster f}

/-- The actions of the files that are built and include `h`, directly or through other files. -/
def includerCluster (store : Store) (h : Int) : Set Int :=
  {a | ∃ f, store.Built f ∧ Relation.TransGen store.IncludedBy h f ∧ a ∈ store.ownCluster f}

/-- Of a header, which is not built, only its includers count. -/
theorem upperCluster_eq_includerCluster (hh : ¬ store.Built h) :
    upperCluster store h = includerCluster store h := by
  ext a
  constructor
  · rintro ⟨f, hreach, ha⟩
    have hf := Store.built_of_mem_ownCluster ha
    rcases Relation.reflTransGen_iff_eq_or_transGen.mp hreach with rfl | htrans
    · exact absurd hf hh
    · exact ⟨f, hf, htrans, ha⟩
  · rintro ⟨f, -, htrans, ha⟩
    exact ⟨f, htrans.to_reflTransGen, ha⟩

/-- A file that no other file includes is where the walk stops. -/
theorem lowerCluster_subset_supplied : lowerCluster store h ⊆ supplied store order h := by
  rintro a ⟨f, hreach, hnone, ha⟩
  exact ⟨f, .stop (Propagation.mem_stops_of_forall_not_hop ⟨h, rfl, hreach⟩ hnone), ha⟩

theorem supplied_subset_upperCluster : supplied store order h ⊆ upperCluster store h := by
  rintro a ⟨f, hf, ha⟩
  exact ⟨f, hf.reaches, ha⟩

/-- Without includers of files that are built, the bounds meet. -/
theorem upperCluster_subset_lowerCluster (hends : ∀ f g, store.Built f → ¬ store.IncludedBy f g) :
    upperCluster store h ⊆ lowerCluster store h := by
  rintro a ⟨f, hreach, ha⟩
  exact ⟨f, hreach, fun g => hends f g (Store.built_of_mem_ownCluster ha), ha⟩

/-- In whatever order the jobs of the headers run, the entry of each header lies between the two
bounds; when no other file includes a file that is built, it is just what the built includers of
the header have. -/
theorem header_entry_between (store : Store) (markers : List Marker) (order : List Int)
    (horder : order.Perm (headers store markers)) (h : Int) (hh : h ∈ headers store markers) :
    ∃ cluster, Ascending.get? h (assignInOrder store (store.concerned markers) order).1 =
        some cluster ∧
      (store.replaceClusters (assignInOrder store (store.concerned markers) order).1).clusterOf h =
        cluster ∧
      lowerCluster store h ⊆ {a | a ∈ cluster} ∧ {a | a ∈ cluster} ⊆ upperCluster store h ∧
      ((∀ f g, store.Built f → ¬ store.IncludedBy f g) →
        {a | a ∈ cluster} = includerCluster store h) := by
  obtain ⟨cluster, hget, hrecorded, hlists⟩ := exists_header_entry store markers horder hh
  have hcluster : {a | a ∈ cluster} = supplied store order h := Set.ext hlists.mem_iff
  refine ⟨cluster, hget, hrecorded, ?_, ?_, fun hends => ?_⟩
  · rw [hcluster]; exact lowerCluster_subset_supplied
  · rw [hcluster]; exact supplied_subset_upperCluster
  · rw [hcluster, ← upperCluster_eq_includerCluster (mem_headers.mp hh).2.1]
    exact supplied_subset_upperCluster.antisymm
      ((upperCluster_subset_lowerCluster hends).trans lowerCluster_subset_supplied)

/-- Two headers that include each other, one of them included by a file that is built. -/
def ring : Store where
  sources := [⟨1, 3, 0⟩]
  targets := [⟨1, 4, 0⟩]
  includes := [⟨2, 1⟩, ⟨1, 2⟩, ⟨3, 1⟩]
  symbols := [⟨7, "f", "function", "definition", 1⟩, ⟨7, "f", "function", "definition", 2⟩]

theorem header_entry_between_ring :
    [2, 1].Perm (headers ring [.functions]) ∧ 1 ∈ headers ring [.functions] ∧
    (∀ f g, ring.Built f → ¬ ring.IncludedBy f g) ∧
    ∃ cluster, Ascending.get? 1 (assignInOrder ring (ring.concerned [.functions]) [2, 1]).1 =
        some cluster ∧ {a | a ∈ cluster} = includerCluster ring 1 := by
  have hrows : ∀ source ∈ ring.sources, ∀ row ∈ ring.includes, row.included ≠ source.file := by
    decide
  have hends : ∀ f g, ring.Built f → ¬ ring.IncludedBy f g := by
    rintro f g ⟨source, hs, rfl⟩ ⟨-, hrow⟩
    exact hrows source hs _ hrow rfl
  obtain ⟨cluster, hget, -, -, -, heq⟩ :=
    header_entry_between ring [.functions] [2, 1] (by decide) 1 (by decide)
  exact ⟨by decide, by decide, hends, cluster, hget, heq hends⟩

/-! ## What a run records -/

/-- What a run records for a header, and when that is what all its built includers have: when the
actions of each that the header is not supplied with are those of others that it is supplied
with. -/
theorem run_header_entry (markers : List Marker) (db : Database) (hdb : db.refuses = false)
    (h : Int) (hconcerned : h ∈ db.store.concerned markers) (hunbuilt : ¬ db.store.Built h)
    (hincluded : db.store.isIncluded h = true) :
    ∃ map summary db' cluster,
      (run markers).run.run db = (.ok (map, summary), db') ∧
      Ascending.get? h map = some cluster ∧ db'.store.clusterOf h = cluster ∧
      {a | a ∈ cluster} = supplied db.store (headers db.store markers) h ∧
      {a | a ∈ cluster} ⊆ includerCluster db.store h ∧
      ({a | a ∈ cluster} = includerCluster db.store h ↔
        ∀ f, db.store.Built f → Relation.TransGen db.store.IncludedBy h f →
          ¬ Supplies db.store (headers db.store markers) h f →
          ∀ a ∈ db.store.ownCluster f, a ∈ supplied db.store (headers db.store markers) h) := by
  have hh : h ∈ headers db.store markers := mem_headers.mpr ⟨hconcerned, hunbuilt, hincluded⟩
  obtain ⟨cluster, hget, hrecorded, hlists⟩ := exists_header_entry db.store markers (.refl _) hh
  have hcluster : {a | a ∈ cluster} = supplied db.store (headers db.store markers) h :=
    Set.ext hlists.mem_iff
  have hsub : {a | a ∈ cluster} ⊆ includerCluster db.store h := by
    rw [hcluster, ← upperCluster_eq_includerCluster hunbuilt]
    exact supplied_subset_upperCluster
  obtain ⟨db', hrun, hdb'⟩ := (yields_run markers db.store).run hdb
  refine ⟨(assign db.store markers).1, (assign db.store markers).2, db', cluster, hrun, hget,
    ?_, hcluster, hsub, fun heq f hf htrans _ a ha => ?_, fun hall => hsub.antisymm ?_⟩
  · rw [hdb'.store]; exact hrecorded
  · rw [← hcluster, heq]
    exact ⟨f, hf, htrans, ha⟩
  · rintro a ⟨f, hf, htrans, ha⟩
    rw [hcluster]
    by_cases hsupplies : Supplies db.store (headers db.store markers) h f
    · exact ⟨f, hsupplies, ha⟩
    · exact hall f hf htrans hsupplies a ha

/-- File 2 is built, includes the header 1, and is included by file 3, which is built too. -/
def includedSource : Store where
  sources := [⟨1, 2, 0⟩, ⟨2, 3, 0⟩]
  targets := [⟨1, 4, 0⟩, ⟨2, 5, 0⟩]
  includes := [⟨2, 1⟩, ⟨3, 2⟩]
  symbols := [⟨42, "f", "function", "definition", 1⟩, ⟨42, "f", "function", "definition", 2⟩]

theorem run_header_entry_includedSource :
    (Database.mk includedSource includedSource 0 false).refuses = false ∧
    1 ∈ includedSource.concerned Worded.all ∧ ¬ includedSource.Built 1 ∧
    includedSource.isIncluded 1 = true ∧
    ∃ map summary db' cluster,
      (run Worded.all).run.run ⟨includedSource, includedSource, 0, false⟩ =
        (.ok (map, summary), db') ∧
      Ascending.get? 1 map = some cluster ∧ db'.store.clusterOf 1 = cluster ∧
      {a | a ∈ cluster} ⊆ includerCluster includedSource 1 := by
  obtain ⟨map, summary, db', cluster, hrun, hget, hrecorded, -, hsub, -⟩ :=
    run_header_entry Worded.all ⟨includedSource, includedSource, 0, false⟩ rfl 1 (by decide)
      (by decide) (by decide)
  exact ⟨rfl, by decide, by decide, by decide, map, summary, db', cluster, hrun, hget, hrecorded,
    hsub⟩

/-- The action of the file in the middle is missing from the cluster of the header. -/
theorem includedSource_forgotten :
    1 ∈ includedSource.concerned Worded.all ∧ ¬ includedSource.Built 1 ∧
    includedSource.isIncluded 1 = true ∧
    ((run Worded.all).run.run ⟨includedSource, includedSource, 0, false⟩).1 =
      .ok (assign includedSource Worded.all) ∧
    Ascending.get? 1 (assign includedSource Worded.all).1 = some [2] ∧
    1 ∈ includerCluster includedSource 1 ∧
    {a | a ∈ [2]} ≠ includerCluster includedSource 1 := by
  have hincluder : (1 : Int) ∈ includerCluster includedSource 1 :=
    ⟨2, by decide, .single (by decide), by decide⟩
  refine ⟨by decide, by decide, by decide, rfl, by decide, hincluder, fun heq => ?_⟩
  rw [← heq] at hincluder
  revert hincluder
  decide

end SymbolAtlas.Cluster
