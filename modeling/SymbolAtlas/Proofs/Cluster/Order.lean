import SymbolAtlas.Proofs.Cluster.Headers

/-!
# The order of the jobs of headers

When clustering gives the same result in whatever order the jobs of the headers run.

- **What the order cannot change** (`summary_assignInOrder`, `get?_assignInOrder_of_notMem`): the
  summary, the files with an entry, and the entries of all files that are no headers.
- **Entries of headers** (`stopCluster`): a header whose job runs first takes the actions of the
  files where its walk along includers stops. One of these may be a header itself, and once the
  job of that one has run, its actions are taken as well.
- **Agreement** (`assignInOrder_agree_iff`): so all orders agree just when a header where the walk
  from another one stops never adds to it. They do when no other file includes a file that is
  built; `passedOver` is a store where they do not.
-/

namespace SymbolAtlas.Cluster

open Propagation (stops)

variable {store : Store} {markers : List Marker} {order order' : List Int} {f h x : Int}

/-! ## The entries of all files -/

/-- A file that is no header has its own cluster if it is built, and no entry otherwise. -/
theorem get?_assignInOrder_of_notMem {concerned : List Int} (hf : f ∉ order) :
    Ascending.get? f (assignInOrder store concerned order).1 =
      if f ∈ (Groups.of store concerned).seeded then some (store.ownCluster f) else none := by
  rw [assignInOrder_map, get?_writeAll_of_notMem hf, get?_seeds]

/-- The files with an entry are those that are built and the headers. -/
theorem isSome_get?_assignInOrder (horder : order.Perm (headers store markers)) (f : Int) :
    (Ascending.get? f (assignInOrder store (store.concerned markers) order).1).isSome ↔
      f ∈ (Groups.of store (store.concerned markers)).seeded ∨ f ∈ headers store markers := by
  by_cases hf : f ∈ headers store markers
  · obtain ⟨cluster, hget, -⟩ := exists_header_entry store markers horder hf
    simp [hget, hf]
  · rw [get?_assignInOrder_of_notMem fun hmem => hf (horder.mem_iff.mp hmem)]
    split <;> simp_all

/-- In all orders the same files have an entry. -/
theorem keys_assignInOrder (horder : order.Perm (headers store markers))
    (horder' : order'.Perm (headers store markers)) :
    (assignInOrder store (store.concerned markers) order).1.map Prod.fst =
      (assignInOrder store (store.concerned markers) order').1.map Prod.fst := by
  have hkeys := (keysAscending_assignInOrder store (store.concerned markers) order).lists_keys
  have hkeys' := (keysAscending_assignInOrder store (store.concerned markers) order').lists_keys
  refine hkeys.unique (hkeys'.congr fun f => ?_)
  rw [Set.mem_ofPred_eq, Set.mem_ofPred_eq, isSome_get?_assignInOrder horder,
    isSome_get?_assignInOrder horder']

/-- The summary is the same in all orders. -/
theorem summary_assignInOrder (horder : order.Perm (headers store markers))
    (horder' : order'.Perm (headers store markers)) :
    (assignInOrder store (store.concerned markers) order).2 =
      (assignInOrder store (store.concerned markers) order').2 := by
  have hfailed : ∀ (order : List Int) (map : ClusterMap),
      (runJobs (order.map (headerJob store)) map).2 = 0 := by
    intro order map
    exact congrArg Prod.snd (runJobs_write (headerCluster store) order map)
  have hclustered := congrArg List.length (keys_assignInOrder horder horder')
  rw [List.length_map, List.length_map] at hclustered
  simp only [assignInOrder, Summary.mk.injEq, true_and, hfailed, and_true]
  exact hclustered

/-- Two orders give the same clusters when each header is supplied with the same actions. -/
theorem assignInOrder_eq_iff (horder : order.Perm (headers store markers))
    (horder' : order'.Perm (headers store markers)) :
    assignInOrder store (store.concerned markers) order =
        assignInOrder store (store.concerned markers) order' ↔
      ∀ h ∈ headers store markers, supplied store order h = supplied store order' h := by
  constructor
  · intro heq h hh
    obtain ⟨cluster, hget, -, hlists⟩ := exists_header_entry store markers horder hh
    obtain ⟨cluster', hget', -, hlists'⟩ := exists_header_entry store markers horder' hh
    rw [heq, hget', Option.some.injEq] at hget
    subst hget
    exact Set.ext fun a => (hlists.mem_iff a).symm.trans (hlists'.mem_iff a)
  · intro hall
    refine Prod.ext ((keysAscending_assignInOrder ..).ext (keysAscending_assignInOrder ..)
      fun f => ?_) (summary_assignInOrder horder horder')
    by_cases hf : f ∈ headers store markers
    · obtain ⟨cluster, hget, -, hlists⟩ := exists_header_entry store markers horder hf
      obtain ⟨cluster', hget', -, hlists'⟩ := exists_header_entry store markers horder' hf
      rw [hall f hf] at hlists
      rw [hget, hget', hlists.unique hlists']
    · rw [get?_assignInOrder_of_notMem fun hmem => hf (horder.mem_iff.mp hmem),
        get?_assignInOrder_of_notMem fun hmem => hf (horder'.mem_iff.mp hmem)]

/-! ## What one header adds to another -/

/-- The actions of the files where the walk from `h` along includers stops. -/
def stopCluster (store : Store) (h : Int) : Set Int :=
  {a | ∃ f ∈ stops store.IncludedBy {h}, a ∈ store.ownCluster f}

theorem stopCluster_subset_supplied : stopCluster store h ⊆ supplied store order h := by
  rintro a ⟨f, hf, ha⟩
  exact ⟨f, .stop hf, ha⟩

/-- A header whose job runs first takes in nothing else. -/
theorem supplied_cons_self (h : Int) (order : List Int) :
    supplied store (h :: order) h = stopCluster store h := by
  refine Set.Subset.antisymm ?_ stopCluster_subset_supplied
  rintro a ⟨f, hf, ha⟩
  cases hf with
  | stop hf => exact ⟨f, hf, ha⟩
  | entry _ hahead _ => simp [ahead] at hahead

/-- A header takes in the actions of a header where its walk stops, if the job of that one ran
before. -/
theorem stopCluster_subset_supplied_of_ahead (hx : x ∈ stops store.IncludedBy {h})
    (hahead : x ∈ ahead order h) : stopCluster store x ⊆ supplied store order h := by
  rintro a ⟨f, hf, ha⟩
  exact ⟨f, .entry hx hahead (.stop hf), ha⟩

/-- If no header adds to another, each takes in just the actions of its own stops. -/
theorem supplied_eq_stopCluster
    (hadds : ∀ h ∈ order, ∀ x ∈ order, x ∈ stops store.IncludedBy {h} →
      stopCluster store x ⊆ stopCluster store h)
    (hh : h ∈ order) : supplied store order h = stopCluster store h := by
  refine Set.Subset.antisymm ?_ stopCluster_subset_supplied
  rintro a ⟨f, hf, ha⟩
  induction hf with
  | stop hf => exact ⟨_, hf, ha⟩
  | entry hx hahead _ ih =>
    have hmem := mem_of_mem_ahead hahead
    exact hadds _ hh _ hmem hx (ih hmem ha)

/-- Without includers of files that are built, no header adds to another. -/
theorem stopCluster_subset_of_ends (hends : ∀ f g, store.Built f → ¬ store.IncludedBy f g)
    (hx : x ∈ stops store.IncludedBy {h}) : stopCluster store x ⊆ stopCluster store h := by
  obtain ⟨s, hs, hreach⟩ := Propagation.reached_of_mem_stops hx
  obtain rfl : s = h := hs
  rw [← supplied_cons_self x [], ← supplied_cons_self s []]
  calc supplied store [x] x ⊆ upperCluster store x := supplied_subset_upperCluster
    _ ⊆ upperCluster store s := fun a ⟨f, hxf, ha⟩ => ⟨f, hreach.trans hxf, ha⟩
    _ ⊆ lowerCluster store s := upperCluster_subset_lowerCluster hends
    _ ⊆ supplied store [s] s := lowerCluster_subset_supplied

/-! ## Agreement of all orders -/

/-- If no header adds to another, two orders give the same clusters. -/
theorem assignInOrder_eq_of_stopCluster_subset
    (hadds : ∀ h ∈ headers store markers, ∀ x ∈ headers store markers,
      x ∈ stops store.IncludedBy {h} → stopCluster store x ⊆ stopCluster store h)
    (horder : order.Perm (headers store markers))
    (horder' : order'.Perm (headers store markers)) :
    assignInOrder store (store.concerned markers) order =
      assignInOrder store (store.concerned markers) order' := by
  have hsupplied : ∀ {order : List Int}, order.Perm (headers store markers) →
      ∀ h ∈ headers store markers, supplied store order h = stopCluster store h := by
    intro order horder h hh
    refine supplied_eq_stopCluster (fun h hh x hx => ?_) (horder.mem_iff.mpr hh)
    exact hadds h (horder.mem_iff.mp hh) x (horder.mem_iff.mp hx)
  refine (assignInOrder_eq_iff horder horder').mpr fun h hh => ?_
  rw [hsupplied horder h hh, hsupplied horder' h hh]

/-- If two orders always give the same clusters, no header adds to another: the job of `h` comes
first in one order, and right after that of `x` in the other. -/
theorem stopCluster_subset_of_agree
    (hall : ∀ order order' : List Int, order.Perm (headers store markers) →
      order'.Perm (headers store markers) →
      assignInOrder store (store.concerned markers) order =
        assignInOrder store (store.concerned markers) order')
    (hh : h ∈ headers store markers) (hx : x ∈ headers store markers)
    (hstop : x ∈ stops store.IncludedBy {h}) : stopCluster store x ⊆ stopCluster store h := by
  by_cases hne : x = h
  · rw [hne]
  · have hfirst := (List.perm_cons_erase hh).symm
    have hh' : h ∈ (headers store markers).erase x :=
      (List.mem_erase_of_ne (Ne.symm hne)).mpr hh
    have hsecond := ((List.perm_cons_erase hh').symm.cons x).trans (List.perm_cons_erase hx).symm
    have hsame := (assignInOrder_eq_iff hsecond hfirst).mp (hall _ _ hsecond hfirst) h hh
    rw [supplied_cons_self] at hsame
    rw [← hsame]
    exact stopCluster_subset_supplied_of_ahead hstop (by simp [ahead, hne])

/-- Whether the jobs of the headers may run in any order. The summary and the files with an entry
never depend on it. The clusters do not either just when no header adds an action to another one
whose walk stops there; that is so when no other file includes a file that is built. -/
theorem assignInOrder_agree_iff (store : Store) (markers : List Marker) :
    (∀ order order' : List Int, order.Perm (headers store markers) →
      order'.Perm (headers store markers) →
      (assignInOrder store (store.concerned markers) order).2 =
        (assignInOrder store (store.concerned markers) order').2 ∧
      (assignInOrder store (store.concerned markers) order).1.map Prod.fst =
        (assignInOrder store (store.concerned markers) order').1.map Prod.fst) ∧
    ((∀ order order' : List Int, order.Perm (headers store markers) →
        order'.Perm (headers store markers) →
        assignInOrder store (store.concerned markers) order =
          assignInOrder store (store.concerned markers) order') ↔
      ∀ h ∈ headers store markers, ∀ x ∈ headers store markers,
        x ∈ stops store.IncludedBy {h} → stopCluster store x ⊆ stopCluster store h) ∧
    ((∀ f g, store.Built f → ¬ store.IncludedBy f g) →
      ∀ order : List Int, order.Perm (headers store markers) →
        assignInOrder store (store.concerned markers) order = assign store markers) := by
  refine ⟨fun order order' horder horder' =>
      ⟨summary_assignInOrder horder horder', keys_assignInOrder horder horder'⟩,
    ⟨fun hall h hh x hx => stopCluster_subset_of_agree hall hh hx,
      fun hadds _ _ => assignInOrder_eq_of_stopCluster_subset hadds⟩, fun hends order horder => ?_⟩
  exact assignInOrder_eq_of_stopCluster_subset (fun h _ x _ => stopCluster_subset_of_ends hends)
    horder (.refl _)

/-- The headers 1 and 2 include each other. Files 4 and 5 are built, and 5 includes 4, which is
passed over by the walk from 1, but not by the walk from 2. -/
def passedOver : Store where
  sources := [⟨1, 4, 0⟩, ⟨2, 5, 0⟩]
  targets := [⟨1, 6, 0⟩, ⟨2, 7, 0⟩]
  includes := [⟨2, 1⟩, ⟨3, 1⟩, ⟨4, 1⟩, ⟨1, 2⟩, ⟨3, 2⟩, ⟨5, 3⟩, ⟨5, 4⟩]
  symbols := [⟨42, "f", "function", "definition", 1⟩, ⟨42, "f", "function", "definition", 2⟩]

/-- The cluster of header 1 depends on which job runs first. -/
theorem passedOver_orders_differ :
    [1, 2].Perm (headers passedOver Worded.all) ∧ [2, 1].Perm (headers passedOver Worded.all) ∧
    Ascending.get? 1 (assignInOrder passedOver (passedOver.concerned Worded.all) [1, 2]).1 =
      some [2] ∧
    Ascending.get? 1 (assignInOrder passedOver (passedOver.concerned Worded.all) [2, 1]).1 =
      some [1, 2] ∧
    ¬ ∀ order order' : List Int, order.Perm (headers passedOver Worded.all) →
      order'.Perm (headers passedOver Worded.all) →
      assignInOrder passedOver (passedOver.concerned Worded.all) order =
        assignInOrder passedOver (passedOver.concerned Worded.all) order' := by
  have hfirst : [1, 2].Perm (headers passedOver Worded.all) := by decide
  have hsecond : [2, 1].Perm (headers passedOver Worded.all) := by decide
  refine ⟨hfirst, hsecond, by decide, by decide, fun hall => ?_⟩
  have hsame := hall _ _ hfirst hsecond
  revert hsame
  decide

end SymbolAtlas.Cluster
