import SymbolAtlas.Proofs.Propagation.BreadthFirst

/-!
# Propagation that follows every path

Without the rejection of revisits a key is asked for again each time it is reached, so the frontiers
of a run are the ends of the paths of one length, and then of the next.

- **Paths** (`Path hop x k y`): `k` hops lead from `x` to `y`; `ends hop seeds k` are the keys at
  the end of such a path from a seed. Together they hold what is reachable (`reached_iff_ends`).
- **Cycles** (`exists_ends_empty_iff`): with finitely many keys that hops lead to, the paths are of
  bounded length just when no cycle can be reached. A path that is longer than the number of these
  keys passes through one of them twice, and a cycle can be followed for as long as one likes.
- **One hop** (`AtEnds.step`): a state that stands at the ends of the paths of `k` hops stands at
  those of `k + 1` hops after a step.
- **A whole run** (`AtEnds.runFrom`): hence a run asks for the ends of ever longer paths, and is
  through when there are none. Its leaves are the reachable keys without a hop.
-/

namespace SymbolAtlas.Propagation

open Ascending (Lists)

/-! ## Paths -/

section

variable {K : Type} {hop : K → K → Prop} {seeds : Set K} {j k n : Nat} {x y z : K}

/-- So many hops lead from `x` to a key. -/
inductive Path (hop : K → K → Prop) (x : K) : Nat → K → Prop where
  | start : Path hop x 0 x
  | hop {k : Nat} {y z : K} : Path hop x k y → hop y z → Path hop x (k + 1) z

/-- The keys at the end of a path of `k` hops from a seed. -/
def ends (hop : K → K → Prop) (seeds : Set K) (k : Nat) : Set K :=
  {y | ∃ x ∈ seeds, Path hop x k y}

@[simp] theorem ends_zero : ends hop seeds 0 = seeds := by
  ext y
  constructor
  · rintro ⟨x, hx, hpath⟩
    cases hpath
    exact hx
  · exact fun hy => ⟨y, hy, .start⟩

theorem mem_ends_succ : z ∈ ends hop seeds (k + 1) ↔ ∃ y ∈ ends hop seeds k, hop y z := by
  constructor
  · rintro ⟨x, hx, hpath⟩
    cases hpath with
    | hop hpath hyz => exact ⟨_, ⟨x, hx, hpath⟩, hyz⟩
  · rintro ⟨y, ⟨x, hx, hpath⟩, hyz⟩
    exact ⟨x, hx, hpath.hop hyz⟩

theorem reached_iff_ends : Reached hop seeds y ↔ ∃ k, y ∈ ends hop seeds k := by
  constructor
  · rintro ⟨x, hx, hxy⟩
    induction hxy with
    | refl => exact ⟨0, x, hx, .start⟩
    | tail _ h ih =>
      obtain ⟨k, hk⟩ := ih
      exact ⟨k + 1, mem_ends_succ.mpr ⟨_, hk, h⟩⟩
  · rintro ⟨k, x, hx, hpath⟩
    refine ⟨x, hx, ?_⟩
    induction hpath with
    | start => exact .refl
    | hop _ h ih => exact ih.tail h

theorem ends_nonempty_of_le (hjk : j ≤ k) (h : (ends hop seeds k).Nonempty) :
    (ends hop seeds j).Nonempty := by
  induction hjk with
  | refl => exact h
  | step _ ih =>
    obtain ⟨z, hz⟩ := h
    obtain ⟨y, hy, -⟩ := mem_ends_succ.mp hz
    exact ih ⟨y, hy⟩

/-- The keys that a path passes through, in order. -/
theorem Path.exists_keys (h : Path hop x k y) :
    ∃ key : Nat → K, key 0 = x ∧ key k = y ∧ ∀ i, i < k → hop (key i) (key (i + 1)) := by
  induction h with
  | start => exact ⟨fun _ => x, rfl, rfl, fun i hi => absurd hi (Nat.not_lt_zero i)⟩
  | @hop k y z _ hyz ih =>
    obtain ⟨key, hstart, hend, hkey⟩ := ih
    refine ⟨fun i => if i ≤ k then key i else z, by simpa using hstart, by simp, fun i hi => ?_⟩
    rcases Nat.lt_succ_iff_lt_or_eq.mp hi with hik | rfl
    · simpa [hik.le, Nat.succ_le_of_lt hik] using hkey i hik
    · simpa [hend, Nat.not_succ_le_self] using hyz

theorem transGen_of_keys {key : Nat → K} (hkey : ∀ i, i < n → hop (key i) (key (i + 1)))
    (hjk : j < k) (hkn : k ≤ n) : Relation.TransGen hop (key j) (key k) := by
  induction hjk with
  | refl => exact .single (hkey j hkn)
  | step hlt ih => exact (ih (by omega)).tail (hkey _ hkn)

/-! ## Cycles -/

/-- A cycle of hops can be reached from a seed. -/
def ReachesCycle (hop : K → K → Prop) (seeds : Set K) : Prop :=
  ∃ x, Reached hop seeds x ∧ Relation.TransGen hop x x

/-- From a key on a cycle a hop leads to a key on a cycle. -/
theorem exists_hop_on_cycle (h : Relation.TransGen hop x x) :
    ∃ y, hop x y ∧ Relation.TransGen hop y y := by
  obtain ⟨y, hxy, hyx⟩ := Relation.TransGen.head'_iff.mp h
  exact ⟨y, hxy, Relation.TransGen.tail' hyx hxy⟩

theorem ReachesCycle.ends_nonempty (h : ReachesCycle hop seeds) (n : Nat) :
    (ends hop seeds n).Nonempty := by
  obtain ⟨x, hx, hcycle⟩ := h
  obtain ⟨k, hk⟩ := reached_iff_ends.mp hx
  have hfurther : ∀ m, ∃ y ∈ ends hop seeds (k + m), Relation.TransGen hop y y := by
    intro m
    induction m with
    | zero => exact ⟨x, hk, hcycle⟩
    | succ m ih =>
      obtain ⟨y, hy, hcycle⟩ := ih
      obtain ⟨z, hyz, hcycle⟩ := exists_hop_on_cycle hcycle
      exact ⟨z, mem_ends_succ.mpr ⟨y, hy, hyz⟩, hcycle⟩
  obtain ⟨y, hy, -⟩ := hfurther n
  exact ends_nonempty_of_le (Nat.le_add_left n k) ⟨y, hy⟩

/-- A path that is longer than the number of keys that hops lead to passes through one of them
twice. -/
theorem reachesCycle_of_ends_nonempty {targets : List K} (htargets : ∀ x y, hop x y → y ∈ targets)
    (h : (ends hop seeds (targets.length + 1)).Nonempty) : ReachesCycle hop seeds := by
  classical
  obtain ⟨y, x, hx, hpath⟩ := h
  obtain ⟨key, hstart, -, hkey⟩ := hpath.exists_keys
  have hcard : targets.toFinset.card < (Finset.Icc 1 (targets.length + 1)).card := by
    have := List.toFinset_card_le targets
    rw [Nat.card_Icc]
    omega
  obtain ⟨i, hi, j, hj, hne, heq⟩ := Finset.exists_ne_map_eq_of_card_lt_of_maps_to hcard
    (f := key) fun i hi => by
      obtain ⟨hpos, hle⟩ := Finset.mem_Icc.mp (Finset.mem_coe.mp hi)
      obtain ⟨m, rfl⟩ : ∃ m, i = m + 1 := ⟨i - 1, by omega⟩
      simpa using htargets _ _ (hkey m (by omega))
  -- the two places differ, so that one of them comes first
  wlog hij : i < j generalizing i j
  · exact this j hj i hi hne.symm heq.symm (by omega)
  have hi := Finset.mem_Icc.mp hi
  have hj := Finset.mem_Icc.mp hj
  refine ⟨key i, ⟨x, hx, ?_⟩, ?_⟩
  · rw [← hstart]
    exact (transGen_of_keys hkey hi.1 hi.2).to_reflTransGen
  · have hcycle := transGen_of_keys hkey hij hj.2
    rwa [← heq] at hcycle

/-- The paths from the seeds are of bounded length just when no cycle can be reached. -/
theorem exists_ends_empty_iff {targets : List K} (htargets : ∀ x y, hop x y → y ∈ targets) :
    (∃ k, ends hop seeds k = ∅) ↔ ¬ ReachesCycle hop seeds := by
  constructor
  · rintro ⟨k, hk⟩ hcycle
    exact (hcycle.ends_nonempty k).ne_empty hk
  · intro hacyclic
    refine ⟨targets.length + 1, Set.not_nonempty_iff_eq_empty.mp fun h => hacyclic ?_⟩
    exact reachesCycle_of_ends_nonempty htargets h

end

/-! ## One hop -/

variable {K : Type} [LinearOrder K] {hop : K → K → Prop} {seeds : Set K} {k : Nat}
variable {expand : List K → List (K × Option K)} {permits : K → K → Bool}
variable {rows : List (K × Option K)} {s : State K} {x y : K}

/-- The reachable keys that no hop leads away from, as far as `k` hops have come. -/
def deadEnds (hop : K → K → Prop) (seeds : Set K) (k : Nat) : Set K :=
  {x | ∃ j, j < k ∧ x ∈ ends hop seeds j ∧ ∀ y, ¬ hop x y}

/-- The propagation is about to ask for the ends of the paths of `k` hops. -/
structure AtEnds (hop : K → K → Prop) (seeds : Set K) (k : Nat) (s : State K) : Prop where
  frontier : Lists s.frontier (ends hop seeds k)
  visited : s.visited = none
  leaves : Lists s.leaves (deadEnds hop seeds k)

theorem atEnds_start (starts : List K) :
    AtEnds hop {x | x ∈ starts} 0 (start false starts) where
  frontier := by simpa [start] using Ascending.lists_ofList starts
  visited := rfl
  leaves := ⟨.nil, fun x => by simp [start, deadEnds]⟩

/-- Where nothing counts as visited, every permitted row is followed. -/
theorem State.mem_admitted_of_unvisited (hv : s.visited = none) :
    y ∈ s.admitted permits rows x ↔ (x, some y) ∈ rows ∧ permits x y = true := by
  simp [State.admitted, State.candidates, State.seen, hv, mem_successors]

section

variable (h : AtEnds hop seeds k s)
  (hrows : ∀ x ∈ s.frontier, ∀ y, hop x y ↔ (x, some y) ∈ rows ∧ permits x y = true)

include h hrows

theorem AtEnds.lists_next :
    Lists (Ascending.ofList (s.frontier.flatMap (s.admitted permits rows)))
      (ends hop seeds (k + 1)) := by
  refine (Ascending.lists_ofList _).congr fun y => ?_
  simp only [Set.mem_ofPred_eq, List.mem_flatMap, mem_ends_succ, ← h.frontier.mem_iff,
    State.mem_admitted_of_unvisited h.visited]
  exact exists_congr fun x => and_congr_right fun hx => (hrows x hx y).symm

theorem AtEnds.mem_stopped_iff :
    x ∈ s.frontier.filter (fun key => (s.admitted permits rows key).isEmpty) ↔
      x ∈ ends hop seeds k ∧ ∀ y, ¬ hop x y := by
  rw [List.mem_filter, List.isEmpty_iff, List.eq_nil_iff_forall_not_mem, ← h.frontier.mem_iff]
  refine and_congr_right fun hx => forall_congr' fun y => not_congr ?_
  rw [State.mem_admitted_of_unvisited h.visited, hrows x hx]

/-- A step leads from the ends of paths to those of paths with one more hop. -/
theorem AtEnds.step : AtEnds hop seeds (k + 1) (step permits rows s) where
  frontier := h.lists_next hrows
  visited := by simp [Propagation.step, h.visited]
  leaves := by
    refine (h.leaves.insertAll _).congr fun x => ?_
    simp only [Set.mem_union, Set.mem_ofPred_eq, h.mem_stopped_iff hrows, deadEnds,
      Nat.lt_succ_iff_lt_or_eq]
    constructor
    · rintro (hx | ⟨j, hj, hx⟩)
      · exact ⟨k, .inr rfl, hx⟩
      · exact ⟨j, .inl hj, hx⟩
    · rintro ⟨j, hj | rfl, hx⟩
      · exact .inr ⟨j, hj, hx⟩
      · exact .inl hx

end

/-! ## A whole run -/

section

variable (h : AtEnds hop seeds k s)

include h

theorem AtEnds.frontier_isEmpty : s.frontier.isEmpty = true ↔ ends hop seeds k = ∅ := by
  simp only [List.isEmpty_iff, List.eq_nil_iff_forall_not_mem, h.frontier.mem_iff,
    Set.eq_empty_iff_forall_notMem]

/-- Once the frontier is empty, the leaves are all reachable keys without a hop. -/
theorem AtEnds.lists_leaves (hempty : s.frontier.isEmpty = true) :
    Lists s.leaves {x | Reached hop seeds x ∧ ∀ y, ¬ hop x y} := by
  refine h.leaves.congr fun x => ?_
  simp only [deadEnds, Set.mem_ofPred_eq, reached_iff_ends]
  constructor
  · rintro ⟨j, -, hx, hnone⟩
    exact ⟨⟨j, hx⟩, hnone⟩
  · rintro ⟨⟨j, hx⟩, hnone⟩
    refine ⟨j, Nat.lt_of_not_le fun hkj => ?_, hx, hnone⟩
    exact (ends_nonempty_of_le hkj ⟨x, hx⟩).ne_empty (h.frontier_isEmpty.mp hempty)

end

/-- A run asks for the ends of longer and longer paths. -/
theorem AtEnds.runFrom (hf : Follows expand permits hop) (h : AtEnds hop seeds k s)
    (queries : Nat) :
    ((runFrom expand permits queries s).leaves.isSome ↔ ends hop seeds (k + queries) = ∅) ∧
    (∀ leaves, (runFrom expand permits queries s).leaves = some leaves →
      Lists leaves {x | Reached hop seeds x ∧ ∀ y, ¬ hop x y}) ∧
    (∀ i, i < (runFrom expand permits queries s).frontiers.length ↔
      i < queries ∧ (ends hop seeds (k + i)).Nonempty) ∧
    ∀ i frontier, (runFrom expand permits queries s).frontiers[i]? = some frontier →
      Lists frontier (ends hop seeds (k + i)) := by
  induction queries generalizing k s with
  | zero =>
    simp only [Propagation.runFrom, Nat.add_zero, ← h.frontier_isEmpty]
    by_cases hempty : s.frontier.isEmpty = true
    · simpa [hempty] using h.lists_leaves hempty
    · simp [hempty]
  | succ queries ih =>
    simp only [Propagation.runFrom]
    by_cases hempty : s.frontier.isEmpty = true
    · have hnone : ∀ i, ¬ (ends hop seeds (k + i)).Nonempty := fun i hi =>
        (ends_nonempty_of_le (Nat.le_add_right k i) hi).ne_empty (h.frontier_isEmpty.mp hempty)
      have hlast := Set.not_nonempty_iff_eq_empty.mp (hnone (queries + 1))
      simpa [hempty, hnone, hlast] using h.lists_leaves hempty
    · have hsome := Set.nonempty_iff_ne_empty.mpr (mt h.frontier_isEmpty.mpr hempty)
      obtain ⟨hdone, hleaves, hlength, hfrontiers⟩ := ih (h.step (hf s.frontier))
      simp only [if_neg hempty]
      refine ⟨?_, hleaves, fun i => ?_, fun i frontier hi => ?_⟩
      · rw [hdone, Nat.add_right_comm, Nat.add_assoc]
      · cases i with
        | zero => simpa using hsome
        | succ i =>
          rw [List.length_cons, Nat.add_lt_add_iff_right, Nat.add_lt_add_iff_right, hlength,
            Nat.add_right_comm, Nat.add_assoc]
      · cases i with
        | zero =>
          obtain rfl : s.frontier = frontier := by simpa using hi
          exact h.frontier
        | succ i =>
          have hlists := hfrontiers i frontier (by simpa using hi)
          rwa [Nat.add_right_comm] at hlists

/-- A run over a finite relation. It ends just when no cycle can be reached. The `k`-th query, if
there is one, is for the ends of the paths of `k` hops, and the leaves are the reachable keys that
no hop leads away from. -/
theorem run_by_paths (relation : Finset (K × K)) (hexpand : Answers expand relation)
    (permits : K → K → Bool) (starts : List K) :
    ((∃ queries, (run false expand permits queries starts).leaves.isSome) ↔
      ¬ ReachesCycle (Permitted relation permits) {x | x ∈ starts}) ∧
    ∀ queries,
      ((run false expand permits queries starts).leaves.isSome ↔
        ends (Permitted relation permits) {x | x ∈ starts} queries = ∅) ∧
      (∀ leaves, (run false expand permits queries starts).leaves = some leaves →
        Lists leaves {x | Reached (Permitted relation permits) {x | x ∈ starts} x ∧
          ∀ y, ¬ Permitted relation permits x y}) ∧
      (∀ k, k < (run false expand permits queries starts).frontiers.length ↔
        k < queries ∧ (ends (Permitted relation permits) {x | x ∈ starts} k).Nonempty) ∧
      ∀ k frontier, (run false expand permits queries starts).frontiers[k]? = some frontier →
        Lists frontier (ends (Permitted relation permits) {x | x ∈ starts} k) := by
  have htargets : ∀ x y, Permitted relation permits x y → y ∈ (relation.image Prod.snd).toList :=
    fun x y h => Finset.mem_toList.mpr (Finset.mem_image_of_mem Prod.snd h.1)
  have hrun := (atEnds_start starts).runFrom (hexpand.follows permits)
  simp only [Nat.zero_add] at hrun
  refine ⟨?_, hrun⟩
  rw [← exists_ends_empty_iff htargets]
  exact exists_congr fun queries => (hrun queries).1

/-- Without the hop back to the seed the run ends, and the key at the end of paths of one and of two
hops is asked for twice. With that hop a cycle can be reached. -/
theorem run_by_paths_shortcut :
    Answers (fun _ => [(1, some 3), (1, some 2), (2, some 3), (2, none), (3, some 1)])
        {(1, 2), (1, 3), (2, 3), (3, 1)} ∧
      (run false (fun _ => [(1, some 3), (1, some 2), (2, some 3), (2, none), (3, some 1)])
        (fun _ y => y != 1) 3 [1]).frontiers = [[1], [2, 3], [3]] ∧
      ¬ ReachesCycle (Permitted {(1, 2), (1, 3), (2, 3), (3, 1)} fun _ y => y != 1)
        {x | x ∈ [1]} ∧
      ReachesCycle (Permitted {(1, 2), (1, 3), (2, 3), (3, 1)} fun _ _ => true) {x | x ∈ [1]} := by
  have hexpand : Answers (fun _ => [(1, some 3), (1, some 2), (2, some 3), (2, none), (3, some 1)])
      {(1, 2), (1, 3), (2, 3), (3, 1)} := fun _ x _ y => by simp; tauto
  obtain ⟨hends, -⟩ := run_by_paths _ hexpand (fun _ y => y != 1) [1]
  refine ⟨hexpand, by decide, hends.mp ⟨3, by decide⟩, 1, ⟨1, by simp, .refl⟩, ?_⟩
  exact .head (b := 3) ⟨by decide, rfl⟩ (.single ⟨by decide, rfl⟩)

end SymbolAtlas.Propagation
