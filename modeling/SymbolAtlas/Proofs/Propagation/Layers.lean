import Mathlib.Data.Finset.Card
import Mathlib.Data.Set.Basic
import Mathlib.Logic.Relation
import Mathlib.Order.Interval.Finset.Nat

/-!
# Layers of a relation

A breadth-first walk along `hop` from `seeds`, described without the walk.

- **Layers** (`layer hop seeds k`): the seeds, then the keys one hop from a layer that no layer up
  to it holds. Layers are disjoint (`layer_unique`), together they hold what is reachable
  (`reached_iff`), and no layer follows an empty one (`HasDepth`).
- **Depth** (`layer_eq_empty`): each layer after the seeds takes at least one of the keys that hops
  lead to, so there are no more layers than seeds and such keys.
- **Stops** (`stops hop seeds`): the keys of a layer with no hop into the next one. All of the last
  layer stops (`stops_nonempty`); a key without any hop stops (`mem_stops_of_forall_not_hop`), but
  so does a key whose hops all lead back to its own layer or an earlier one (`mem_stops_iff`).
-/

namespace SymbolAtlas.Propagation

variable {K : Type} {hop : K → K → Prop} {seeds : Set K} {j k n : Nat} {x y : K}

/-- The `k`-th layer: the seeds, then what a hop from the layer before reaches for the first
time. -/
def layer (hop : K → K → Prop) (seeds : Set K) : Nat → Set K
  | 0 => seeds
  | k + 1 =>
    {y | (∀ j, j ≤ k → y ∉ layer hop seeds j) ∧ ∃ x ∈ layer hop seeds k, hop x y}

@[simp] theorem layer_zero : layer hop seeds 0 = seeds := by
  rw [layer]

theorem mem_layer_succ :
    y ∈ layer hop seeds (k + 1) ↔
      (∀ j, j ≤ k → y ∉ layer hop seeds j) ∧ ∃ x ∈ layer hop seeds k, hop x y := by
  rw [layer, Set.mem_ofPred_eq]

theorem notMem_layer_of_lt (hjk : j < k) (hx : x ∈ layer hop seeds k) :
    x ∉ layer hop seeds j := by
  obtain ⟨m, rfl⟩ : ∃ m, k = m + 1 := ⟨k - 1, by omega⟩
  exact (mem_layer_succ.mp hx).1 j (by omega)

theorem layer_unique (hj : x ∈ layer hop seeds j) (hk : x ∈ layer hop seeds k) : j = k := by
  rcases Nat.lt_trichotomy j k with h | h | h
  · exact absurd hj (notMem_layer_of_lt h hk)
  · exact h
  · exact absurd hk (notMem_layer_of_lt h hj)

/-- A hop leads at most one layer further. -/
theorem exists_layer_of_hop (hx : x ∈ layer hop seeds k) (h : hop x y) :
    ∃ j, j ≤ k + 1 ∧ y ∈ layer hop seeds j := by
  by_cases hy : ∃ j, j ≤ k ∧ y ∈ layer hop seeds j
  · obtain ⟨j, hj, hy⟩ := hy
    exact ⟨j, by omega, hy⟩
  · refine ⟨k + 1, Nat.le_refl _, mem_layer_succ.mpr ⟨fun j hj hyj => hy ⟨j, hj, hyj⟩, x, hx, h⟩⟩

/-- The key can be reached from a seed. -/
def Reached (hop : K → K → Prop) (seeds : Set K) (x : K) : Prop :=
  ∃ s ∈ seeds, Relation.ReflTransGen hop s x

theorem reached_of_mem_layer (hx : x ∈ layer hop seeds k) : Reached hop seeds x := by
  induction k generalizing x with
  | zero => exact ⟨x, by simpa using hx, .refl⟩
  | succ k ih =>
    obtain ⟨-, w, hw, hwx⟩ := mem_layer_succ.mp hx
    obtain ⟨s, hs, hsw⟩ := ih hw
    exact ⟨s, hs, hsw.tail hwx⟩

/-- The layers together hold what is reachable. -/
theorem reached_iff : Reached hop seeds x ↔ ∃ k, x ∈ layer hop seeds k := by
  refine ⟨?_, fun ⟨k, hk⟩ => reached_of_mem_layer hk⟩
  rintro ⟨s, hs, hsx⟩
  induction hsx with
  | refl => exact ⟨0, by simpa using hs⟩
  | tail _ h ih =>
    obtain ⟨k, hk⟩ := ih
    obtain ⟨j, -, hj⟩ := exists_layer_of_hop hk h
    exact ⟨j, hj⟩

/-! ## The number of layers -/

theorem layer_nonempty_of_le (hjk : j ≤ k) (h : (layer hop seeds k).Nonempty) :
    (layer hop seeds j).Nonempty := by
  induction hjk with
  | refl => exact h
  | step _ ih =>
    obtain ⟨y, hy⟩ := h
    obtain ⟨-, x, hx, -⟩ := mem_layer_succ.mp hy
    exact ih ⟨x, hx⟩

/-- There are `n` layers that are not empty, the first `n` of them. -/
def HasDepth (hop : K → K → Prop) (seeds : Set K) (n : Nat) : Prop :=
  ∀ k, (layer hop seeds k).Nonempty ↔ k < n

theorem exists_hasDepth (h : layer hop seeds n = ∅) : ∃ d, d ≤ n ∧ HasDepth hop seeds d := by
  classical
  have hex : ∃ m, layer hop seeds m = ∅ := ⟨n, h⟩
  refine ⟨Nat.find hex, Nat.find_min' hex h, fun k => ⟨fun hk => ?_, fun hk => ?_⟩⟩
  · refine Nat.lt_of_not_le fun hle => ?_
    have := layer_nonempty_of_le hle hk
    rw [Nat.find_spec hex] at this
    exact Set.not_nonempty_empty this
  · exact Set.nonempty_iff_ne_empty.mpr (Nat.find_min hex hk)

/-- There are no more layers than seeds and keys that hops lead to. -/
theorem layer_eq_empty (starts : List K) {targets : List K}
    (htargets : ∀ x y, hop x y → y ∈ targets) :
    layer hop {x | x ∈ starts} (starts.length + targets.length) = ∅ := by
  classical
  by_contra hne
  have hlast := Set.nonempty_iff_ne_empty.mpr hne
  have : Nonempty K := ⟨hlast.some⟩
  -- one key out of each layer after the seeds: all different, and all among the targets
  choose! pick hpick using fun k (hk : k ≤ starts.length + targets.length) =>
    layer_nonempty_of_le hk hlast
  have hstarts : 0 < starts.length := by
    have := hpick 0 (Nat.zero_le _)
    rw [layer_zero] at this
    exact List.length_pos_of_mem this
  have hcard := Finset.card_le_card_of_injOn (t := targets.toFinset) pick
    (s := Finset.Icc 1 (starts.length + targets.length))
    (fun k hk => by
      obtain ⟨h1, hk⟩ := Finset.mem_Icc.mp (Finset.mem_coe.mp hk)
      obtain ⟨m, rfl⟩ : ∃ m, k = m + 1 := ⟨k - 1, by omega⟩
      obtain ⟨-, x, -, hx⟩ := mem_layer_succ.mp (hpick _ hk)
      simpa using htargets _ _ hx)
    (fun i hi j hj hij => by
      have hi := hpick i (Finset.mem_Icc.mp (Finset.mem_coe.mp hi)).2
      rw [hij] at hi
      exact layer_unique hi (hpick j (Finset.mem_Icc.mp (Finset.mem_coe.mp hj)).2))
  have := List.toFinset_card_le targets
  rw [Nat.card_Icc] at hcard
  omega

/-! ## Where a walk stops -/

/-- The keys of the `k`-th layer with no hop into the next one. -/
def stopsAt (hop : K → K → Prop) (seeds : Set K) (k : Nat) : Set K :=
  {x | x ∈ layer hop seeds k ∧ ∀ y ∈ layer hop seeds (k + 1), ¬ hop x y}

/-- The keys of any layer with no hop into the next one. -/
def stops (hop : K → K → Prop) (seeds : Set K) : Set K := {x | ∃ k, x ∈ stopsAt hop seeds k}

/-- A key stops when all its hops lead to its own layer or to an earlier one. -/
theorem mem_stopsAt_iff (hx : x ∈ layer hop seeds k) :
    x ∈ stopsAt hop seeds k ↔ ∀ y, hop x y → ∃ j, j ≤ k ∧ y ∈ layer hop seeds j := by
  refine ⟨fun h y hxy => ?_, fun h => ⟨hx, fun y hy hxy => ?_⟩⟩
  · obtain ⟨j, hj, hy⟩ := exists_layer_of_hop hx hxy
    rcases Nat.lt_or_ge k j with hkj | hkj
    · obtain rfl : j = k + 1 := by omega
      exact absurd hxy (h.2 y hy)
    · exact ⟨j, hkj, hy⟩
  · obtain ⟨j, hj, hyj⟩ := h y hxy
    exact notMem_layer_of_lt (by omega) hy hyj

theorem mem_stops_iff :
    x ∈ stops hop seeds ↔ ∃ k, x ∈ layer hop seeds k ∧
      ∀ y, hop x y → ∃ j, j ≤ k ∧ y ∈ layer hop seeds j :=
  exists_congr fun _ => ⟨fun h => ⟨h.1, (mem_stopsAt_iff h.1).mp h⟩,
    fun h => (mem_stopsAt_iff h.1).mpr h.2⟩

theorem reached_of_mem_stops (h : x ∈ stops hop seeds) : Reached hop seeds x :=
  let ⟨_, hk⟩ := h
  reached_of_mem_layer hk.1

theorem mem_stops_of_forall_not_hop (hx : Reached hop seeds x) (h : ∀ y, ¬ hop x y) :
    x ∈ stops hop seeds := by
  obtain ⟨k, hk⟩ := reached_iff.mp hx
  exact ⟨k, hk, fun y _ => h y⟩

/-- The last layer stops, so something does unless there are no seeds. -/
theorem stops_nonempty (hn : HasDepth hop seeds n) :
    (stops hop seeds).Nonempty ↔ seeds.Nonempty := by
  constructor
  · rintro ⟨x, hx⟩
    obtain ⟨s, hs, -⟩ := reached_of_mem_stops hx
    exact ⟨s, hs⟩
  · intro hs
    have hpos : 0 < n := (hn 0).mp (by simpa using hs)
    obtain ⟨x, hx⟩ := (hn (n - 1)).mpr (by omega)
    refine ⟨x, n - 1, hx, fun y hy => ?_⟩
    have := (hn (n - 1 + 1)).mp ⟨y, hy⟩
    omega

end SymbolAtlas.Propagation
