import Mathlib.Data.Finset.Prod
import SymbolAtlas.Proofs.Ascending
import SymbolAtlas.Proofs.Propagation.Layers
import SymbolAtlas.Propagation

/-!
# Propagation that rejects revisits

The frontiers of a run are the layers of the relation that it follows, and its leaves are the keys
where the layers stop.

- **Hops** (`Follows expand permits hop`): `hop` is what the rows for a frontier and the admission
  test make of it. Rows may be repeated, in any order, without a successor, or about keys that were
  not asked for.
- **One hop** (`AtLayer.step`): a state that stands at a layer (`AtLayer hop seeds k`) stands at the
  next one after a step.
- **A whole run** (`AtLayer.runFrom`): hence a run asks for one layer after the other and ends after
  the last one that is not empty. `lists_leaves` is what callers need of it.
-/

namespace SymbolAtlas.Propagation

open Ascending (Lists)

variable {K : Type} [LinearOrder K] {hop : K → K → Prop} {seeds : Set K} {k n : Nat}
variable {expand : List K → List (K × Option K)} {permits : K → K → Bool}
variable {rows : List (K × Option K)} {s : State K} {x y : K}

theorem mem_successors : y ∈ successors rows x ↔ (x, some y) ∈ rows := by
  simp only [successors, List.mem_filterMap, Prod.exists]
  constructor
  · rintro ⟨key, next, hmem, h⟩
    split at h
    · rename_i hkey
      rw [hkey, h] at hmem
      exact hmem
    · cases h
  · intro h
    exact ⟨x, some y, h, if_pos rfl⟩

theorem State.mem_admitted {visited : List K} (hv : s.visited = some visited) :
    y ∈ s.admitted permits rows x ↔
      ((x, some y) ∈ rows ∧ permits x y = true) ∧ y ∉ visited := by
  simp only [State.admitted, State.candidates, State.seen, hv, List.mem_filter, mem_successors]
  simp [and_right_comm]

/-- A hop is a row for a key of the frontier that the admission test lets through. -/
def Follows (expand : List K → List (K × Option K)) (permits : K → K → Bool)
    (hop : K → K → Prop) : Prop :=
  ∀ frontier, ∀ x ∈ frontier, ∀ y, hop x y ↔ (x, some y) ∈ expand frontier ∧ permits x y = true

/-! ## One hop -/

/-- The propagation is about to ask for the `k`-th layer. -/
structure AtLayer (hop : K → K → Prop) (seeds : Set K) (k : Nat) (s : State K) : Prop where
  frontier : Lists s.frontier (layer hop seeds k)
  visited : ∃ visited, s.visited = some visited ∧
    ∀ x, x ∈ visited ↔ ∃ j, j ≤ k ∧ x ∈ layer hop seeds j
  leaves : Lists s.leaves {x | ∃ j, j < k ∧ x ∈ stopsAt hop seeds j}

theorem atLayer_start (starts : List K) :
    AtLayer hop {x | x ∈ starts} 0 (start true starts) where
  frontier := by simpa [start] using Ascending.lists_ofList starts
  visited := ⟨Ascending.ofList starts, rfl, fun x => by simp⟩
  leaves := ⟨.nil, fun x => by simp [start]⟩

section

variable (h : AtLayer hop seeds k s)
  (hrows : ∀ x ∈ s.frontier, ∀ y, hop x y ↔ (x, some y) ∈ rows ∧ permits x y = true)

include h hrows

/-- What a key of the frontier is followed to: its hops into the next layer. -/
theorem AtLayer.mem_admitted (hx : x ∈ s.frontier) :
    y ∈ s.admitted permits rows x ↔ hop x y ∧ y ∈ layer hop seeds (k + 1) := by
  obtain ⟨visited, hv, hmem⟩ := h.visited
  rw [State.mem_admitted hv, ← hrows x hx, hmem, mem_layer_succ]
  constructor
  · rintro ⟨hxy, hnew⟩
    exact ⟨hxy, fun j hj hy => hnew ⟨j, hj, hy⟩, x, (h.frontier.mem_iff x).mp hx, hxy⟩
  · rintro ⟨hxy, hnew, -⟩
    exact ⟨hxy, fun ⟨j, hj, hy⟩ => hnew j hj hy⟩

theorem AtLayer.lists_next :
    Lists (Ascending.ofList (s.frontier.flatMap (s.admitted permits rows)))
      (layer hop seeds (k + 1)) := by
  refine (Ascending.lists_ofList _).congr fun y => ?_
  simp only [Set.mem_ofPred_eq, List.mem_flatMap]
  constructor
  · rintro ⟨x, hx, hy⟩
    exact ((h.mem_admitted hrows hx).mp hy).2
  · intro hy
    obtain ⟨-, x, hx, hxy⟩ := mem_layer_succ.mp hy
    have hx := (h.frontier.mem_iff x).mpr hx
    exact ⟨x, hx, (h.mem_admitted hrows hx).mpr ⟨hxy, hy⟩⟩

theorem AtLayer.mem_stopped_iff :
    x ∈ s.frontier.filter (fun key => (s.admitted permits rows key).isEmpty) ↔
      x ∈ stopsAt hop seeds k := by
  rw [List.mem_filter, List.isEmpty_iff, List.eq_nil_iff_forall_not_mem]
  constructor
  · rintro ⟨hx, hnone⟩
    refine ⟨(h.frontier.mem_iff x).mp hx, fun y hy hxy => hnone y ?_⟩
    exact (h.mem_admitted hrows hx).mpr ⟨hxy, hy⟩
  · rintro ⟨hx, hnone⟩
    have hx := (h.frontier.mem_iff x).mpr hx
    refine ⟨hx, fun y hy => ?_⟩
    obtain ⟨hxy, hy⟩ := (h.mem_admitted hrows hx).mp hy
    exact hnone y hy hxy

/-- A step leads from a layer to the next one. -/
theorem AtLayer.step : AtLayer hop seeds (k + 1) (step permits rows s) := by
  have hnext := h.lists_next hrows
  refine ⟨hnext, ?_, ?_⟩
  · obtain ⟨visited, hv, hmem⟩ := h.visited
    refine ⟨_, by simp only [Propagation.step, hv, Option.map_some]; rfl, fun x => ?_⟩
    simp only [List.mem_append, hmem, hnext.mem_iff, Nat.le_succ_iff]
    constructor
    · rintro (⟨j, hj, hx⟩ | hx)
      · exact ⟨j, .inl hj, hx⟩
      · exact ⟨k + 1, .inr rfl, hx⟩
    · rintro ⟨j, hj | rfl, hx⟩
      · exact .inl ⟨j, hj, hx⟩
      · exact .inr hx
  · refine (h.leaves.insertAll _).congr fun x => ?_
    simp only [Set.mem_union, Set.mem_ofPred_eq, h.mem_stopped_iff hrows,
      Nat.lt_succ_iff_lt_or_eq]
    constructor
    · rintro (hx | ⟨j, hj, hx⟩)
      · exact ⟨k, .inr rfl, hx⟩
      · exact ⟨j, .inl hj, hx⟩
    · rintro ⟨j, hj | rfl, hx⟩
      · exact .inr ⟨j, hj, hx⟩
      · exact .inl hx

end

/-! ## A whole run -/

theorem AtLayer.frontier_isEmpty (h : AtLayer hop seeds k s) (hn : HasDepth hop seeds n) :
    s.frontier.isEmpty = true ↔ n ≤ k := by
  rw [List.isEmpty_iff, List.eq_nil_iff_forall_not_mem, ← Nat.not_lt, ← hn k]
  simp only [h.frontier.mem_iff, Set.Nonempty, not_exists]

/-- Past the last layer, the leaves are all the keys that stop. -/
theorem AtLayer.lists_stops (h : AtLayer hop seeds k s) (hn : HasDepth hop seeds n)
    (hk : n ≤ k) : Lists s.leaves (stops hop seeds) := by
  refine h.leaves.congr fun x => ⟨fun ⟨j, _, hx⟩ => ⟨j, hx⟩, fun ⟨j, hx⟩ => ⟨j, ?_, hx⟩⟩
  have := (hn j).mp ⟨x, hx.1⟩
  omega

/-- A run from the `k`-th layer on: it needs one query for every layer that is left, which asks
for just that layer. -/
theorem AtLayer.runFrom (h : AtLayer hop seeds k s) (hf : Follows expand permits hop)
    (hn : HasDepth hop seeds n) (hk : k ≤ n) (queries : Nat) :
    ((runFrom expand permits queries s).leaves.isSome ↔ n ≤ k + queries) ∧
    (n ≤ k + queries →
      (runFrom expand permits queries s).frontiers.length = n - k ∧
      (∀ i frontier, (runFrom expand permits queries s).frontiers[i]? = some frontier →
        Lists frontier (layer hop seeds (k + i))) ∧
      ∀ leaves, (runFrom expand permits queries s).leaves = some leaves →
        Lists leaves (stops hop seeds)) := by
  induction queries generalizing k s with
  | zero =>
    simp only [Propagation.runFrom, Nat.add_zero]
    by_cases hempty : s.frontier.isEmpty = true
    · have hnk := (h.frontier_isEmpty hn).mp hempty
      simpa [hempty, hnk, Nat.sub_eq_zero_of_le] using h.lists_stops hn hnk
    · have hnk := mt (h.frontier_isEmpty hn).mpr hempty
      simp [hempty, hnk]
  | succ queries ih =>
    simp only [Propagation.runFrom]
    by_cases hempty : s.frontier.isEmpty = true
    · have hnk := (h.frontier_isEmpty hn).mp hempty
      simpa [hempty, hnk, Nat.sub_eq_zero_of_le, Nat.le_add_right_of_le] using h.lists_stops hn hnk
    · have hnk := mt (h.frontier_isEmpty hn).mpr hempty
      obtain ⟨hsome, hrest⟩ := ih (h.step (hf s.frontier)) (by omega)
      have hbound : k + 1 + queries = k + (queries + 1) := by omega
      rw [hbound] at hsome hrest
      simp only [if_neg hempty]
      refine ⟨hsome, fun hle => ?_⟩
      obtain ⟨hlen, hfront, hleaves⟩ := hrest hle
      refine ⟨by simp only [List.length_cons, hlen]; omega, fun i frontier hi => ?_, hleaves⟩
      cases i with
      | zero =>
        obtain rfl : s.frontier = frontier := by simpa using hi
        exact h.frontier
      | succ i =>
        have := hfront i frontier (by simpa using hi)
        rwa [Nat.add_right_comm] at this

/-- The leaves of a run that is allowed a query for every seed and every key that hops lead to. -/
theorem lists_leaves (hf : Follows expand permits hop) {starts : List K} (targets : List K)
    (htargets : ∀ x y, hop x y → y ∈ targets) {queries : Nat}
    (hqueries : starts.length + targets.length ≤ queries) :
    Lists ((run true expand permits queries starts).leaves.getD [])
      (stops hop {x | x ∈ starts}) := by
  obtain ⟨n, hle, hn⟩ := exists_hasDepth (layer_eq_empty starts htargets)
  obtain ⟨hsome, hrun⟩ := (atLayer_start starts).runFrom hf hn (Nat.zero_le n) queries
  have hnq : n ≤ 0 + queries := by omega
  obtain ⟨leaves, hleaves⟩ := Option.isSome_iff_exists.mp (hsome.mpr hnq)
  rw [run, hleaves]
  exact (hrun hnq).2.2 leaves hleaves

/-! ## Finite relations -/

/-- Asked for a frontier, `expand` gives for each of its keys the rows of the relation. Nothing is
said about their order and number, about rows without a successor and about other keys. -/
def Answers (expand : List K → List (K × Option K)) (relation : Finset (K × K)) : Prop :=
  ∀ frontier, ∀ x ∈ frontier, ∀ y, (x, some y) ∈ expand frontier ↔ (x, y) ∈ relation

/-- The hops of a relation that the admission test lets through. -/
def Permitted (relation : Finset (K × K)) (permits : K → K → Bool) (x y : K) : Prop :=
  (x, y) ∈ relation ∧ permits x y = true

omit [LinearOrder K] in
theorem Answers.follows {relation : Finset (K × K)} (h : Answers expand relation)
    (permits : K → K → Bool) : Follows expand permits (Permitted relation permits) :=
  fun frontier x hx y => and_congr_left' (h frontier x hx y).symm

/-- Different layers have no key in common, and a layer lists none twice. -/
theorem nodup_flatten {frontiers : List (List K)}
    (h : ∀ i frontier, frontiers[i]? = some frontier → Lists frontier (layer hop seeds i)) :
    frontiers.flatten.Nodup := by
  refine List.nodup_flatten.mpr ⟨fun frontier hmem => ?_, ?_⟩
  · obtain ⟨i, hi⟩ := List.mem_iff_getElem?.mp hmem
    exact (h i frontier hi).ascending.imp ne_of_lt
  · refine List.pairwise_iff_getElem.mpr fun i j hi hj hij x hxi hxj => ?_
    have hxi := ((h i _ (List.getElem?_eq_getElem hi)).mem_iff x).mp hxi
    have hxj := ((h j _ (List.getElem?_eq_getElem hj)).mem_iff x).mp hxj
    exact hij.ne (layer_unique hxi hxj)

/-- A run over a finite relation. It ends once it is allowed as many queries as there are layers
that are not empty; then its frontiers are these layers, no key is asked for twice, and the leaves
are the keys where the layers stop. -/
theorem run_by_layers (relation : Finset (K × K)) (hexpand : Answers expand relation)
    (permits : K → K → Bool) (starts : List K) :
    ∃ calls, HasDepth (Permitted relation permits) {x | x ∈ starts} calls ∧
      (∀ queries, (run true expand permits queries starts).leaves.isSome ↔ calls ≤ queries) ∧
      ∀ queries, calls ≤ queries → ∃ frontiers asked leaves,
        run true expand permits queries starts = ⟨frontiers, asked, some leaves⟩ ∧
        frontiers.length = calls ∧
        (∀ k frontier, frontiers[k]? = some frontier →
          Lists frontier (layer (Permitted relation permits) {x | x ∈ starts} k)) ∧
        frontiers.flatten.Nodup ∧
        Lists leaves (stops (Permitted relation permits) {x | x ∈ starts}) ∧
        (leaves = [] ↔ starts = []) ∧
        (∀ x ∈ leaves, Reached (Permitted relation permits) {x | x ∈ starts} x) ∧
        ∀ x, Reached (Permitted relation permits) {x | x ∈ starts} x →
          (∀ y, ¬ Permitted relation permits x y) → x ∈ leaves := by
  have htargets : ∀ x y, Permitted relation permits x y → y ∈ (relation.image Prod.snd).toList :=
    fun x y h => Finset.mem_toList.mpr (Finset.mem_image_of_mem Prod.snd h.1)
  obtain ⟨calls, -, hcalls⟩ := exists_hasDepth (layer_eq_empty starts htargets)
  have hrun := (atLayer_start starts).runFrom (hexpand.follows permits) hcalls (Nat.zero_le _)
  simp only [Nat.zero_add, Nat.sub_zero] at hrun
  refine ⟨calls, hcalls, fun queries => (hrun queries).1, fun queries hq => ?_⟩
  obtain ⟨hsome, hspec⟩ := hrun queries
  obtain ⟨leaves, hleaves⟩ := Option.isSome_iff_exists.mp (hsome.mpr hq)
  obtain ⟨hlen, hfrontiers, hstops⟩ := hspec hq
  have hstops := hstops leaves hleaves
  refine ⟨_, _, leaves, by rw [← hleaves]; rfl, hlen, hfrontiers, nodup_flatten hfrontiers, hstops,
    ?_, fun x hx => reached_of_mem_stops ((hstops.mem_iff x).mp hx), fun x hx hnone =>
    (hstops.mem_iff x).mpr (mem_stops_of_forall_not_hop hx hnone)⟩
  have hnonempty := stops_nonempty hcalls
  simp only [Set.Nonempty, ← hstops.mem_iff, Set.mem_ofPred_eq] at hnonempty
  simpa [List.eq_nil_iff_forall_not_mem] using not_congr hnonempty

/-- A cycle, with rows that are repeated, without a successor, or not asked for. -/
theorem run_by_layers_cycle :
    Answers (fun _ => [(2, some 1), (1, none), (1, some 2), (1, some 2)]) {(1, 2), (2, 1)} ∧
      ∃ calls leaves,
        HasDepth (Permitted {(1, 2), (2, 1)} fun _ _ => true) {x | x ∈ [1]} calls ∧
        (run true (fun _ => [(2, some 1), (1, none), (1, some 2), (1, some 2)])
          (fun _ _ => true) calls [1]).leaves = some leaves ∧
        Lists leaves (stops (Permitted {(1, 2), (2, 1)} fun _ _ => true) {x | x ∈ [1]}) := by
  have hexpand : Answers (fun _ => [(2, some 1), (1, none), (1, some 2), (1, some 2)])
      {(1, 2), (2, 1)} := fun _ x _ y => by simp; tauto
  obtain ⟨calls, hcalls, -, hrun⟩ := run_by_layers _ hexpand (fun _ _ => true) [1]
  obtain ⟨frontiers, asked, leaves, hrun, -, -, -, hstops, -⟩ := hrun calls (Nat.le_refl _)
  exact ⟨hexpand, calls, leaves, hcalls, by rw [hrun], hstops⟩

end SymbolAtlas.Propagation
