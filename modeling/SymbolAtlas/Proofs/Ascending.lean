import Mathlib.Algebra.Ring.Nat
import Mathlib.Data.List.Sort
import Mathlib.Data.Set.Basic
import SymbolAtlas.Ascending

/-!
# The theory of ascending lists

What the operations on ascending lists do to their members, that they keep the order, and that the
members determine the list.

- **Sets** (`Lists xs s`): `xs` lists the members of `s` in strictly ascending order. A set has at
  most one such list (`Lists.unique`); every operation is described by the set that its result
  lists (`lists_ofList`, `Lists.insertAll`).
- **Maps** (`get?_put`): a lookup finds what was put last under a key, whatever the order of the
  entries. With the keys in order (`KeysAscending`) it finds exactly the entries
  (`get?_eq_some_iff`).
- **Counts** (`Counts map number`): `map` holds the keys that were counted at all, each with its
  number. Counting a key once more adds to its number only (`Counts.adjust`) and to the sum of all
  (`sum_adjust`).
-/

namespace SymbolAtlas.Ascending

variable {α β : Type} [LinearOrder α]

/-! ## Sets -/

/-- The list holds the members of the set in strictly ascending order. -/
structure Lists (xs : List α) (s : Set α) : Prop where
  ascending : xs.Pairwise (· < ·)
  mem_iff : ∀ x, x ∈ xs ↔ x ∈ s

@[simp] theorem mem_insert {x y : α} {xs : List α} : x ∈ insert y xs ↔ x = y ∨ x ∈ xs := by
  induction xs with
  | nil => simp [insert]
  | cons z zs ih =>
    simp only [insert]
    split
    · simp
    · split
      · simp [ih, or_left_comm]
      · rename_i h₁ h₂
        obtain rfl : y = z := le_antisymm (not_lt.mp h₂) (not_lt.mp h₁)
        simp

theorem ascending_insert (y : α) {xs : List α} (h : xs.Pairwise (· < ·)) :
    (insert y xs).Pairwise (· < ·) := by
  induction xs with
  | nil => simp [insert]
  | cons z zs ih =>
    obtain ⟨hz, hzs⟩ := List.pairwise_cons.mp h
    simp only [insert]
    split
    · rename_i hy
      refine List.pairwise_cons.mpr ⟨fun x hx => ?_, h⟩
      rcases List.mem_cons.mp hx with rfl | hx
      · exact hy
      · exact hy.trans (hz x hx)
    · split
      · rename_i hy
        refine List.pairwise_cons.mpr ⟨fun x hx => ?_, ih hzs⟩
        rcases mem_insert.mp hx with rfl | hx
        · exact hy
        · exact hz x hx
      · exact h

@[simp] theorem mem_insertAll {x : α} {xs set : List α} :
    x ∈ insertAll xs set ↔ x ∈ xs ∨ x ∈ set := by
  induction xs generalizing set with
  | nil => simp [insertAll]
  | cons y ys ih =>
    have := @ih (insert y set)
    simp only [insertAll, List.foldl_cons] at this ⊢
    rw [this, mem_insert, List.mem_cons, or_left_comm, or_assoc]

theorem ascending_insertAll (xs : List α) {set : List α} (h : set.Pairwise (· < ·)) :
    (insertAll xs set).Pairwise (· < ·) := by
  induction xs generalizing set with
  | nil => exact h
  | cons y ys ih => exact ih (ascending_insert y h)

@[simp] theorem mem_ofList {x : α} {xs : List α} : x ∈ ofList xs ↔ x ∈ xs := by
  simp [ofList]

theorem ascending_ofList (xs : List α) : (ofList xs).Pairwise (· < ·) :=
  ascending_insertAll xs .nil

@[simp] theorem ofList_eq_nil {xs : List α} : ofList xs = [] ↔ xs = [] := by
  simp only [List.eq_nil_iff_forall_not_mem, mem_ofList]

theorem lists_ofList (xs : List α) : Lists (ofList xs) {x | x ∈ xs} :=
  ⟨ascending_ofList xs, fun _ => mem_ofList⟩

theorem Lists.insertAll {set : List α} {s : Set α} (h : Lists set s) (xs : List α) :
    Lists (insertAll xs set) ({x | x ∈ xs} ∪ s) :=
  ⟨ascending_insertAll xs h.ascending, fun x => by simp [h.mem_iff]⟩

theorem Lists.congr {xs : List α} {s t : Set α} (h : Lists xs s) (hst : ∀ x, x ∈ s ↔ x ∈ t) :
    Lists xs t :=
  ⟨h.ascending, fun x => (h.mem_iff x).trans (hst x)⟩

/-- The members and their order determine the list. -/
theorem Lists.unique {xs ys : List α} {s : Set α} (hx : Lists xs s) (hy : Lists ys s) : xs = ys :=
  hx.ascending.eq_of_mem_iff hy.ascending fun x => (hx.mem_iff x).trans (hy.mem_iff x).symm

/-! ## Maps -/

theorem get?_put (j k : α) (v : β) (map : List (α × β)) :
    get? j (put k v map) = if j = k then some v else get? j map := by
  induction map with
  | nil =>
    rcases lt_trichotomy j k with h | rfl | h
    · simp [put, get?, h, h.ne]
    · simp [put, get?]
    · simp [put, get?, h.not_gt, h, h.ne']
  | cons entry rest ih =>
    obtain ⟨k', v'⟩ := entry
    simp only [put]
    split
    · rename_i hk
      rcases lt_trichotomy j k with h | rfl | h
      · simp [get?, h, h.ne, h.trans hk]
      · simp [get?]
      · simp [get?, h.not_gt, h, h.ne']
    · split
      · rename_i hk
        rcases lt_trichotomy j k' with h | rfl | h
        · simp [get?, h, (h.trans hk).ne]
        · simp [get?, hk.ne]
        · simp [get?, h.not_gt, h, ih]
      · rename_i h₁ h₂
        obtain rfl : k = k' := le_antisymm (not_lt.mp h₂) (not_lt.mp h₁)
        rcases lt_trichotomy j k with h | rfl | h
        · simp [get?, h, h.ne]
        · simp [get?]
        · simp [get?, h.not_gt, h, h.ne']

/-- Values of different keys can be put in either order. -/
theorem put_comm {j k : α} (hne : j ≠ k) (u v : β) (map : List (α × β)) :
    put j u (put k v map) = put k v (put j u map) := by
  induction map with
  | nil =>
    rcases lt_or_gt_of_ne hne with h | h
    · simp [put, h, h.not_gt]
    · simp [put, h, h.not_gt]
  | cons entry rest ih =>
    obtain ⟨i, w⟩ := entry
    grind [put]

theorem adjust_comm {j k : α} {fallback fallback' : β} {change change' : β → β} (hne : j ≠ k)
    (map : List (α × β)) :
    adjust j fallback change (adjust k fallback' change' map) =
      adjust k fallback' change' (adjust j fallback change map) := by
  simp only [adjust, get?_put, if_neg hne, if_neg hne.symm]
  exact put_comm hne _ _ map

/-- The keys of a map are in strictly ascending order. -/
def KeysAscending (map : List (α × β)) : Prop := map.Pairwise fun a b => a.1 < b.1

theorem mem_put {entry : α × β} {k : α} {v : β} {map : List (α × β)} (h : entry ∈ put k v map) :
    entry = (k, v) ∨ entry ∈ map := by
  induction map with
  | nil => simpa [put] using h
  | cons head rest ih =>
    simp only [put] at h
    split at h
    · simpa using h
    · split at h
      · rcases List.mem_cons.mp h with rfl | h
        · exact .inr (.head _)
        · exact (ih h).imp id (.tail _)
      · rcases List.mem_cons.mp h with rfl | h
        · exact .inl rfl
        · exact .inr (.tail _ h)

theorem keysAscending_put (k : α) (v : β) {map : List (α × β)} (h : KeysAscending map) :
    KeysAscending (put k v map) := by
  induction map with
  | nil => exact List.pairwise_singleton _ _
  | cons head rest ih =>
    obtain ⟨hhead, hrest⟩ := List.pairwise_cons.mp h
    simp only [put]
    split
    · rename_i hk
      refine List.pairwise_cons.mpr ⟨fun entry he => ?_, h⟩
      rcases List.mem_cons.mp he with rfl | he
      · exact hk
      · exact hk.trans (hhead entry he)
    · split
      · rename_i hk
        refine List.pairwise_cons.mpr ⟨fun entry he => ?_, ih hrest⟩
        rcases mem_put he with rfl | he
        · exact hk
        · exact hhead entry he
      · rename_i h₁ h₂
        refine List.pairwise_cons.mpr ⟨fun entry he => ?_, hrest⟩
        exact (not_lt.mp h₂).trans_lt (hhead entry he)

/-- Whatever the order of the entries, a lookup finds one of them. -/
theorem mem_of_get? {map : List (α × β)} {k : α} {v : β} (h : get? k map = some v) :
    (k, v) ∈ map := by
  induction map with
  | nil => cases h
  | cons head rest ih =>
    simp only [get?] at h
    split at h
    · cases h
    · split at h
      · exact .tail _ (ih h)
      · rename_i h₁ h₂
        obtain rfl : k = head.1 := le_antisymm (not_lt.mp h₂) (not_lt.mp h₁)
        cases h
        exact .head _

/-- With the keys in order, a lookup finds exactly the entries. -/
theorem get?_eq_some_iff {map : List (α × β)} (h : KeysAscending map) {k : α} {v : β} :
    get? k map = some v ↔ (k, v) ∈ map := by
  induction map with
  | nil => simp [get?]
  | cons head rest ih =>
    obtain ⟨k', v'⟩ := head
    obtain ⟨hhead, hrest⟩ := List.pairwise_cons.mp h
    have habove : (k, v) ∈ rest → k' < k := fun hv => hhead _ hv
    simp only [get?, List.mem_cons, Prod.mk.injEq]
    rcases lt_trichotomy k k' with hk | rfl | hk
    · simpa [hk, hk.ne] using fun hv => hk.not_gt (habove hv)
    · simpa [eq_comm] using fun hv => absurd (habove hv) (lt_irrefl k)
    · simpa [hk, hk.not_gt, hk.ne'] using ih hrest

/-- The keys of a map are those with a value. -/
theorem KeysAscending.lists_keys {map : List (α × β)} (h : KeysAscending map) :
    Lists (map.map Prod.fst) {k | (get? k map).isSome} := by
  refine ⟨List.pairwise_map.mpr h, fun k => ?_⟩
  simp only [List.mem_map, Set.mem_ofPred_eq, Option.isSome_iff_exists, get?_eq_some_iff h]
  constructor
  · rintro ⟨⟨_, v⟩, hv, rfl⟩
    exact ⟨v, hv⟩
  · rintro ⟨v, hv⟩
    exact ⟨(k, v), hv, rfl⟩

/-- A map with its keys in order is determined by what a lookup finds. -/
theorem KeysAscending.ext {map map' : List (α × β)} (h : KeysAscending map)
    (h' : KeysAscending map') (hget : ∀ k, get? k map = get? k map') : map = map' := by
  have : Std.Irrefl fun a b : α × β => a.1 < b.1 := ⟨fun a => lt_irrefl a.1⟩
  have : Std.Antisymm fun a b : α × β => a.1 < b.1 := ⟨fun _ _ hab hba => absurd hab hba.not_gt⟩
  refine List.Pairwise.eq_of_mem_iff h h' fun ⟨k, v⟩ => ?_
  rw [← get?_eq_some_iff h, ← get?_eq_some_iff h', hget]

/-! ## Counts -/

/-- The map holds every key with a number that is not zero, and that number. -/
structure Counts (map : List (α × Nat)) (number : α → Nat) : Prop where
  ascending : KeysAscending map
  mem_iff : ∀ k n, (k, n) ∈ map ↔ 0 < n ∧ n = number k

theorem counts_nil : Counts ([] : List (α × Nat)) fun _ => 0 := by
  refine ⟨.nil, fun k n => ?_⟩
  simp only [List.not_mem_nil, false_iff, not_and]
  omega

theorem Counts.getD_get? {map : List (α × Nat)} {number : α → Nat} (h : Counts map number)
    (k : α) : (get? k map).getD 0 = number k := by
  cases hget : get? k map with
  | some n => exact ((h.mem_iff k n).mp ((get?_eq_some_iff h.ascending).mp hget)).2
  | none =>
    by_contra hne
    have hmem : (k, number k) ∈ map :=
      (h.mem_iff k _).mpr ⟨Nat.pos_of_ne_zero fun hzero => hne hzero.symm, rfl⟩
    rw [(get?_eq_some_iff h.ascending).mpr hmem] at hget
    cases hget

/-- A key is counted once more. -/
theorem Counts.adjust {map : List (α × Nat)} {number : α → Nat} (h : Counts map number) (k : α) :
    Counts (adjust k 0 (· + 1) map) fun j => if j = k then number j + 1 else number j := by
  have hascending := keysAscending_put k ((get? k map).getD 0 + 1) h.ascending
  refine ⟨hascending, fun j n => ?_⟩
  rw [Ascending.adjust, ← get?_eq_some_iff hascending, get?_put, h.getD_get?]
  by_cases hj : j = k
  · subst hj
    simp only [if_true, Option.some.injEq]
    omega
  · rw [if_neg hj, if_neg hj, get?_eq_some_iff h.ascending, h.mem_iff]

theorem sum_put (k : α) (v : Nat) (map : List (α × Nat)) :
    ((put k v map).map Prod.snd).sum + (get? k map).getD 0 = (map.map Prod.snd).sum + v := by
  induction map with
  | nil => simp [put, get?]
  | cons head rest ih =>
    simp only [put, get?]
    split
    · simp only [List.map_cons, List.sum_cons, Option.getD_none]
      omega
    · split
      · simp only [List.map_cons, List.sum_cons]
        omega
      · simp only [List.map_cons, List.sum_cons, Option.getD_some]
        omega

theorem sum_adjust (k : α) (map : List (α × Nat)) :
    ((adjust k 0 (· + 1) map).map Prod.snd).sum = (map.map Prod.snd).sum + 1 := by
  have hput := sum_put k ((get? k map).getD 0 + 1) map
  rw [adjust]
  omega

end SymbolAtlas.Ascending
