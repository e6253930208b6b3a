import SymbolAtlas.Cluster.Leaves
import SymbolAtlas.Proofs.Propagation.BreadthFirst

/-!
# Where builds and includes end

The two propagations over the store, in terms of the relations that its tables hold.

- **Builds** (`Store.Feeds`): an action feeds another one that takes one of its targets as a source.
  `lists_actionLeaves`: the build ends in the actions where the layers of `Feeds` stop.
- **Includes** (`Store.IncludedBy`): a file is included by another one. `lists_includerLeaves`: the
  includers end in the files where the layers of `IncludedBy` stop.

An action that feeds no other is an end, but an end may feed another: an action is an end, too, when
all that it feeds was reached no later than the action itself.
-/

namespace SymbolAtlas.Store

open Ascending (Lists)
open Propagation (Follows Reached layer stops)

variable {store : Store} {a b f g : Int}

/-! ## Builds -/

/-- The action has a target that is a source of another action. -/
def Feeds (store : Store) (a b : Int) : Prop :=
  a ≠ b ∧ ∃ target ∈ store.targets, ∃ source ∈ store.sources,
    target.action = a ∧ source.action = b ∧ source.file = target.file

instance (store : Store) (a b : Int) : Decidable (store.Feeds a b) :=
  inferInstanceAs (Decidable (_ ∧ _))

theorem mem_consumers {target : Link} :
    b ∈ store.consumers target ↔
      b ≠ target.action ∧ ∃ source ∈ store.sources,
        source.action = b ∧ source.file = target.file := by
  simp only [consumers, List.mem_map, List.mem_filter, Bool.and_eq_true, decide_eq_true_eq]
  constructor
  · rintro ⟨source, ⟨hs, hfile, hne⟩, rfl⟩
    exact ⟨hne, source, hs, rfl, hfile⟩
  · rintro ⟨hne, source, hs, rfl, hfile⟩
    exact ⟨source, ⟨hs, hfile, hne⟩, rfl⟩

theorem mem_actionSuccessors {frontier : List Int} :
    (a, some b) ∈ store.actionSuccessors frontier ↔ a ∈ frontier ∧ store.Feeds a b := by
  have hrow : ∀ action, (a, some b) ∈
      (if (store.targets.filter fun link => link.action = action).any
          fun target => (store.consumers target).isEmpty then [(action, (none : Option Int))]
        else []) ↔ False := by
    intro action
    split <;> simp
  simp only [actionSuccessors, List.mem_flatMap, Ascending.mem_ofList, List.mem_append, hrow,
    false_or, List.mem_map, List.mem_filter, decide_eq_true_eq, mem_consumers, Prod.mk.injEq,
    Option.some.injEq]
  constructor
  · rintro ⟨action, hmem, next, ⟨target, ⟨ht, rfl⟩, hne, source, hs, hsource⟩, rfl, rfl⟩
    exact ⟨hmem, hne.symm, target, ht, source, hs, rfl, hsource⟩
  · rintro ⟨hmem, hne, target, ht, source, hs, rfl, hsource⟩
    exact ⟨_, hmem, b, ⟨target, ⟨ht, rfl⟩, hne.symm, source, hs, hsource⟩, rfl, rfl⟩

theorem follows_actionSuccessors (store : Store) :
    Follows store.actionSuccessors (fun _ _ => true) store.Feeds := by
  intro frontier a ha b
  simp [mem_actionSuccessors, ha]

theorem lists_actionLeaves (store : Store) (seeds : List Int) :
    Lists (store.actionLeaves seeds) (stops store.Feeds {a | a ∈ seeds}) := by
  -- a hop ends in the action of a source, so there are no more layers than seeds and sources
  refine Propagation.lists_leaves (follows_actionSuccessors store)
    (store.sources.map Link.action) ?_ (by simp)
  rintro a b ⟨-, target, -, source, hs, -, rfl, -⟩
  exact List.mem_map_of_mem hs

/-- Which actions a build ends in, and when these are just the ones that feed no other: when every
action on the way that feeds another one feeds one that lies a layer further. -/
theorem actionLeaves_eq_unconsumed_iff (store : Store) (seeds : List Int) :
    (store.actionLeaves seeds).Pairwise (· < ·) ∧
    (∀ a, a ∈ store.actionLeaves seeds ↔ ∃ k, a ∈ layer store.Feeds {s | s ∈ seeds} k ∧
      ∀ b, store.Feeds a b → ∃ j, j ≤ k ∧ b ∈ layer store.Feeds {s | s ∈ seeds} j) ∧
    (∀ a, Reached store.Feeds {s | s ∈ seeds} a → (∀ b, ¬ store.Feeds a b) →
      a ∈ store.actionLeaves seeds) ∧
    ((∀ a, a ∈ store.actionLeaves seeds ↔
        Reached store.Feeds {s | s ∈ seeds} a ∧ ∀ b, ¬ store.Feeds a b) ↔
      ∀ k, ∀ a ∈ layer store.Feeds {s | s ∈ seeds} k, (∃ b, store.Feeds a b) →
        ∃ b ∈ layer store.Feeds {s | s ∈ seeds} (k + 1), store.Feeds a b) := by
  have hlists := lists_actionLeaves store seeds
  refine ⟨hlists.ascending, fun a => (hlists.mem_iff a).trans Propagation.mem_stops_iff,
    fun a ha hnone => (hlists.mem_iff a).mpr (Propagation.mem_stops_of_forall_not_hop ha hnone),
    fun h k a hk hfeeds => ?_, fun h a => ⟨fun ha => ?_, fun ⟨ha, hnone⟩ => ?_⟩⟩
  · by_contra hnext
    have hstop : a ∈ stops store.Feeds {s | s ∈ seeds} :=
      ⟨k, hk, fun b hb hab => hnext ⟨b, hb, hab⟩⟩
    obtain ⟨b, hab⟩ := hfeeds
    exact ((h a).mp ((hlists.mem_iff a).mpr hstop)).2 b hab
  · obtain ⟨k, hk, hnext⟩ := (hlists.mem_iff a).mp ha
    refine ⟨Propagation.reached_of_mem_layer hk, fun b hab => ?_⟩
    obtain ⟨c, hc, hac⟩ := h k a hk ⟨b, hab⟩
    exact hnext c hc hac
  · exact (hlists.mem_iff a).mpr (Propagation.mem_stops_of_forall_not_hop ha hnone)

/-- Action 1 feeds 2 and 3, and 2 feeds 3: the shorter way to 3 is as long as the way to 2. -/
def shortcut : Store where
  sources := [⟨1, 1, 0⟩, ⟨2, 2, 0⟩, ⟨3, 2, 0⟩, ⟨3, 3, 1⟩]
  targets := [⟨1, 2, 0⟩, ⟨2, 3, 0⟩, ⟨3, 4, 0⟩]

theorem lt_of_feeds_shortcut (h : shortcut.Feeds a b) : a < b := by
  obtain ⟨-, target, ht, source, hs, rfl, rfl, hfile⟩ := h
  revert hfile
  revert source target
  decide

/-- Without any cycle, an action that feeds another one is an end. -/
theorem actionLeaves_shortcut :
    (∀ a, ¬ Relation.TransGen shortcut.Feeds a a) ∧
    shortcut.Feeds 2 3 ∧ 2 ∈ shortcut.actionLeaves [1] ∧
    ¬ ∀ a, a ∈ shortcut.actionLeaves [1] ↔
      Reached shortcut.Feeds {s | s ∈ [1]} a ∧ ∀ b, ¬ shortcut.Feeds a b := by
  have hfeeds : shortcut.Feeds 2 3 := by decide
  have hend : 2 ∈ shortcut.actionLeaves [1] := by decide
  refine ⟨fun a ha => ?_, hfeeds, hend, fun h => ((h 2).mp hend).2 3 hfeeds⟩
  have hlt : shortcut.Feeds ≤ (· < ·) := fun _ _ => lt_of_feeds_shortcut
  exact lt_irrefl a (Relation.transGen_minimal hlt a a ha)

/-! ## Includes -/

/-- Another file includes the file. -/
def IncludedBy (store : Store) (f g : Int) : Prop := f ≠ g ∧ ⟨g, f⟩ ∈ store.includes

instance (store : Store) (f g : Int) : Decidable (store.IncludedBy f g) :=
  inferInstanceAs (Decidable (_ ∧ _))

theorem mem_includersOf : g ∈ store.includersOf f ↔ store.IncludedBy f g := by
  simp only [includersOf, Ascending.mem_ofList, List.mem_map, List.mem_filter, Bool.and_eq_true,
    decide_eq_true_eq]
  constructor
  · rintro ⟨row, ⟨hrow, rfl, hne⟩, rfl⟩
    exact ⟨hne.symm, hrow⟩
  · rintro ⟨hne, hrow⟩
    exact ⟨⟨g, f⟩, ⟨hrow, rfl, hne.symm⟩, rfl⟩

theorem follows_includers (store : Store) :
    Follows store.includers (fun _ _ => true) store.IncludedBy := by
  intro frontier f hf g
  simp [includers, mem_includersOf, hf]

theorem lists_includerLeaves (store : Store) (file : Int) :
    Lists (store.includerLeaves file) (stops store.IncludedBy {file}) := by
  have h : Lists (store.includerLeaves file) (stops store.IncludedBy {f | f ∈ [file]}) := by
    refine Propagation.lists_leaves (follows_includers store)
      (store.includes.map IncludeRow.includer) ?_ (by simp)
    rintro f g ⟨-, hrow⟩
    exact List.mem_map.mpr ⟨_, hrow, rfl⟩
  simpa using h

end SymbolAtlas.Store
