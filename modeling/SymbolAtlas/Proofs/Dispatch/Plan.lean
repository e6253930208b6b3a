import Mathlib.Algebra.Ring.Nat
import SymbolAtlas.Proofs.Dispatch.Calls
import SymbolAtlas.Proofs.Dispatch.Step

/-!
# What a pass has to do

Before a pass begins, the tables tell what will become of every outstanding action.

- **Sources** (`Store.sourceCount`, `Store.lacksSource`): how many sources an action has, and
  whether the row of one is gone. This is what its task is made of (`Task.length_pairs_of`,
  `Task.any_pairs_of`).
- **Fates** (`Store.fate`, `Store.verdict`): what becomes of the task of an action, and the state
  that its action ends in.
- **The order** (`Store.nextRow?_moved`): after the last action that was taken comes the next one of
  those that were outstanding at the start, whichever of them have been moved meanwhile.
- **The total** (`Store.outstandingSources_eq`): the sources of all outstanding actions, counted
  link by link, are those counted action by action.
-/

namespace SymbolAtlas

/-! ## Sources -/

theorem FilePair.map_source_pairUp (sources targets : List (Option File)) :
    (pairUp sources targets).map FilePair.source = sources := by
  unfold pairUp
  split
  · rename_i hlength
    induction sources generalizing targets with
    | nil => rfl
    | cons source sources ih =>
      cases targets with
      | nil => cases hlength
      | cons target targets =>
        rw [List.zipWith_cons_cons, List.map_cons, ih targets (Nat.succ.inj hlength)]
  · rw [List.map_map]
    exact List.map_id _

namespace Store

/-- The number of sources of an action. -/
def sourceCount (store : Store) (action : Int) : Nat :=
  store.sources.countP fun link => link.action = action

/-- The row of a source of the action is gone. -/
def lacksSource (store : Store) (action : Int) : Bool :=
  store.sources.any fun link => link.action = action && (store.file? link.file).isNone

/-- The links of an action are those in the table, in some order. -/
theorem linksOf_perm (links : List Link) (action : Int) :
    (linksOf links action).Perm (links.filter fun link => link.action = action) :=
  List.mergeSort_perm _ _

theorem length_sourcesOf (store : Store) (action : Int) :
    (store.sourcesOf action).length = store.sourceCount action := by
  rw [sourcesOf, List.length_map, (linksOf_perm _ _).length_eq, sourceCount,
    List.countP_eq_length_filter]

theorem any_sourcesOf (store : Store) (action : Int) :
    (store.sourcesOf action).any Option.isNone = store.lacksSource action := by
  rw [sourcesOf, List.any_map, (linksOf_perm _ _).any_eq, List.any_filter]
  rfl

/-- The sources and targets of actions are the same, and so is which sources have a row. -/
structure SameGraph (before after : Store) : Prop where
  sources : after.sources = before.sources
  targets : after.targets = before.targets
  present : ∀ link ∈ before.sources,
    (after.file? link.file).isNone = (before.file? link.file).isNone

namespace SameGraph

variable {before between after : Store}

theorem refl (store : Store) : SameGraph store store := ⟨rfl, rfl, fun _ _ => rfl⟩

theorem trans (h : SameGraph before between) (h' : SameGraph between after) :
    SameGraph before after where
  sources := h'.sources.trans h.sources
  targets := h'.targets.trans h.targets
  present link hlink := (h'.present link (h.sources ▸ hlink)).trans (h.present link hlink)

theorem sourceCount (h : SameGraph before after) (action : Int) :
    after.sourceCount action = before.sourceCount action := by
  rw [Store.sourceCount, Store.sourceCount, h.sources]

theorem lacksSource (h : SameGraph before after) (action : Int) :
    after.lacksSource action = before.lacksSource action := by
  rw [Store.lacksSource, Store.lacksSource, h.sources]
  rw [Bool.eq_iff_iff, List.any_eq_true, List.any_eq_true]
  exact exists_congr fun link => and_congr_right fun hlink => by rw [h.present link hlink]

end SameGraph

end Store

namespace Task

variable (settings : DispatchSettings) (store : Store) (action : BuildAction)

theorem length_pairs_of :
    (Task.of settings store action).pairs.length = store.sourceCount action.id := by
  rw [← Store.length_sourcesOf, ← List.length_map FilePair.source]
  exact congrArg List.length (FilePair.map_source_pairUp _ _)

theorem any_pairs_of :
    ((Task.of settings store action).pairs.any fun pair => pair.source.isNone) =
      store.lacksSource action.id := by
  rw [← Store.any_sourcesOf]
  have hmap := congrArg (List.any · Option.isNone) (FilePair.map_source_pairUp
    (store.sourcesOf action.id) (store.targetsOf action.id))
  rw [List.any_map] at hmap
  exact hmap

end Task

/-! ## Fates -/

/-- The row is that of an action that links. -/
def ActionRow.isLink (row : ActionRow) : Bool :=
  Worded.parse? row.kind == some ActionKind.link

namespace Store

/-- The rows of the outstanding actions. -/
def created (store : Store) : List ActionRow :=
  store.actions.filter fun row => row.state = createdWord

/-- The number of results of an action that is given to parsers: one for each source, or one for a
whole command. -/
def resultCount (settings : DispatchSettings) (store : Store) (action : Int) : Nat :=
  if settings.wholeCommand && 1 < store.sourceCount action then 1 else store.sourceCount action

theorem SameGraph.resultCount {before after : Store} (h : SameGraph before after)
    (settings : DispatchSettings) (action : Int) :
    after.resultCount settings action = before.resultCount settings action := by
  rw [Store.resultCount, Store.resultCount, h.sourceCount]

/-- What becomes of the task of an outstanding action. -/
def fate (settings : DispatchSettings) (store : Store) (row : ActionRow) : Dispatched :=
  if row.isLink then .linked
  else if store.lacksSource row.id then .skipped
  else .queued (store.resultCount settings row.id)

/-- The state that an outstanding action ends in. -/
def verdict (store : Store) (row : ActionRow) : ActionState :=
  if !row.isLink && store.lacksSource row.id then .skipped else .parsed

theorem verdict_ne_created (store : Store) (row : ActionRow) : store.verdict row ≠ .created := by
  unfold verdict
  split <;> decide

end Store

theorem Task.resultCount_of (settings : DispatchSettings) (store : Store) (action : BuildAction) :
    (Task.of settings store action).resultCount = store.resultCount settings action.id := by
  rw [Task.resultCount, Store.resultCount, ← Task.length_pairs_of settings store action]
  rfl

/-- What a pass has counted after the given rows. -/
theorem PassSummary.foldl_add (settings : DispatchSettings) (store : Store)
    (rows : List ActionRow) (summary : PassSummary) :
    (rows.map (store.fate settings)).foldl PassSummary.add summary =
      { tasks := summary.tasks + rows.length
        dispatched := summary.dispatched +
          ((rows.filter fun row => !row.isLink && !store.lacksSource row.id).map fun row =>
            store.resultCount settings row.id).sum
        skipped := summary.skipped +
          rows.countP fun row => !row.isLink && store.lacksSource row.id
        links := summary.links + rows.countP ActionRow.isLink } := by
  induction rows generalizing summary with
  | nil => rfl
  | cons row rest ih =>
    rw [List.map_cons, List.foldl_cons, ih]
    cases hlink : row.isLink <;> cases hlacks : store.lacksSource row.id <;>
      simp [Store.fate, hlink, hlacks, add] <;> omega

/-- The number of outcomes that a pass has seen to: one for a task that is done at once, and one for
each result of the others. -/
def PassSummary.outcomes (summary : PassSummary) : Nat :=
  summary.links + summary.skipped + summary.dispatched

/-- The number of outcomes that come of a task. -/
def Dispatched.outcomes : Dispatched → Nat
  | .queued n => n
  | .linked | .skipped => 1

theorem PassSummary.outcomes_add (summary : PassSummary) (dispatched : Dispatched) :
    (summary.add dispatched).outcomes = summary.outcomes + dispatched.outcomes := by
  cases dispatched <;> simp only [add, outcomes, Dispatched.outcomes] <;> omega

/-- How far a pass has got after each task: the sources so far, and those of all tasks. -/
def Pass.runningTotals (counts : List Nat) (total : Nat) : List (Nat × Nat) :=
  (List.range counts.length).map fun i => ((counts.take (i + 1)).sum, total)

namespace Pass

theorem runningTotals_concat (counts : List Nat) (count total : Nat) :
    runningTotals (counts ++ [count]) total =
      runningTotals counts total ++ [(counts.sum + count, total)] := by
  unfold runningTotals
  rw [List.length_append, List.length_singleton, List.range_succ, List.map_append]
  congr 1
  · refine List.map_congr_left fun i hi => ?_
    rw [List.take_append_of_le_length (List.mem_range.mp hi)]
  · rw [List.map_singleton, List.take_of_length_le (by simp), List.sum_append, List.sum_singleton]

theorem getLast?_runningTotals {counts : List Nat} (h : counts ≠ []) (total : Nat) :
    (runningTotals counts total).getLast? = some (counts.sum, total) := by
  rcases List.eq_nil_or_concat' counts with rfl | ⟨init, last, rfl⟩
  · exact absurd rfl h
  · simp [runningTotals_concat]

theorem current_runningTotals {counts : List Nat} {total : Nat} {pass : Pass}
    (h : pass.progress = runningTotals counts total) : pass.current = counts.sum := by
  rw [current, h]
  rcases eq_or_ne counts [] with rfl | hsome
  · rfl
  · rw [getLast?_runningTotals hsome]
    rfl

theorem runningTotals_ascending (counts : List Nat) (total : Nat) :
    ((runningTotals counts total).map Prod.fst).Pairwise (· ≤ ·) := by
  unfold runningTotals
  rw [List.map_map, List.pairwise_map]
  refine List.pairwise_lt_range.imp fun {i j} hlt => ?_
  obtain ⟨more, hmore⟩ : counts.take (i + 1) <+: counts.take (j + 1) :=
    List.take_prefix_take_left (by omega)
  show (counts.take (i + 1)).sum ≤ (counts.take (j + 1)).sum
  rw [← hmore, List.sum_append]
  exact Nat.le_add_right _ _

end Pass

/-! ## The order and the total -/

namespace Store

/-- The rows of actions are in the order of their identities, and those that are outstanding have a
kind. -/
structure Sound (store : Store) : Prop where
  ascending : store.actions.Pairwise fun first later => first.id < later.id
  kinds : ∀ row ∈ store.actions, row.state = createdWord →
    ∃ kind : ActionKind, Worded.parse? row.kind = some kind

variable {store now : Store} {done rest : List ActionRow} {moved : List Int}

theorem Sound.created (h : store.Sound) :
    store.created.Pairwise fun first later => first.id < later.id :=
  h.ascending.filter _

/-- A recorded row is known by its identity. -/
theorem Sound.eq_of_id (h : store.Sound) {row row' : ActionRow} (hrow : row ∈ store.actions)
    (hrow' : row' ∈ store.actions) (hid : row.id = row'.id) : row = row' := by
  have hnodup : (store.actions.map ActionRow.id).Nodup :=
    List.pairwise_map.mpr (h.ascending.imp fun hlt => Int.ne_of_lt hlt)
  exact List.inj_on_of_nodup_map hnodup hrow hrow' hid

/-- Recording actions keeps a store sound. -/
theorem Sound.insertAction (h : store.Sound)
    (hnext : ∀ row ∈ store.actions, row.id < store.nextAction) (kind : ActionKind)
    (label project : String) :
    (store.insertAction kind label project).2.Sound ∧
    ∀ row ∈ (store.insertAction kind label project).2.actions,
      row.id < (store.insertAction kind label project).2.nextAction := by
  have hword : Worded.parse? (Worded.word kind) = some kind := by cases kind <;> decide
  simp only [Store.insertAction, insertActionRow]
  refine ⟨⟨?_, fun row hrow hstate => ?_⟩, fun row hrow => ?_⟩
  · refine List.pairwise_append.mpr ⟨h.ascending, List.pairwise_singleton _ _, ?_⟩
    intro row hrow new hnew
    rw [List.mem_singleton.mp hnew]
    exact hnext row hrow
  · rcases List.mem_append.mp hrow with hrow | hrow
    · exact h.kinds row hrow hstate
    · rw [List.mem_singleton.mp hrow]
      exact ⟨kind, hword⟩
  · rcases List.mem_append.mp hrow with hrow | hrow
    · have := hnext row hrow
      omega
    · rw [List.mem_singleton.mp hrow]
      exact Int.lt_add_one_of_le (Int.le_refl _)

/-- Of the outstanding actions, those that are left follow the cursor, and the others do not. -/
theorem Sound.follows (hsound : store.Sound) (hcreated : store.created = done ++ rest) :
    (∀ row ∈ rest, row.follows (done.getLast?.map ActionRow.id) = true) ∧
    ∀ row ∈ done, row.follows (done.getLast?.map ActionRow.id) = false := by
  obtain ⟨hdone, -, hacross⟩ := List.pairwise_append.mp (hcreated ▸ hsound.created)
  rcases List.eq_nil_or_concat' done with rfl | ⟨init, last, rfl⟩
  · exact ⟨fun _ _ => rfl, by simp⟩
  · obtain ⟨-, -, hlast⟩ := List.pairwise_append.mp hdone
    simp only [ActionRow.follows, List.getLast?_append, List.getLast?_singleton, Option.some_or,
      Option.map_some, Option.all_some, decide_eq_true_eq, decide_eq_false_iff_not]
    refine ⟨fun row hrow => hacross last (by simp) row hrow, fun row hrow => ?_⟩
    rcases List.mem_append.mp hrow with hrow | hrow
    · exact Int.not_lt.mpr (Int.le_of_lt (hlast row hrow last (by simp)))
    · rw [List.mem_singleton.mp hrow]
      exact Int.lt_irrefl _

theorem nextRow?_moved (hsound : store.Sound) (hcreated : store.created = done ++ rest)
    (hmoved : ∀ a ∈ moved, a ∈ done.map ActionRow.id)
    (hnow : now.actions = (store.moved store.verdict moved).actions) :
    now.nextRow? (done.getLast?.map ActionRow.id) = rest.head? := by
  obtain ⟨hrest, hdone⟩ := hsound.follows hcreated
  -- a row that was moved was taken, so it does not follow the cursor
  have htaken : ∀ row ∈ store.actions, row.id ∈ moved →
      row.follows (done.getLast?.map ActionRow.id) = false := by
    intro row hrow hin
    obtain ⟨row', hrow', hid⟩ := List.mem_map.mp (hmoved _ hin)
    have hmem : row' ∈ store.created := hcreated ▸ List.mem_append_left _ hrow'
    rw [← hsound.eq_of_id (List.mem_of_mem_filter hmem) hrow hid]
    exact hdone row' hrow'
  have hsame : ∀ row ∈ store.actions,
      (decide ((movedRow store.verdict moved row).state = createdWord) &&
        (movedRow store.verdict moved row).follows (done.getLast?.map ActionRow.id)) =
      (row.follows (done.getLast?.map ActionRow.id) && decide (row.state = createdWord)) := by
    intro row hrow
    rw [ActionRow.follows, id_movedRow, ← ActionRow.follows, Bool.and_comm]
    by_cases hin : row.id ∈ moved
    · rw [htaken row hrow hin]
      rfl
    · rw [movedRow, if_neg fun h => hin h.1]
  have hfilter : store.created.filter (ActionRow.follows (done.getLast?.map ActionRow.id)) =
      rest := by
    rw [hcreated, List.filter_append, List.filter_eq_self.mpr hrest, List.filter_eq_nil_iff.mpr
      fun row hrow => by rw [hdone row hrow]; decide, List.nil_append]
  calc now.nextRow? (done.getLast?.map ActionRow.id)
      = (store.actions.find? fun row =>
          decide ((movedRow store.verdict moved row).state = createdWord) &&
            (movedRow store.verdict moved row).follows (done.getLast?.map ActionRow.id)).map
          (movedRow store.verdict moved) := by
        rw [nextRow?, hnow, Store.moved, List.find?_map]
        rfl
    _ = rest.head?.map (movedRow store.verdict moved) := by
        rw [← List.head?_filter, List.filter_congr hsame, ← List.filter_filter, ← hfilter]
        rfl
    _ = rest.head? := by
        cases rest with
        | nil => rfl
        | cons row rest =>
          have hmem : row ∈ store.created := hcreated ▸ (by simp)
          have hfree : row.id ∉ moved := fun hin => by
            have := htaken row (List.mem_of_mem_filter hmem) hin
            rw [hrest row (by simp)] at this
            cases this
          rw [List.head?_cons, Option.map_some, movedRow, if_neg fun h => hfree h.1]

/-- Counting pairs by their first or by their second part. -/
theorem sum_countP_comm (links : List Link) (rows : List ActionRow) :
    (links.map fun link => rows.countP fun row => row.id = link.action).sum =
      (rows.map fun row => links.countP fun link => link.action = row.id).sum := by
  induction rows with
  | nil => simp
  | cons row rows ih =>
    have hrow : (links.map fun link => (row :: rows).countP fun row => row.id = link.action).sum =
        (links.map fun link => rows.countP fun row => row.id = link.action).sum +
          links.countP fun link => link.action = row.id := by
      clear ih
      induction links with
      | nil => rfl
      | cons link links ih =>
        simp only [List.map_cons, List.sum_cons, List.countP_cons, decide_eq_true_eq,
          eq_comm (a := row.id)] at ih ⊢
        omega
    rw [hrow, ih, List.map_cons, List.sum_cons, Nat.add_comm]

theorem outstandingSources_eq (store : Store) :
    store.outstandingSources = (store.created.map fun row => store.sourceCount row.id).sum := by
  refine Eq.trans ?_ (sum_countP_comm store.sources store.created)
  rw [outstandingSources, List.length_flatMap]
  simp only [created, List.countP_eq_length_filter, List.filter_filter]

end Store

end SymbolAtlas
