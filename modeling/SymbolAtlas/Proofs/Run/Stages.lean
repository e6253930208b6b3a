import SymbolAtlas.Proofs.BuildLog.Import
import SymbolAtlas.Proofs.Cluster.Workers
import SymbolAtlas.Proofs.Dispatch.Interleaved
import SymbolAtlas.Run

/-!
# The stages of a run

What each stage of a run does to the tables, where no transaction is open before it.

- **Counters and notes** (`Store.Counted`): most stages end with writing these, which no other table
  depends on.
- **Checkouts** (`Store.checkouts`): those that a walk has found take the place of earlier rows; to
  record the same ones once more changes nothing (`checkouts_checkouts`).
- **Preparation** (`prepare`, `run_prepare`): discovery, and then the import of the build log, which
  is the only work of a run that can be refused.
- **The parsers finish** (`run_afterParse`), and **the counters are recorded**
  (`run_persistStatistics`).
-/

namespace SymbolAtlas

namespace Store

variable {store before between after : Store}

/-! ## Counters and notes -/

/-- Only counters and notes were written. -/
structure Counted (before after : Store) : Prop where
  evolves : Evolves before after
  same : ∃ statistics notes, after = { before with statistics, notes }

namespace Counted

theorem refl (store : Store) : Counted store store := ⟨.refl store, _, _, rfl⟩

theorem trans (h : Counted before between) (h' : Counted between after) :
    Counted before after := by
  obtain ⟨statistics, notes, hsame⟩ := h.same
  obtain ⟨statistics', notes', hsame'⟩ := h'.same
  exact ⟨h.evolves.trans h'.evolves, statistics', notes', by rw [hsame', hsame]⟩

theorem whole (h : Counted before after) (hwhole : before.Whole) : after.Whole := by
  obtain ⟨statistics, notes, hsame⟩ := h.same
  refine hwhole.evolves h.evolves ?_ ?_ <;> rw [hsame]

theorem intact (h : Counted before after) (hintact : before.Intact) : after.Intact := by
  obtain ⟨statistics, notes, hsame⟩ := h.same
  refine hintact.evolves h.evolves ?_ ?_ ?_ ?_ ?_ <;> rw [hsame]

theorem enriches (h : Counted before after) (careful : Prop) : Enriches careful before after := by
  refine ⟨h.evolves, ?_, fun _ => h.intact⟩
  obtain ⟨statistics, notes, rfl⟩ := h.same
  exact ⟨rfl, rfl, rfl, ⟨[], (List.append_nil _).symm, by simp⟩, Int.le_refl _, rfl⟩

theorem clearStatistics (category : String) (store : Store) :
    Counted store (store.clearStatistics category) :=
  ⟨evolves_clearStatistics category store, _, _, rfl⟩

theorem putStatistic (row : Statistic) (store : Store) : Counted store (store.putStatistic row) :=
  ⟨evolves_putStatistic row store, _, _, rfl⟩

theorem putStatistics (rows : List Statistic) (store : Store) :
    Counted store (store.putStatistics rows) := by
  unfold Store.putStatistics
  induction rows generalizing store with
  | nil => exact .refl store
  | cons row rest ih => exact (putStatistic row store).trans (ih _)

theorem setNote (key : String) (value : Option String) (store : Store) :
    Counted store (store.setNote key value) :=
  ⟨evolves_setNote key value store, _, _, rfl⟩

theorem recordCounters (tally : Tally) (cluster : Option Cluster.Summary) (store : Store) :
    Counted store (recordCounters tally cluster store) := by
  have hparse := (clearStatistics "parse" store).trans (putStatistics tally.rows _)
  unfold SymbolAtlas.recordCounters
  cases cluster with
  | none => exact hparse
  | some summary =>
    exact hparse.trans ((clearStatistics "cluster" _).trans (putStatistics summary.rows _))

end Counted

/-! ## Checkouts -/

/-- The rows of checkouts after the found ones have taken their places. -/
def checkouts (found rows : List Repository) : List Repository :=
  found.foldl (fun rows new => (rows.filter fun old => old.path ≠ new.path) ++ [new]) rows

theorem addRepositories_eq (found : List Repository) (store : Store) :
    found.foldl (fun store new => store.addRepository new.path new.kind) store =
      { store with repositories := checkouts found store.repositories } := by
  induction found generalizing store with
  | nil => rfl
  | cons new rest ih =>
    rw [List.foldl_cons, ih]
    rfl

theorem evolves_addRepositories (found : List Repository) (store : Store) :
    Evolves store (found.foldl (fun store new => store.addRepository new.path new.kind) store) := by
  induction found generalizing store with
  | nil => exact .refl store
  | cons new rest ih => exact (evolves_addRepository new.path new.kind store).trans (ih _)

theorem checkouts_concat (found : List Repository) (new : Repository) (rows : List Repository) :
    checkouts (found ++ [new]) rows =
      (checkouts found rows).filter (fun old => old.path ≠ new.path) ++ [new] := by
  simp [checkouts]

/-- Rows of other paths are kept in front. -/
theorem checkouts_eq (found rows : List Repository) :
    checkouts found rows =
      rows.filter (fun row => row.path ∉ found.map Repository.path) ++ checkouts found [] := by
  induction found using List.reverseRecOn with
  | nil => simp [checkouts]
  | append_singleton found new ih =>
    have hkept : (rows.filter fun row => row.path ∉ found.map Repository.path).filter
        (fun old => old.path ≠ new.path) =
          rows.filter fun row => row.path ∉ (found ++ [new]).map Repository.path := by
      rw [List.filter_filter]
      refine List.filter_congr fun row _ => ?_
      simp only [List.map_append, List.map_singleton, List.mem_append, List.mem_singleton]
      by_cases hnew : row.path = new.path
      · simp [hnew]
      · simp [hnew]
    rw [checkouts_concat, checkouts_concat, ih, List.filter_append, hkept, List.append_assoc]

theorem path_of_mem_checkouts {found : List Repository} {row : Repository}
    (h : row ∈ checkouts found []) : row.path ∈ found.map Repository.path := by
  induction found using List.reverseRecOn with
  | nil => cases h
  | append_singleton found new ih =>
    rw [checkouts_concat] at h
    rw [List.map_append, List.mem_append]
    rcases List.mem_append.mp h with hold | hnew
    · exact .inl (ih (List.mem_of_mem_filter hold))
    · rw [List.mem_singleton.mp hnew]
      exact .inr (.head _)

/-- Checkouts that have been recorded are in their places. -/
theorem checkouts_checkouts (found rows : List Repository) :
    checkouts found (checkouts found rows) = checkouts found rows := by
  have hgone : (checkouts found []).filter
      (fun row => row.path ∉ found.map Repository.path) = [] := by
    refine List.filter_eq_nil_iff.mpr fun row hrow => ?_
    simpa using path_of_mem_checkouts hrow
  rw [checkouts_eq found (checkouts found rows), checkouts_eq found rows, List.filter_append,
    List.filter_filter, hgone]
  simp

end Store

/-! ## Preparation -/

namespace Stage

variable {α β : Type}

theorem run_bind (work : Stage α) (next : α → Stage β) (state : RunState) :
    (work >>= next).run.run state =
      match work.run.run state with
      | (.ok a, after) => (next a).run.run after
      | (.error error, after) => (.error error, after) := by
  simp only [ExceptT.run_bind, StateT.run_bind]
  rcases work.run.run state with ⟨_ | _, _⟩
  · rfl
  · rfl

theorem run_onDatabase (work : Tx α) (state : RunState) :
    (onDatabase work).run.run state =
      ((work.run.run state.bench.database).1.mapError RunError.fault,
        { state with
          bench := { state.bench with database := (work.run.run state.bench.database).2 } }) := rfl

end Stage

section

variable (setup : RunSetup) (options : RunOptions)

/-- What discovery finds in a workspace; nothing if the root is no directory. -/
def RunSetup.found (root : String) : Discovery :=
  if (setup.tree.find? root).any Node.isDirectory then
    Discovery.scout setup.tree setup.settings.traversal.maxFiles root
  else {}

/-- The tables after discovery. -/
def RunSetup.discovered (root : String) (store : Store) : Store :=
  if (setup.tree.find? root).any Node.isDirectory then (setup.found root).record store else store

/-- The steps of the build log, none if there is no log. -/
def RunSetup.steps : Except BuildLog.LogError (List BuildStep) :=
  match options.buildLog with
  | none => .ok []
  | some path =>
    (BuildLog.load setup.tree path).map (List.map (BuildLog.LogAction.step options.project))

theorem Discovery.record_spec (found : Discovery) (store : Store) :
    store.Evolves (found.record store) ∧ ∃ statistics notes,
      found.record store =
        { store with
          repositories := Store.checkouts found.repositories store.repositories
          statistics, notes } := by
  have hcounted : (found.repositories.foldl (fun store new =>
      store.addRepository new.path new.kind) store).Counted (found.record store) :=
    (Store.Counted.clearStatistics "language" _).trans (.putStatistics _ _)
  refine ⟨(Store.evolves_addRepositories found.repositories store).trans hcounted.evolves, ?_⟩
  obtain ⟨statistics, notes, hsame⟩ := hcounted.same
  rw [Store.addRepositories_eq] at hsame
  exact ⟨statistics, notes, hsame⟩

/-- Discovery writes checkouts, counters and notes; a root that is no directory has no checkouts. -/
theorem RunSetup.discovered_spec (root : String) (store : Store) :
    store.Evolves (setup.discovered root store) ∧ ∃ statistics notes,
      setup.discovered root store =
        { store with
          repositories := Store.checkouts (setup.found root).repositories store.repositories
          statistics, notes } := by
  unfold discovered
  split
  · exact (setup.found root).record_spec store
  · rename_i hroot
    refine ⟨.refl store, store.statistics, store.notes, ?_⟩
    rw [found, if_neg hroot]
    rfl

theorem run_discoverStage (root : String) {state : RunState}
    (hdb : state.bench.database.depth = 0) :
    ∃ database : Database, (discoverStage setup root).run.run state =
        (.ok (setup.found root), { state with bench := { state.bench with database } }) ∧
      database.depth = 0 ∧
      database.store = setup.discovered root state.bench.database.store := by
  by_cases hroot : (setup.tree.find? root).any Node.isDirectory = true
  · have hfound : setup.found root =
        Discovery.scout setup.tree setup.settings.traversal.maxFiles root := if_pos hroot
    rw [discoverStage, if_pos hroot, RunSetup.discovered, if_pos hroot, hfound,
      Stage.run_onDatabase]
    unfold discover
    rw [run_run_bind, Tx.run_transaction_write _ hdb]
    exact ⟨_, rfl, rfl, rfl⟩
  · rw [discoverStage, if_neg hroot, RunSetup.discovered, if_neg hroot, RunSetup.found,
      if_neg hroot]
    exact ⟨state.bench.database, rfl, hdb, rfl⟩

/-- Discovery, and then the import of the build log. -/
def prepare : Stage (Discovery × BuildLog.ImportSummary) := do
  let found ← discoverStage setup options.root
  let imported ← importStage setup options
  return (found, imported)

/-- What comes of the preparation of a run: the log cannot be read, the import is refused, or all
steps of the log are in the tables. -/
theorem run_prepare {database : Database} (hdb : database.depth = 0) :
    ∃ after : Database, after.depth = 0 ∧
      match setup.steps options with
      | .error error =>
        (prepare setup options).run.run { bench := { database } } =
          (.error (.log error), { bench := { database := after } }) ∧
        after.store = setup.discovered options.root database.store
      | .ok steps =>
        (BuildLog.Admissible (setup.discovered options.root database.store) steps ∧
          (prepare setup options).run.run { bench := { database } } =
            (.ok (setup.found options.root,
              (setup.discovered options.root database.store).summarize steps),
              { bench := { database := after } }) ∧
          after.store = (setup.discovered options.root database.store).importSteps steps) ∨
        (¬ BuildLog.Admissible (setup.discovered options.root database.store) steps ∧
          (∃ fault, (prepare setup options).run.run { bench := { database } } =
            (.error (.fault fault), { bench := { database := after } })) ∧
          (setup.discovered options.root database.store).Evolves after.store ∧
          ∃ nextAction nextFile, after.store =
            { setup.discovered options.root database.store with nextAction, nextFile }) := by
  obtain ⟨between, hdiscover, hdepth, hstore⟩ :=
    @run_discoverStage setup options.root { bench := { database } } hdb
  have hprepare : (prepare setup options).run.run { bench := { database } } =
      match (importStage setup options).run.run { bench := { database := between } } with
      | (.ok imported, after) => (.ok (setup.found options.root, imported), after)
      | (.error error, after) => (.error error, after) := by
    rw [prepare, Stage.run_bind, hdiscover]
    dsimp only
    rw [Stage.run_bind]
    rcases (importStage setup options).run.run { bench := { database := between } } with ⟨_ | _, _⟩
    · rfl
    · rfl
  rw [hprepare]
  unfold importStage RunSetup.steps
  cases options.buildLog with
  | none => exact ⟨between, hdepth, .inl ⟨trivial, rfl, hstore⟩⟩
  | some path =>
    dsimp only
    cases BuildLog.load setup.tree path with
    | error error => exact ⟨between, hdepth, rfl, hstore⟩
    | ok actions =>
      obtain ⟨after, hafter, haccepted, hrefused⟩ :=
        BuildLog.run_importActions options.project actions hdepth
      rw [hstore] at haccepted hrefused
      dsimp only
      refine ⟨after, hafter, ?_⟩
      by_cases hadmissible : BuildLog.Admissible (setup.discovered options.root database.store)
          (actions.map (BuildLog.LogAction.step options.project))
      · obtain ⟨hrun, himported⟩ := haccepted hadmissible
        refine .inl ⟨hadmissible, ?_, himported⟩
        rw [Stage.run_onDatabase, hrun]
        rfl
      · obtain ⟨⟨fault, hrun⟩, hevolves, hback⟩ := hrefused hadmissible
        refine .inr ⟨hadmissible, ⟨fault, ?_⟩, hevolves, hback⟩
        rw [Stage.run_onDatabase, hrun]
        rfl

end

/-! ## After the pass -/

/-- The stage changes the tables so and leaves no scope open; results and counts are kept. -/
structure RunState.Wrote (change : Store → Store → Prop) (before after : RunState) : Prop where
  closed : after.bench.database.depth = 0
  store : change before.bench.database.store after.bench.database.store
  channels : after.bench.channels = before.bench.channels
  tally : after.bench.tally = before.bench.tally
  progress : after.progress = before.progress

namespace RunState.Wrote

variable {change change' : Store → Store → Prop} {before between after : RunState}

theorem mono (h : before.Wrote change after)
    (hchange : ∀ store store', change store store' → change' store store') :
    before.Wrote change' after := { h with store := hchange _ _ h.store }

theorem trans (h : before.Wrote change between) (h' : between.Wrote change after)
    (hchange : ∀ {first second third}, change first second → change second third →
      change first third) : before.Wrote change after :=
  ⟨h'.closed, hchange h.store h'.store, h'.channels.trans h.channels, h'.tally.trans h.tally,
    h'.progress.trans h.progress⟩

end RunState.Wrote

/-- What parsers do to the tables while they finish: counters are written, and plugins record. -/
def Registry.Finishes (registry : Registry) : Store → Store → Prop :=
  Relation.ReflTransGen fun before after => before.Counted after ∨ registry.Acts before after

section

variable {registry : Registry} {before after : Store}

theorem Registry.Finishes.enriches (h : registry.Finishes before after) :
    before.Enriches registry.Careful after := by
  induction h with
  | refl => exact .refl _ before
  | tail _ hlast ih =>
    rcases hlast with hcounted | hacts
    · exact ih.trans (hcounted.enriches _)
    · exact ih.trans (Registry.enriches_acts (.single hacts))

/-- The indexer writes a counter. -/
theorem Registry.Finishes.counted (h : registry.Finishes before after)
    (hindexer : ∀ parser ∈ registry.enabled, parser = .indexer) : before.Counted after := by
  induction h with
  | refl => exact .refl before
  | tail _ hlast ih =>
    rcases hlast with hcounted | ⟨parser, hparser, hacts⟩
    · exact ih.trans hcounted
    · rw [hindexer parser hparser] at hacts
      exact hacts.elim

end

theorem run_finishParser {registry : Registry} {parser : Parser} (hparser : parser ∈ registry.enabled)
    {state : RunState} (hdb : state.bench.database.depth = 0) :
    ∃ after, (finishParser parser).run.run state = (.ok (), after) ∧
      state.Wrote registry.Finishes after := by
  cases parser with
  | plugin p =>
    let answer := p.afterParse ⟨state.bench.memory, state.bench.database.store⟩ state.bench.tally
    let called : RunState := { state with bench := { state.bench with
      calls := state.bench.calls ++ [.afterParse p.name], memory := answer.2.memory } }
    have hrun : (finishParser (.plugin p)).run.run state =
        (if answer.1 then Stage.onDatabase (Tx.transaction (Tx.write answer.2.record))
          else pure () : Stage Unit).run.run called := rfl
    rw [hrun]
    cases answer.1 with
    | false => exact ⟨called, rfl, hdb, .refl, rfl, rfl, rfl⟩
    | true =>
      rw [if_pos rfl, Stage.run_onDatabase, Tx.run_transaction_write _ hdb]
      exact ⟨_, rfl, rfl, .single (.inr ⟨_, hparser, .afterParse _ _⟩), rfl, rfl, rfl⟩
  | indexer =>
    let started : RunState := { state with bench := { state.bench with indexer := {} } }
    let row : Statistic := ⟨Parser.indexer.name, "headers", state.bench.indexer.indexed⟩
    have hrun : (finishParser .indexer).run.run state =
        (Stage.onDatabase (Tx.transaction (Tx.write (Store.putStatistic row)))).run.run started :=
      rfl
    rw [hrun, Stage.run_onDatabase, Tx.run_transaction_write _ hdb]
    exact ⟨_, rfl, rfl, .single (.inl (.putStatistic row _)), rfl, rfl, rfl⟩

theorem run_afterParse (registry : Registry) {state : RunState}
    (hdb : state.bench.database.depth = 0) :
    ∃ after, (afterParse registry).run.run state = (.ok (), after) ∧
      state.Wrote registry.Finishes after := by
  have hall : ∀ parsers ⊆ registry.enabled, ∀ state : RunState, state.bench.database.depth = 0 →
      ∃ after, (parsers.forM finishParser : Stage Unit).run.run state = (.ok (), after) ∧
        state.Wrote registry.Finishes after := by
    intro parsers hparsers
    induction parsers with
    | nil => exact fun state hdb => ⟨state, rfl, hdb, .refl, rfl, rfl, rfl⟩
    | cons parser rest ih =>
      intro state hdb
      obtain ⟨hparser, hothers⟩ := List.cons_subset.mp hparsers
      obtain ⟨between, hrun, hfirst⟩ := run_finishParser hparser hdb
      obtain ⟨after, hrun', hrest⟩ := ih hothers between hfirst.closed
      refine ⟨after, ?_, hfirst.trans hrest .trans⟩
      show (finishParser parser >>= fun _ => rest.forM finishParser).run.run state = _
      rw [Stage.run_bind, hrun]
      exact hrun'
  exact hall _ (List.Subset.refl _) state hdb

theorem finishes_of_afterParse {registry : Registry} {state after : RunState}
    {result : Except RunError Unit} (hdb : state.bench.database.depth = 0)
    (h : (afterParse registry).run.run state = (result, after)) :
    state.Wrote registry.Finishes after := by
  obtain ⟨_, hrun, hfinishes⟩ := run_afterParse registry hdb
  rw [hrun] at h
  cases h
  exact hfinishes

theorem run_persistStatistics (time : String) (cluster : Option Cluster.Summary) {state : RunState}
    (hdb : state.bench.database.depth = 0) :
    ∃ after, (persistStatistics time cluster).run.run state = (.ok (), after) ∧
      state.Wrote Store.Counted after := by
  have hrun : (persistStatistics time cluster).run.run state =
      (Stage.onDatabase (Tx.transaction (Tx.write fun store =>
        (recordCounters state.bench.tally cluster store).setNote "last_run" (some time)))).run.run
        state := rfl
  rw [hrun, Stage.run_onDatabase, Tx.run_transaction_write _ hdb]
  refine ⟨_, rfl, rfl, ?_, rfl, rfl, rfl⟩
  exact (Store.Counted.recordCounters state.bench.tally cluster _).trans (.setNote _ _ _)

theorem counted_of_persistStatistics {time : String} {cluster : Option Cluster.Summary}
    {state after : RunState} {result : Except RunError Unit}
    (hdb : state.bench.database.depth = 0)
    (h : (persistStatistics time cluster).run.run state = (result, after)) :
    state.Wrote Store.Counted after := by
  obtain ⟨_, hrun, hcounted⟩ := run_persistStatistics time cluster hdb
  rw [hrun] at h
  cases h
  exact hcounted

end SymbolAtlas
