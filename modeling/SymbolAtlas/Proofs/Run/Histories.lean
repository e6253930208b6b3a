import SymbolAtlas.Proofs.Run.Stages

/-!
# Histories of runs

A run is a sequence of stages on one database. Its index jobs and its cluster jobs run on threads,
so that one run may come to several results.

- **Runs** (`Runs`): all that may come of a run, with its index jobs interleaved in any way and with
  the number of cluster workers that its settings ask for. The run that does everything in order is
  one of them (`runs_runWorkspace`).
- **Between runs** (`Steady`): no transaction is open, the tables are whole, and no action was
  skipped. With plugins that take care, whatever is named has a row. Every run keeps this, whether
  it succeeds or not (`Runs.steady`).
- **After a run that has succeeded** (`Finished`): no action is outstanding, all steps of the build
  log are known, and the checkouts and the clusters are those that the run has found. This needs
  parsers that answer (`Runs.finished_of_ok`).
- **Histories** (`Reachable`): databases that come of any runs over a new one, with parsers of a
  certain kind. `runs_keep_references` says what holds of all of them.
-/

namespace SymbolAtlas

/-! ## Runs -/

/-- How the actions of a run are dispatched. -/
def RunSetup.dispatch (setup : RunSetup) (root : String) : DispatchSettings where
  registry := setup.registry
  wholeCommand := setup.settings.parse.wholeCommand
  includePaths := setup.settings.resolvedIncludePaths root

/-- Clusters are computed and recorded, if the settings ask for them. -/
inductive Clusters (settings : Settings) (state : RunState) :
    Option Cluster.Summary → RunState → Prop where
  | disabled : settings.cluster.enabled = false → Clusters settings state none state
  | computed {map : ClusterMap} {summary : Cluster.Summary} : settings.cluster.enabled = true →
      Cluster.Comes settings.clusterJobs? state.bench.database.store Worded.all map summary →
      Clusters settings state (some summary)
        { state with
          bench := { state.bench with
            database := ((Tx.transaction (Tx.write (Store.replaceClusters map))).run.run
              state.bench.database).2 } }

/-- What may come of a run. -/
inductive Runs (setup : RunSetup) (options : RunOptions) (database : Database) :
    Except RunError RunSummary → RunState → Prop where
  /-- the build log cannot be read, or the import is refused -/
  | refused {error : RunError} {state : RunState} :
      (prepare setup options).run.run { bench := { database } } = (.error error, state) →
      Runs setup options database (.error error) state
  /-- dispatching is ended by a fault -/
  | failed {prepared : Discovery × BuildLog.ImportSummary} {state : RunState} {bench final : Bench}
      {pass : Pass} {fault : Fault} :
      (prepare setup options).run.run { bench := { database } } = (.ok prepared, state) →
      state.bench.start = .ok bench → Parses (setup.dispatch options.root) bench pass final →
      pass.fault = some fault →
      Runs setup options database (.error (.fault fault))
        { bench := final, progress := pass.progress }
  /-- all stages succeed -/
  | finished {prepared : Discovery × BuildLog.ImportSummary}
      {state parsed clustered after : RunState} {bench final : Bench} {pass : Pass}
      {cluster : Option Cluster.Summary} :
      (prepare setup options).run.run { bench := { database } } = (.ok prepared, state) →
      state.bench.start = .ok bench → Parses (setup.dispatch options.root) bench pass final →
      pass.fault = none →
      (afterParse setup.registry).run.run { bench := final, progress := pass.progress } =
        (.ok (), parsed) →
      Clusters setup.settings parsed cluster clustered →
      (persistStatistics setup.time cluster).run.run clustered = (.ok (), after) →
      Runs setup options database
        (.ok { filesDiscovered := prepared.1.counts.files
               repositories := prepared.1.repositories.length
               actionsImported := prepared.2.imported
               schedule := pass.summary
               parse := after.bench.tally
               cluster })
        after

/-! ## Between runs -/

/-- What holds of a database between runs; with care, whatever is named has a row. -/
structure Steady (careful : Prop) (database : Database) : Prop where
  closed : database.depth = 0
  whole : database.store.Whole
  unskipped : database.store.Unskipped
  intact : careful → database.store.Intact

theorem steady_empty (careful : Prop) : Steady careful .empty where
  closed := rfl
  whole := BuildLog.Imported.empty.whole
  unskipped := nofun
  intact _ := Store.intact_empty.evolves (Store.evolves_setNote _ _ {}) rfl rfl rfl rfl rfl

/-- The rows of actions of consistent tables can be dispatched. -/
theorem Store.Consistent.sound {store : Store} (h : store.Consistent) : store.Sound where
  ascending := h.actions.ascending
  kinds row hrow _ := by
    obtain ⟨kind, hkind⟩ := h.actions.kinds row hrow
    refine ⟨kind, ?_⟩
    rw [hkind]
    cases kind <;> decide

section

variable {setup : RunSetup} {options : RunOptions} {database : Database} {careful : Prop}

theorem Steady.mono {careful' : Prop} (h : Steady careful' database)
    (hcareful : careful → careful') : Steady careful database :=
  { h with intact := fun h' => h.intact (hcareful h') }

/-- A run is prepared, or is refused. In both cases nothing is lost, and once it is prepared, all
steps of the log are known. -/
theorem Steady.of_prepare (h : Steady careful database)
    {result : Except RunError (Discovery × BuildLog.ImportSummary)} {state : RunState}
    (hrun : (prepare setup options).run.run { bench := { database } } = (result, state)) :
    ∃ after : Database, state = { bench := { database := after } } ∧ Steady careful after ∧
      ∀ prepared, result = .ok prepared →
        prepared.1 = setup.found options.root ∧
        (∃ steps, setup.steps options = .ok steps ∧ ∀ step ∈ steps, after.store.Knows step) ∧
        after.store.repositories =
          Store.checkouts (setup.found options.root).repositories database.store.repositories := by
  obtain ⟨after, hclosed, houtcome⟩ := run_prepare setup options h.closed
  obtain ⟨hevolves, statistics, notes, hsame⟩ :=
    setup.discovered_spec options.root database.store
  have hwhole : (setup.discovered options.root database.store).Whole := by
    refine h.whole.evolves hevolves ?_ ?_ <;> rw [hsame]
  have hintact : careful → (setup.discovered options.root database.store).Intact := by
    intro hcareful
    refine (h.intact hcareful).evolves hevolves ?_ ?_ ?_ ?_ ?_ <;> rw [hsame]
  have hactions : (setup.discovered options.root database.store).actions =
      database.store.actions := by rw [hsame]
  have hcheckouts : (setup.discovered options.root database.store).repositories =
      Store.checkouts (setup.found options.root).repositories database.store.repositories := by
    rw [hsame]
  cases hsteps : setup.steps options with
  | error error =>
    rw [hsteps] at houtcome
    obtain ⟨hrefused, hstore⟩ := houtcome
    rw [hrefused] at hrun
    cases hrun
    refine ⟨after, rfl, ⟨hclosed, hstore ▸ hwhole, ?_, hstore ▸ hintact⟩, by rintro _ ⟨⟩⟩
    rw [Store.Unskipped, hstore, hactions]
    exact h.unskipped
  | ok steps =>
    rw [hsteps] at houtcome
    rcases houtcome with ⟨-, haccepted, hstore⟩ | ⟨-, ⟨fault, hrefused⟩, hrenumbered, hback⟩
    · rw [haccepted] at hrun
      cases hrun
      obtain ⟨himported, -, -, hknown⟩ := Store.whole_importSteps hwhole steps
      refine ⟨after, rfl, ⟨hclosed, hstore ▸ himported, fun row hrow => ?_,
        fun hcareful => hstore ▸ (hintact hcareful).importSteps steps⟩, ?_⟩
      · rw [hstore] at hrow
        rcases Store.mem_importSteps hrow with hold | hnew
        · exact h.unskipped row (hactions ▸ hold)
        · rw [hnew]
          decide
      · rintro _ ⟨⟩
        refine ⟨rfl, ⟨steps, rfl, hstore ▸ hknown⟩, ?_⟩
        rw [hstore, Store.repositories_importSteps]
        exact hcheckouts
    · rw [hrefused] at hrun
      cases hrun
      obtain ⟨nextAction, nextFile, hback⟩ := hback
      refine ⟨after, rfl, ⟨hclosed, ?_, ?_, fun hcareful => ?_⟩, by rintro _ ⟨⟩⟩
      · refine hwhole.evolves hrenumbered ?_ ?_ <;> rw [hback]
      · rw [Store.Unskipped, hback]
        show ∀ row ∈ (setup.discovered options.root database.store).actions, _
        rw [hactions]
        exact h.unskipped
      · refine (hintact hcareful).evolves hrenumbered ?_ ?_ ?_ ?_ ?_ <;> rw [hback]

/-- The bench on which the actions of a run are dispatched. -/
def Bench.ready (database : Database) : Bench where
  database
  collector := { phase := .running }

theorem Steady.idle_ready (h : Steady careful database) : (Bench.ready database).Idle :=
  ⟨rfl, rfl, nofun, Database.refuses_of_depth h.closed⟩

theorem Steady.grown (h : Steady careful database) :
    (Bench.ready database).Grown careful database.store :=
  ⟨h.closed, .refl _, h.whole, h.unskipped, rfl, h.intact, nofun⟩

/-- Dispatching keeps the tables whole and skips no action, also if it is ended by a fault. -/
theorem Steady.of_parses (h : Steady careful database) {settings : DispatchSettings}
    (hcareful : careful → settings.registry.Careful) {pass : Pass} {final : Bench}
    (hparses : Parses settings (.ready database) pass final) : Steady careful final.database := by
  have hgrown := hparses.grown h.grown hcareful
  exact ⟨hgrown.closed, hgrown.whole, hgrown.unskipped, hgrown.intact⟩

/-- If the parsers answer, dispatching does not fail and leaves no action outstanding. -/
theorem Steady.settled_of_parses (h : Steady False database) {settings : DispatchSettings}
    (hanswers : settings.registry.Answers) {pass : Pass} {final : Bench}
    (hparses : Parses settings (.ready database) pass final) :
    pass.fault = none ∧ pass.summary.skipped = 0 ∧
      (∀ row ∈ final.database.store.actions, row.state ≠ Store.createdWord) ∧
      (∀ step, database.store.Knows step → final.database.store.Knows step) ∧
      final.database.store.repositories = database.store.repositories := by
  have hgrown := hparses.grown h.grown False.elim
  obtain ⟨tasks, hsettled⟩ := hparses.settled h.grown h.whole.consistent.sound h.idle_ready hanswers
  refine ⟨hsettled.fault, ?_, fun row hrow => ?_, fun step hstep => ?_, hgrown.repositories⟩
  · rw [hsettled.skipped, List.countP_eq_zero]
    intro row _
    show ¬ (!row.isLink && database.store.lacksSource row.id) = true
    rw [h.whole.lacksSource_eq]
    simp
  · rw [hsettled.actions] at hrow
    obtain ⟨old, -, rfl⟩ := List.mem_map.mp hrow
    by_cases hcreated : old.state = Store.createdWord
    · rw [if_pos hcreated]
      exact Store.word_ne_createdWord (Store.verdict_ne_created _ old)
    · rw [if_neg hcreated]
      exact hcreated
  · exact hstep.evolves hgrown.evolves hgrown.whole.consistent.files hsettled.sources
      hsettled.targets

/-! ## After a run that has succeeded -/

/-- All that the workspace and the log say is in the tables, and no action is outstanding. -/
structure Done (setup : RunSetup) (options : RunOptions) (store : Store) : Prop where
  settled : ∀ row ∈ store.actions, row.state ≠ Store.createdWord
  known : ∃ steps, setup.steps options = .ok steps ∧ ∀ step ∈ steps, store.Knows step
  checkouts : Store.checkouts (setup.found options.root).repositories store.repositories =
    store.repositories

theorem Done.evolves {before after : Store} (h : Done setup options before)
    (hevolves : before.Evolves after) (hwhole : after.Whole)
    (hactions : after.actions = before.actions) (hsources : after.sources = before.sources)
    (htargets : after.targets = before.targets)
    (hrepositories : after.repositories = before.repositories) : Done setup options after where
  settled := by
    rw [hactions]
    exact h.settled
  known := by
    obtain ⟨steps, hsteps, hknown⟩ := h.known
    refine ⟨steps, hsteps, fun step hstep => ?_⟩
    exact (hknown step hstep).evolves hevolves hwhole.consistent.files hsources htargets
  checkouts := by
    rw [hrepositories]
    exact h.checkouts

/-- Tables may be enriched. -/
theorem Done.enriched {before after : Store} (h : Done setup options before)
    (henriches : before.Enriches careful after) (hwhole : before.Whole) :
    Done setup options after :=
  h.evolves henriches.evolves (henriches.whole hwhole) henriches.beside.actions
    henriches.beside.sources henriches.beside.targets henriches.beside.repositories

theorem Steady.enriched {before after : RunState} (h : Steady careful before.bench.database)
    (hwrote : before.Wrote (Store.Enriches careful) after) :
    Steady careful after.bench.database := by
  refine ⟨hwrote.closed, hwrote.store.whole h.whole, ?_,
    fun hcareful => hwrote.store.intact hcareful (h.intact hcareful)⟩
  rw [Store.Unskipped, hwrote.store.beside.actions]
  exact h.unskipped

/-- What parsers that finish do to the tables enriches them. -/
theorem enriches_of_finishes {registry : Registry} (hcareful : careful → registry.Careful)
    {before after : RunState} (h : before.Wrote registry.Finishes after) :
    before.Wrote (Store.Enriches careful) after :=
  h.mono fun _ _ hfinishes => hfinishes.enriches.mono hcareful

theorem enriches_of_counted {before after : RunState} (h : before.Wrote Store.Counted after) :
    before.Wrote (Store.Enriches careful) after :=
  h.mono fun _ _ hcounted => hcounted.enriches careful

/-- What a run that has succeeded says of the tables it leaves. -/
structure Finished (setup : RunSetup) (options : RunOptions) (summary : RunSummary)
    (store : Store) : Prop where
  done : Done setup options store
  files : summary.filesDiscovered = (setup.found options.root).counts.files
  repositories : summary.repositories = (setup.found options.root).repositories.length
  unskipped : summary.schedule.skipped = 0
  /-- one worker computes the clusters that the tables call for -/
  clustered : setup.settings.cluster.enabled = true → setup.settings.clusterJobs? = some 1 →
    summary.cluster = some (Cluster.assign store Worded.all).2 ∧
      store.clusters = (Cluster.assign store Worded.all).1.rows
  unclustered : setup.settings.cluster.enabled = false → summary.cluster = none

/-- Only clusters are written, and those name what is there. -/
theorem Clusters.keeps {settings : Settings} {before after : RunState}
    {cluster : Option Cluster.Summary} (h : Clusters settings before cluster after)
    (hsteady : Steady careful before.bench.database) :
    Steady careful after.bench.database ∧
      before.bench.database.store.Evolves after.bench.database.store ∧
      ∃ clusters, after.bench.database.store =
        { before.bench.database.store with clusters } ∧
        (settings.cluster.enabled = true → settings.clusterJobs? = some 1 →
          cluster = some (Cluster.assign before.bench.database.store Worded.all).2 ∧
            clusters = (Cluster.assign before.bench.database.store Worded.all).1.rows) ∧
        (settings.cluster.enabled = false → cluster = none) := by
  cases h with
  | disabled hdisabled =>
    exact ⟨hsteady, .refl _, _, rfl, by simp [hdisabled], fun _ => rfl⟩
  | @computed map summary henabled hcomes =>
    rw [Tx.run_transaction_write _ hsteady.closed]
    have hevolves : before.bench.database.store.Evolves
        (before.bench.database.store.replaceClusters map) :=
      Store.evolves_references _ _ _ _ _ _
    have hafter : Steady careful ⟨before.bench.database.store.replaceClusters map,
        before.bench.database.store, 0, false⟩ := by
      refine ⟨rfl, hsteady.whole.evolves hevolves rfl rfl, hsteady.unskipped, fun hcareful => ?_⟩
      have hintact := hsteady.intact hcareful
      exact hintact.replaceClusters (hcomes.writing.known hintact).1
    refine ⟨hafter, hevolves, _, rfl, fun _ hone => ?_, by simp [henabled]⟩
    have hassign := (hone ▸ hcomes).eq_assign
    rw [← hassign]
    exact ⟨rfl, rfl⟩

/-- A run keeps what holds between runs, whether it succeeds or not. -/
theorem Runs.steady {result : Except RunError RunSummary} {state : RunState}
    (h : Runs setup options database result state) (hdatabase : Steady careful database)
    (hcareful : careful → setup.registry.Careful) : Steady careful state.bench.database := by
  cases h with
  | refused hprepare =>
    obtain ⟨after, rfl, hsteady, -⟩ := hdatabase.of_prepare hprepare
    exact hsteady
  | failed hprepare hstart hparses _ =>
    obtain ⟨after, rfl, hsteady, -⟩ := hdatabase.of_prepare hprepare
    cases hstart
    exact hsteady.of_parses hcareful hparses
  | finished hprepare hstart hparses _ hafter hclusters hpersist =>
    obtain ⟨ready, rfl, hready, -⟩ := hdatabase.of_prepare hprepare
    cases hstart
    have hfinal := hready.of_parses hcareful hparses
    have hparsed := hfinal.enriched
      (enriches_of_finishes hcareful (finishes_of_afterParse hfinal.closed hafter))
    have hclustered := (hclusters.keeps hparsed).1
    exact hclustered.enriched
      (enriches_of_counted (counted_of_persistStatistics hclustered.closed hpersist))

/-- A run with parsers that answer, if it succeeds, leaves nothing to do. -/
theorem Runs.finished_of_ok {summary : RunSummary} {state : RunState}
    (h : Runs setup options database (.ok summary) state) (hdatabase : Steady False database)
    (hanswers : setup.registry.Answers) :
    Finished setup options summary state.bench.database.store := by
  cases h with
  | @finished _ _ parsed clustered _ _ final _ _ hprepare hstart hparses _ hafter hclusters
      hpersist =>
    obtain ⟨ready, rfl, hready, hprepared⟩ := hdatabase.of_prepare hprepare
    obtain ⟨hfound, ⟨steps, hsteps, hknown⟩, hcheckouts⟩ := hprepared _ rfl
    cases hstart
    have hfinal := hready.of_parses False.elim hparses
    obtain ⟨-, hskipped, hsettled, hkept, hrepositories⟩ :=
      hready.settled_of_parses hanswers hparses
    have hdone : Done setup options final.database.store := by
      refine ⟨hsettled, ⟨steps, hsteps, fun step hstep => hkept step (hknown step hstep)⟩, ?_⟩
      rw [hrepositories, hcheckouts, Store.checkouts_checkouts]
    -- the parsers finish
    have hfinishes := enriches_of_finishes False.elim (finishes_of_afterParse hfinal.closed hafter)
    have hparsed := hfinal.enriched hfinishes
    have hdone := hdone.enriched hfinishes.store hfinal.whole
    -- clusters are computed
    obtain ⟨hclustered, hevolves, clusters, hsame, hone, hnone⟩ := hclusters.keeps hparsed
    have hdone : Done setup options clustered.bench.database.store := by
      refine hdone.evolves hevolves hclustered.whole ?_ ?_ ?_ ?_ <;> rw [hsame]
    -- the counters are recorded
    have hrecorded := counted_of_persistStatistics hclustered.closed hpersist
    refine ⟨hdone.enriched (hrecorded.store.enriches False) hclustered.whole, by rw [hfound],
      by rw [hfound], hskipped, fun henabled hjobs => ?_, hnone⟩
    obtain ⟨statistics, notes, hstore⟩ := hrecorded.store.same
    have hassign : Cluster.assign state.bench.database.store Worded.all =
        Cluster.assign parsed.bench.database.store Worded.all := by
      rw [hstore, hsame]
      exact Cluster.assign_congr rfl rfl rfl rfl _
    rw [hassign, hstore, hsame]
    exact hone henabled hjobs

/-! ## The run that does everything in order -/

variable (setup options) in
/-- What a run does once it is prepared. -/
def complete (prepared : Discovery × BuildLog.ImportSummary) : Stage RunSummary := do
  let schedule ← parseStage setup options.root
  afterParse setup.registry
  let cluster ← clusterStage setup.settings
  persistStatistics setup.time cluster
  return { filesDiscovered := prepared.1.counts.files
           repositories := prepared.1.repositories.length
           actionsImported := prepared.2.imported
           schedule
           parse := (← get).bench.tally
           cluster }

theorem runStages_eq :
    runStages setup options = prepare setup options >>= complete setup options := by
  simp only [runStages, prepare, complete, bind_assoc, pure_bind]

theorem run_parseStage (root : String) {state : RunState} {bench : Bench}
    (hstart : state.bench.start = .ok bench) :
    (parseStage setup root).run.run state =
      (match (runPass (setup.dispatch root) setup.tree bench).1.fault with
        | some fault => .error (.fault fault)
        | none => .ok (runPass (setup.dispatch root) setup.tree bench).1.summary,
        { bench := (runPass (setup.dispatch root) setup.tree bench).2.dropProducers.stop
          progress := (runPass (setup.dispatch root) setup.tree bench).1.progress }) := by
  have hget : (get : Stage RunState).run.run state = (.ok state, state) := rfl
  unfold parseStage RunSetup.dispatch
  rw [Stage.run_bind, hget]
  dsimp only
  rw [hstart]
  dsimp only
  generalize runPass _ setup.tree bench = ran
  obtain ⟨⟨summary, progress, fault⟩, final⟩ := ran
  cases fault with
  | some fault => rfl
  | none => rfl

theorem run_clusterStage (settings : Settings) {state : RunState}
    (hdb : state.bench.database.depth = 0) :
    ∃ cluster after, (clusterStage settings).run.run state = (.ok cluster, after) ∧
      Clusters settings state cluster after := by
  unfold clusterStage
  by_cases henabled : settings.cluster.enabled = true
  · rw [if_pos henabled, Stage.run_bind, Stage.run_onDatabase]
    have hcomes := Cluster.comes_assign settings.clusterJobs? state.bench.database.store Worded.all
    have hrun : (Cluster.run Worded.all).run.run state.bench.database =
        (.ok (Cluster.assign state.bench.database.store Worded.all),
          ((Tx.transaction (Tx.write (Store.replaceClusters
            (Cluster.assign state.bench.database.store Worded.all).1))).run.run
              state.bench.database).2) := by
      rw [Tx.run_transaction_write _ hdb, Cluster.run, Tx.run_transaction,
        Database.enter_of_depth hdb, run_run_bind, Tx.run_read (by rfl)]
      generalize Cluster.assign state.bench.database.store Worded.all = assigned
      rfl
    rw [hrun]
    exact ⟨_, _, rfl, .computed henabled hcomes⟩
  · rw [if_neg henabled]
    exact ⟨none, state, rfl, .disabled (by simpa using henabled)⟩

/-- The run that does everything in order is one of those that may come. -/
theorem runs_runWorkspace (hdatabase : Steady False database) :
    Runs setup options database (runWorkspace setup options database).1
      (runWorkspace setup options database).2 := by
  rw [runWorkspace, runStages_eq, Stage.run_bind]
  rcases hprepare : (prepare setup options).run.run { bench := { database } } with
    ⟨error | prepared, state⟩
  · exact .refused hprepare
  dsimp only
  obtain ⟨ready, rfl, hready, -⟩ := hdatabase.of_prepare hprepare
  have hstart : ({ database := ready } : Bench).start = .ok (.ready ready) := rfl
  have hparses : Parses (setup.dispatch options.root) (.ready ready) _ _ :=
    parses_runPass hready.grown setup.tree
  rw [complete, Stage.run_bind, run_parseStage options.root hstart]
  generalize runPass (setup.dispatch options.root) setup.tree (.ready ready) = ran at hparses ⊢
  obtain ⟨pass, final⟩ := ran
  dsimp only at hparses ⊢
  cases hfault : pass.fault with
  | some fault => exact .failed hprepare hstart hparses hfault
  | none =>
    have hfinal := hready.of_parses False.elim hparses
    obtain ⟨parsed, hafter, hfinishes⟩ := @run_afterParse setup.registry
      { bench := final.dropProducers.stop, progress := pass.progress } hfinal.closed
    have hparsed := hfinal.enriched (enriches_of_finishes False.elim hfinishes)
    obtain ⟨cluster, clustered, hcluster, hclusters⟩ := run_clusterStage setup.settings hparsed.closed
    have hclustered := (hclusters.keeps hparsed).1
    obtain ⟨after, hpersist, -⟩ := run_persistStatistics setup.time cluster hclustered.closed
    dsimp only
    rw [Stage.run_bind, hafter]
    dsimp only
    rw [Stage.run_bind, hcluster]
    dsimp only
    rw [Stage.run_bind, hpersist]
    exact .finished hprepare hstart hparses hfault hafter hclusters hpersist

end

/-! ## Histories -/

theorem indexer_builtIn (tree : FileTree) (settings : Settings) (time : String) :
    ∀ parser ∈ (RunSetup.builtIn tree settings time).registry.enabled, parser = .indexer := by
  intro parser hparser
  have hmem : parser ∈ [Parser.indexer] := List.mem_of_mem_filter hparser
  exact List.mem_singleton.mp hmem

/-- The built-in parser answers to every source. -/
theorem answers_builtIn (tree : FileTree) (settings : Settings) (time : String) :
    (RunSetup.builtIn tree settings time).registry.Answers := by
  intro parser hparser
  rw [indexer_builtIn tree settings time parser hparser]
  trivial

/-- The built-in parser leaves all that it does to its jobs. -/
theorem careful_builtIn (tree : FileTree) (settings : Settings) (time : String) :
    (RunSetup.builtIn tree settings time).registry.Careful := by
  rintro before after ⟨parser, hparser, hacts⟩
  rw [indexer_builtIn tree settings time parser hparser] at hacts
  exact hacts.elim

/-- Databases that come of any runs over a new one, each with its own workspace and settings, and
with parsers of the given kind. -/
inductive Reachable (parsers : Registry → Prop) : Database → Prop where
  | empty : Reachable parsers .empty
  | run {database : Database} {setup : RunSetup} {options : RunOptions}
      {result : Except RunError RunSummary} {state : RunState} :
      Reachable parsers database → parsers setup.registry →
      Runs setup options database result state → Reachable parsers state.bench.database

section

variable {parsers : Registry → Prop} {database : Database}

theorem Reachable.steady (h : Reachable parsers database) :
    Steady (∀ registry, parsers registry → registry.Careful) database := by
  induction h with
  | empty => exact steady_empty _
  | run _ hparsers hruns ih => exact hruns.steady ih fun hcareful => hcareful _ hparsers

theorem Reachable.runWorkspace (h : Reachable parsers database) {setup : RunSetup}
    (hparsers : parsers setup.registry) (options : RunOptions) :
    Reachable parsers (SymbolAtlas.runWorkspace setup options database).2.bench.database :=
  h.run hparsers (runs_runWorkspace (h.steady.mono False.elim))

end

/-- After every run of a history, over whatever workspaces and logs, with whatever settings, and
with plugins that name files and symbols only if they are there: all files and actions that some
table names have rows, and no action was skipped. If it is a run with the built-in parser that has
succeeded, no action is outstanding either. -/
theorem runs_keep_references {database : Database}
    (hdatabase : Reachable Registry.Careful database)
    (tree : FileTree) (settings : Settings) (time : String) (options : RunOptions) :
    Runs (.builtIn tree settings time) options database
      (runWorkspace (.builtIn tree settings time) options database).1
      (runWorkspace (.builtIn tree settings time) options database).2 ∧
    ∀ result state, Runs (.builtIn tree settings time) options database result state →
      Reachable Registry.Careful state.bench.database ∧ state.bench.database.store.Intact ∧
      (∀ row ∈ state.bench.database.store.actions,
        row.state ≠ Worded.word ActionState.skipped) ∧
      ∀ summary, result = .ok summary →
        summary.schedule.skipped = 0 ∧
        ∀ row ∈ state.bench.database.store.actions,
          row.state ≠ Worded.word ActionState.created := by
  have hbefore : Steady True database := hdatabase.steady.mono fun _ _ hcareful => hcareful
  refine ⟨runs_runWorkspace (hbefore.mono False.elim), fun result state hruns => ?_⟩
  have hcareful := careful_builtIn tree settings time
  have hafter := hruns.steady hbefore fun _ => hcareful
  refine ⟨hdatabase.run hcareful hruns, hafter.intact trivial, hafter.unskipped,
    fun summary hsummary => ?_⟩
  rw [hsummary] at hruns
  have hfinished :=
    hruns.finished_of_ok (hbefore.mono False.elim) (answers_builtIn tree settings time)
  exact ⟨hfinished.unskipped, hfinished.done.settled⟩

/-- A checkout that is built with two commands, one of them for a source that is not there. -/
def assembledTree : FileTree where
  root := .directory
    [("log.json", .file ("[\x7b\"directory\":\"/\",\"file\":\"a.c\",\"command\":\"cc a.c\"\x7d," ++
       "\x7b\"directory\":\"/\",\"file\":\"b.s\",\"command\":\"as b.s\"\x7d]").toUTF8),
     ("w", .directory [(".git", .directory [])])]
  workingDirectory := "/"

/-- How runs over the checkout are done: clusters are computed by one worker. -/
def assembledSetup : RunSetup := .builtIn assembledTree { cluster := { jobs := some 1 } } "noon"

/-- A run over the checkout with a log at the given path. -/
def assembled (log : String) : RunOptions := { root := "/w", buildLog := some log, project := "p" }

/-- The database after a run whose log is not there. -/
def assembledDatabase : Database :=
  (runWorkspace assembledSetup (assembled "/none") .empty).2.bench.database

theorem reachable_assembled : Reachable Registry.Careful assembledDatabase :=
  @Reachable.runWorkspace _ _ .empty assembledSetup (careful_builtIn _ _ _)
    (assembled "/none")

/-- A run on it takes both commands. -/
theorem exists_assembled : ∃ summary state,
    runWorkspace assembledSetup (assembled "/log.json") assembledDatabase = (.ok summary, state) ∧
    summary.schedule.tasks = 2 ∧ state.bench.database.store.sources.length = 2 := by
  have hevaluated : (match runWorkspace assembledSetup (assembled "/log.json") assembledDatabase with
      | (.ok summary, state) =>
        decide (summary.schedule.tasks = 2 ∧ state.bench.database.store.sources.length = 2)
      | (.error _, _) => false) = true := by
    decide +kernel
  rcases hrun : runWorkspace assembledSetup (assembled "/log.json") assembledDatabase with
    ⟨error | summary, state⟩
  · rw [hrun] at hevaluated
    cases hevaluated
  · rw [hrun] at hevaluated
    exact ⟨summary, state, rfl, of_decide_eq_true hevaluated⟩

theorem runs_keep_references_assembled :
    Reachable Registry.Careful assembledDatabase ∧
    ∃ summary state,
      runWorkspace assembledSetup (assembled "/log.json") assembledDatabase = (.ok summary, state) ∧
      summary.schedule.tasks = 2 ∧ state.bench.database.store.sources.length = 2 ∧
      state.bench.database.store.Intact ∧ summary.schedule.skipped = 0 ∧
      ∀ row ∈ state.bench.database.store.actions,
        row.state ≠ Worded.word ActionState.skipped ∧
        row.state ≠ Worded.word ActionState.created := by
  obtain ⟨summary, state, hrun, htasks, hsources⟩ := exists_assembled
  obtain ⟨hruns, hkept⟩ :=
    runs_keep_references reachable_assembled assembledTree { cluster := { jobs := some 1 } } "noon"
      (assembled "/log.json")
  rw [← assembledSetup, hrun] at hruns
  obtain ⟨-, hintact, hunskipped, hsummary⟩ := hkept _ _ hruns
  obtain ⟨hskipped, hsettled⟩ := hsummary summary rfl
  exact ⟨reachable_assembled, summary, state, hrun, htasks, hsources, hintact, hskipped,
    fun row hrow => ⟨hunskipped row hrow, hsettled row hrow⟩⟩

end SymbolAtlas
