import SymbolAtlas.Proofs.Run.Histories

/-!
# Repeated runs

A run that has succeeded leaves nothing to do for another one over the same workspace.

- **Quiet benches** (`Bench.Quiet`): no job is started, and no unit is held. While no action is
  outstanding, this stays so for a whole pass, whatever may go on beside it (`Parses.quiet`).
- **Known steps** (`Done.run_prepare`): all steps of the log are known and all checkouts are in
  their places, so that preparing the run writes counters only.
- **The same clusters** (`Finished.clusters_eq`): one worker computes them from tables that are the
  same.
- **Repeated runs** (`repeated_run_rests`): of any run that may come, only counters and notes
  differ.
-/

namespace SymbolAtlas

/-! ## Passes with nothing to do -/

section

variable {settings : DispatchSettings} {store : Store} {bench start after final : Bench}
  {pass : Pass}

/-- No row is found where none is outstanding. -/
theorem Store.nextOutstanding_of_settled
    (hsettled : ∀ row ∈ store.actions, row.state ≠ createdWord) (cursor : Option Int) :
    store.nextOutstanding cursor = .ok none := by
  have hnone : store.nextRow? cursor = none := by
    refine List.find?_eq_none.mpr fun row hrow => ?_
    simp [hsettled row hrow]
  rw [nextOutstanding_eq, hnone]

/-- A step that finds no action opens a scope and closes it. -/
theorem run_passStep_of_none (hdb : bench.database.refuses = false)
    (hnext : bench.database.store.nextOutstanding bench.cursor = .ok none) :
    (passStep settings).run.run bench =
      (.ok none, { bench with database := bench.database.enter.leave true }) := by
  have hfound : (nextTask settings).run.run { bench with database := bench.database.enter } =
      (.ok none, { bench with database := bench.database.enter }) := by
    have hentered : bench.database.enter.store.nextOutstanding bench.cursor = .ok none := hnext
    rw [run_nextTask, nextTaskWithin_succ _ _ (by rw [Database.refuses_enter, hdb]), hentered]
  refine @Work.run_transaction _ _ bench { bench with database := bench.database.enter }
    (.ok none) ?_
  rw [run_run_bind, hfound]
  rfl

namespace Bench

/-- No scope is open on these tables, no job is started, no unit is held, and nothing was counted.
-/
structure Quiet (store : Store) (bench : Bench) : Prop where
  closed : bench.database.depth = 0
  store : bench.database.store = store
  jobs : bench.jobs = []
  units : bench.collector.units = []
  channels : bench.channels = []
  tally : bench.tally = {}

theorem quiet_ready {database : Database} (h : database.depth = 0) :
    (ready database).Quiet database.store := ⟨h, rfl, rfl, rfl, rfl, rfl⟩

namespace Quiet

theorem poll (h : bench.Quiet store) : bench.poll.Quiet store := by
  have hnone : bench.collector.receive.working = [] := h.units
  have hpoll : bench.poll =
      { bench with collector := { bench.collector.receive with working := [] } } := by
    rw [Bench.poll, hnone]
    rfl
  rw [hpoll]
  exact ⟨h.closed, h.store, h.jobs, rfl, h.channels, h.tally⟩

theorem beside (h : bench.Quiet store) (hafter : bench.Alongside after) : after.Quiet store := by
  cases hafter with
  | write hjob _ =>
    rw [h.jobs] at hjob
    cases hjob
  | ended _ _ hjob =>
    rw [h.jobs] at hjob
    cases hjob
  | outside hlength =>
    rw [h.channels] at hlength
    exact ⟨h.closed, h.store, h.jobs, h.units, List.length_eq_zero_iff.mp hlength, h.tally⟩

theorem background (h : bench.Quiet store) (hafter : bench.Background after) :
    after.Quiet store := by
  induction hafter with
  | refl => exact h
  | round _ ih => exact ih.poll
  | beside _ hbeside ih => exact ih.beside hbeside

/-- A collector without units stops and does nothing else. -/
theorem stopping (h : bench.Quiet store) (hafter : Stopping Alongside bench after) :
    after.Quiet store := by
  induction hafter with
  | begin =>
    have hunits : bench.collector.receive.units = [] := by
      simpa [Collector.receive, Collector.units] using h.units
    exact ⟨h.closed, h.store, h.jobs, hunits, h.channels, h.tally⟩
  | @step now _ _ hstep ih =>
    obtain ⟨hworking, -⟩ := List.append_eq_nil_iff.mp ih.units
    obtain ⟨-, ⟨_, _, hnow, -⟩ | ⟨_, _, _, _, hnow, -⟩ | ⟨-, rfl⟩⟩ := stopStep_cases hstep
    · rw [hworking] at hnow
      cases hnow
    · rw [hworking] at hnow
      cases hnow
    · refine ⟨ih.closed, ih.store, ih.jobs, ?_, ih.channels, ih.tally⟩
      rw [Collector.units, hworking]
      rfl
  | meanwhile _ hbeside ih => exact ih.beside hbeside

theorem passStep (h : bench.Quiet store)
    (hsettled : ∀ row ∈ store.actions, row.state ≠ Store.createdWord) :
    ∃ after, (SymbolAtlas.passStep settings).run.run bench = (.ok none, after) ∧
      after.Quiet store := by
  have hnext : bench.database.store.nextOutstanding bench.cursor = .ok none := by
    rw [h.store]
    exact Store.nextOutstanding_of_settled hsettled bench.cursor
  have hdb := Database.refuses_of_depth h.closed
  have hready := (Database.Ready.ofDepth h.closed).enter.leave
  exact ⟨_, run_passStep_of_none hdb hnext, hready.depth, hready.store.trans h.store, h.jobs,
    h.units, h.channels, h.tally⟩

end Quiet

end Bench

theorem Interleaved.quiet (h : Interleaved settings start pass bench) (hstart : start.Quiet store)
    (hsettled : ∀ row ∈ store.actions, row.state ≠ Store.createdWord) :
    pass = {} ∧ bench.Quiet store := by
  induction h with
  | begin => exact ⟨rfl, hstart.closed, hstart.store, hstart.jobs, hstart.units, hstart.channels,
      hstart.tally⟩
  | task _ hrun ih =>
    obtain ⟨_, hnone, -⟩ := ih.2.passStep hsettled
    rw [hrun] at hnone
    cases hnone
  | background _ hbackground ih => exact ⟨ih.1, ih.2.background hbackground⟩

/-- Where no action is outstanding, a pass takes none, calls no parser and leaves the tables. -/
theorem Parses.quiet (h : Parses settings start pass final) (hstart : start.Quiet store)
    (hsettled : ∀ row ∈ store.actions, row.state ≠ Store.createdWord) :
    pass = {} ∧ final.Quiet store := by
  cases h with
  | ended hinterleaved hrun hbackground hstops _ =>
    obtain ⟨hpass, hquiet⟩ := hinterleaved.quiet hstart hsettled
    obtain ⟨_, hnone, hafter⟩ := hquiet.passStep hsettled
    cases hrun.symm.trans hnone
    exact ⟨hpass, (hafter.background hbackground).stopping hstops.1⟩
  | failed hinterleaved hrun _ _ _ =>
    obtain ⟨_, hnone, -⟩ := (hinterleaved.quiet hstart hsettled).2.passStep hsettled
    rw [hrun] at hnone
    cases hnone

end

/-! ## Stages with nothing to do -/

section

variable {setup : RunSetup} {options : RunOptions} {summary : RunSummary} {database : Database}

/-- Where all is in the tables already, preparing a run writes counters and notes only. -/
theorem Done.run_prepare (h : Done setup options database.store)
    (hdatabase : Steady False database) :
    ∃ after known, (prepare setup options).run.run { bench := { database } } =
        (.ok (setup.found options.root, ⟨0, known⟩), { bench := { database := after } }) ∧
      after.depth = 0 ∧ database.store.Counted after.store := by
  obtain ⟨steps, hsteps, hknown⟩ := h.known
  obtain ⟨hevolves, statistics, notes, hsame⟩ :=
    setup.discovered_spec options.root database.store
  rw [h.checkouts] at hsame
  have hcounted : database.store.Counted (setup.discovered options.root database.store) :=
    ⟨hevolves, statistics, notes, hsame⟩
  have hfiles := (hcounted.whole hdatabase.whole).consistent.files
  have hknown : ∀ step ∈ steps, (setup.discovered options.root database.store).Knows step := by
    intro step hstep
    exact (hknown step hstep).evolves hevolves hfiles (by rw [hsame]) (by rw [hsame])
  obtain ⟨himport, hsummary⟩ := Store.importSteps_of_knows hknown
  obtain ⟨after, hclosed, houtcome⟩ := SymbolAtlas.run_prepare setup options hdatabase.closed
  rw [hsteps] at houtcome
  rcases houtcome with ⟨-, hrun, hstore⟩ | ⟨hrefused, -⟩
  · rw [hsummary] at hrun
    rw [himport] at hstore
    exact ⟨after, steps.length, hrun, hclosed, hstore ▸ hcounted⟩
  · exact absurd (BuildLog.admissible_of_knows hknown) hrefused

/-- One worker computes the same clusters again. -/
theorem Finished.clusters_eq {store : Store} (h : Finished setup options summary store)
    (hjobs : setup.settings.clusterJobs? = some 1) {before after : RunState}
    {cluster : Option Cluster.Summary} (hclusters : Clusters setup.settings before cluster after)
    (hclosed : before.bench.database.depth = 0)
    (hcounted : store.Counted before.bench.database.store) :
    cluster = summary.cluster ∧ before.Wrote Store.Counted after := by
  cases hclusters with
  | disabled hdisabled =>
    exact ⟨(h.unclustered hdisabled).symm, hclosed, .refl _, rfl, rfl, rfl⟩
  | @computed map counts henabled hcomes =>
    obtain ⟨hsummary, hrows⟩ := h.clustered henabled hjobs
    obtain ⟨statistics, notes, hsame⟩ := hcounted.same
    have hassign : (map, counts) = Cluster.assign store Worded.all := by
      refine (hjobs ▸ hcomes).eq_assign.trans ?_
      rw [hsame]
      exact Cluster.assign_congr rfl rfl rfl rfl _
    rw [← hassign] at hsummary hrows
    have hreplace : before.bench.database.store.replaceClusters map =
        before.bench.database.store := by
      rw [hsame, Store.replaceClusters, ← hrows]
    rw [Tx.run_transaction_write _ hclosed, hreplace]
    exact ⟨hsummary.symm, rfl, .refl _, rfl, rfl, rfl⟩

/-! ## Repeated runs -/

/-- Another run on the tables that a run has left, without plugins, writes counters and notes only.
-/
theorem Finished.runs_again (h : Finished setup options summary database.store)
    (hindexer : ∀ parser ∈ setup.registry.enabled, parser = .indexer)
    (hdatabase : Steady False database) (hjobs : setup.settings.clusterJobs? = some 1)
    {result : Except RunError RunSummary} {state : RunState}
    (hruns : Runs setup options database result state) :
    result = .ok { summary with actionsImported := 0, schedule := {}, parse := {} } ∧
      state.progress = [] ∧ state.bench.channels = [] ∧
      ∃ statistics notes,
        state.bench.database.store = { database.store with statistics, notes } := by
  obtain ⟨ready, known, hprepare, hclosed, hready⟩ := h.done.run_prepare hdatabase
  have hsettled := (h.done.enriched (hready.enriches False) hdatabase.whole).settled
  cases hruns with
  | refused hrefused => cases hprepare.symm.trans hrefused
  | failed hprepared hstart hparses hfault =>
    cases hprepare.symm.trans hprepared
    cases hstart
    obtain ⟨rfl, -⟩ := hparses.quiet (Bench.quiet_ready hclosed) hsettled
    cases hfault
  | @finished _ _ _ _ _ _ final _ _ hprepared hstart hparses _ hafter hclusters hpersist =>
    cases hprepare.symm.trans hprepared
    cases hstart
    obtain ⟨rfl, hquiet⟩ := hparses.quiet (Bench.quiet_ready hclosed) hsettled
    have hpassed : RunState.Wrote Store.Counted { bench := { database } } { bench := final } :=
      ⟨hquiet.closed, hquiet.store ▸ hready, hquiet.channels, hquiet.tally, rfl⟩
    -- the parsers finish, clusters are computed, and the counters are recorded
    have hfinishes := finishes_of_afterParse hquiet.closed hafter
    have hparsed := hpassed.trans
      (hfinishes.mono fun _ _ hfinishes => hfinishes.counted hindexer) .trans
    obtain ⟨rfl, hcluster⟩ := h.clusters_eq hjobs hclusters hparsed.closed hparsed.store
    have hrecorded := counted_of_persistStatistics hcluster.closed hpersist
    have hall := (hparsed.trans hcluster .trans).trans hrecorded .trans
    refine ⟨?_, hall.progress, hall.channels, hall.store.same⟩
    rw [hall.tally, h.files, h.repositories]

theorem Finished.at_time {tree : FileTree} {settings : Settings} {time : String} {store : Store}
    (h : Finished (.builtIn tree settings time) options summary store) (later : String) :
    Finished (.builtIn tree settings later) options summary store :=
  ⟨⟨h.done.settled, h.done.known, h.done.checkouts⟩, h.files, h.repositories, h.unskipped,
    h.clustered, h.unclustered⟩

/-- A run with the built-in parser and one cluster worker that has succeeded, on any database that
runs may come to. Whatever comes of another run with the same settings and options over the same
workspace, at whatever time: it succeeds, imports no action and dispatches none, reports no
progress, calls no parser, for which a channel would be opened, and finds the same clusters. Of the
tables only counters and notes are written. -/
theorem repeated_run_rests {database : Database}
    (hdatabase : Reachable (fun _ => True) database) {tree : FileTree} {settings : Settings}
    {time : String} {options : RunOptions} {summary : RunSummary} {state : RunState}
    (hjobs : settings.clusterJobs? = some 1)
    (hfirst : Runs (.builtIn tree settings time) options database (.ok summary) state)
    (later : String) :
    Runs (.builtIn tree settings later) options state.bench.database
      (runWorkspace (.builtIn tree settings later) options state.bench.database).1
      (runWorkspace (.builtIn tree settings later) options state.bench.database).2 ∧
    ∀ result again,
      Runs (.builtIn tree settings later) options state.bench.database result again →
      result = .ok { summary with actionsImported := 0, schedule := {}, parse := {} } ∧
      again.progress = [] ∧ again.bench.channels = [] ∧
      ∃ statistics notes, again.bench.database.store =
        { state.bench.database.store with statistics, notes } := by
  have hbefore : Steady False database := hdatabase.steady.mono False.elim
  have hsteady := hfirst.steady hbefore False.elim
  have hfinished := hfirst.finished_of_ok hbefore (answers_builtIn tree settings time)
  refine ⟨runs_runWorkspace hsteady, ?_⟩
  intro result again hagain
  exact (hfinished.at_time later).runs_again (indexer_builtIn tree settings later) hsteady hjobs
    hagain

/-- The run over the checkout at another time. -/
def assembledAgain (database : Database) : Except RunError RunSummary × RunState :=
  runWorkspace (.builtIn assembledTree assembledSetup.settings "dusk") (assembled "/log.json")
    database

theorem repeated_run_rests_assembled :
    Reachable (fun _ => True) assembledDatabase ∧ assembledSetup.settings.clusterJobs? = some 1 ∧
    ∃ summary state,
      runWorkspace assembledSetup (assembled "/log.json") assembledDatabase = (.ok summary, state) ∧
      summary.schedule.tasks = 2 ∧
      (assembledAgain state.bench.database).1 =
        .ok { summary with actionsImported := 0, schedule := {}, parse := {} } ∧
      (assembledAgain state.bench.database).2.progress = [] ∧
      (assembledAgain state.bench.database).2.bench.channels = [] ∧
      ∃ statistics notes, (assembledAgain state.bench.database).2.bench.database.store =
        { state.bench.database.store with statistics, notes } := by
  obtain ⟨summary, state, hrun, htasks, -⟩ := exists_assembled
  have hreachable : Reachable (fun _ => True) assembledDatabase :=
    @Reachable.runWorkspace _ _ .empty assembledSetup trivial (assembled "/none")
  have hjobs : assembledSetup.settings.clusterJobs? = some 1 := rfl
  have hfirst :
      Runs assembledSetup (assembled "/log.json") assembledDatabase (.ok summary) state := by
    have hruns : Runs assembledSetup (assembled "/log.json") assembledDatabase _ _ :=
      runs_runWorkspace (hreachable.steady.mono False.elim)
    rw [hrun] at hruns
    exact hruns
  obtain ⟨hagain, hrests⟩ := repeated_run_rests hreachable hjobs hfirst "dusk"
  exact ⟨hreachable, hjobs, summary, state, hrun, htasks, hrests _ _ hagain⟩

end

end SymbolAtlas
