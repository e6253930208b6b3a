import SymbolAtlas.Proofs.Dispatch.Background

/-!
# Passes with index jobs beside them

- **Started jobs** (`Bench.Spawned`): a step of a pass starts jobs only for files that have rows
  (`spawned_passStep`).
- **Passes** (`Interleaved`, `Parses`): steps with anything from the background between them. All of
  them keep the tables whole (`Parses.grown`), and if the parsers answer, they settle every action
  (`Parses.settled`).
- **The pass of a run** (`parses_runPass`), where all jobs are run between two steps, is one of
  them.
-/

namespace SymbolAtlas

/-! ## Jobs that a pass starts -/

variable {α β : Type} {files : Int → Prop}

/-- As many scopes are open as before, and jobs were started for these files only. -/
structure Bench.Spawned (files : Int → Prop) (before after : Bench) : Prop where
  depth : after.database.depth = before.database.depth
  jobs : ∀ job ∈ after.jobs, job ∈ before.jobs ∨ files job.file

theorem Bench.Spawned.trans {before between after : Bench} (h : Spawned files before between)
    (h' : Spawned files between after) : Spawned files before after := by
  refine ⟨h'.depth.trans h.depth, fun job hjob => ?_⟩
  rcases h'.jobs job hjob with hjob | hnew
  · exact h.jobs job hjob
  · exact .inr hnew

/-- The work starts jobs for these files only. -/
def Work.Spawns (files : Int → Prop) (work : Work α) : Prop :=
  ∀ bench, Bench.Spawned files bench (work.run.run bench).2

namespace Work

/-- The work leaves the open scopes and the jobs. -/
theorem Spawns.of_same {work : Work α}
    (h : ∀ bench, (work.run.run bench).2.database.depth = bench.database.depth ∧
      (work.run.run bench).2.jobs = bench.jobs) : Spawns files work := by
  intro bench
  obtain ⟨hdepth, hjobs⟩ := h bench
  exact ⟨hdepth, fun job hjob => .inl (hjobs ▸ hjob)⟩

theorem Spawns.pure (a : α) : Spawns files (pure a : Work α) := .of_same fun _ => ⟨rfl, rfl⟩

theorem Spawns.bind {work : Work α} {next : α → Work β} (h : Spawns files work)
    (hnext : ∀ a, Spawns files (next a)) : Spawns files (work >>= next) := by
  intro bench
  have hfirst := h bench
  rw [run_run_bind]
  rcases hrun : work.run.run bench with ⟨_ | a, between⟩
  · rw [hrun] at hfirst
    exact hfirst
  · rw [hrun] at hfirst
    exact hfirst.trans (hnext a between)

theorem Spawns.mapM {f : α → Work β} {as : List α} (h : ∀ a ∈ as, Spawns files (f a)) :
    Spawns files (as.mapM f) := by
  induction as with
  | nil => exact .pure []
  | cons a as ih =>
    rw [List.mapM_cons]
    refine (h a (.head _)).bind fun b => ?_
    exact (ih fun other hother => h other (.tail _ hother)).bind fun bs => .pure (b :: bs)

end Work

theorem Work.Channelling.spawns {work : Work α} (h : work.Channelling) : work.Spawns files := by
  induction h with
  | pure a => exact .pure a
  | bind _ _ ih ihnext => exact ih.bind ihnext
  | new _ | outside _ => exact .of_same fun _ => ⟨rfl, rfl⟩

theorem Plugin.spawns_respond (act : View → Option Reply × Effects) :
    (respond act).Spawns files := by
  intro bench
  rw [run_respond]
  split
  · exact ⟨rfl, fun _ hjob => .inl hjob⟩
  · have hrecorded : Bench.Spawned files bench { bench with
        memory := (act ⟨bench.memory, bench.database.store⟩).2.memory
        database := { bench.database with
          store := (act ⟨bench.memory, bench.database.store⟩).2.record bench.database.store } } :=
      ⟨rfl, fun _ hjob => .inl hjob⟩
    cases (act ⟨bench.memory, bench.database.store⟩).1 with
    | none => exact hrecorded
    | some reply => exact hrecorded.trans (reply.channelling_handle.spawns _)

namespace Parser

variable (parser : Parser) (action : BuildAction) (options : Command.Options)

theorem spawns_parse {source : File} (hsource : files source.id) (target : Option File) :
    (parser.parse action options source target).Spawns files := by
  cases parser with
  | indexer =>
    intro bench
    refine ⟨rfl, fun job hjob => ?_⟩
    rcases List.mem_append.mp hjob with hjob | hjob
    · exact .inl hjob
    · rw [List.mem_singleton.mp hjob]
      exact .inr hsource
  | plugin p =>
    have hrecord : (recordCall (.parse p.name action.id source.path (target.map File.path)
        options)).Spawns files := .of_same fun _ => ⟨rfl, rfl⟩
    exact hrecord.bind fun _ => Plugin.spawns_respond _

theorem spawns_parseEach {pairs : List FilePair}
    (hpairs : ∀ pair ∈ pairs, ∀ source ∈ pair.source, files source.id) :
    (parser.parseEach action options pairs).Spawns files := by
  refine .mapM fun pair hpair => ?_
  cases hsource : pair.source with
  | some source =>
    exact parser.spawns_parse action options (hpairs pair hpair source hsource) pair.target
  | none => exact .pure _

theorem spawns_parseCommand {pairs : List FilePair}
    (hpairs : ∀ pair ∈ pairs, ∀ source ∈ pair.source, files source.id) :
    (parser.parseCommand action options pairs).Spawns files := by
  have heach := (parser.spawns_parseEach action options hpairs).bind fun handles =>
    .pure (Handle.join handles)
  cases parser with
  | indexer => exact heach
  | plugin p =>
    have hrecord : (recordCall (.command p.name action.id pairs)).Spawns files :=
      .of_same fun _ => ⟨rfl, rfl⟩
    refine hrecord.bind fun _ => ?_
    cases p.command with
    | some command => exact Plugin.spawns_respond _
    | none => exact heach

end Parser

section

variable (settings : DispatchSettings) {task : Task}

theorem spawns_results
    (hpairs : ∀ pair ∈ task.pairs, ∀ source ∈ pair.source, files source.id) :
    (task.results settings).Spawns files := by
  unfold Task.results
  split
  · dsimp only [dispatchWhole]
    cases (task.pairs.head?.bind FilePair.source).bind fun file =>
        settings.registry.resolve? file.path with
    | some parser =>
      exact (parser.spawns_parseCommand task.action task.options hpairs).bind fun _ => .pure _
    | none => exact .pure _
  · refine .mapM fun (source, target) hmem => ?_
    obtain ⟨pair, hpair, hsource⟩ := List.mem_filterMap.mp hmem
    obtain ⟨file, hfile, heq⟩ := Option.map_eq_some_iff.mp hsource
    cases heq
    dsimp only [dispatchSource]
    cases settings.registry.resolve? source.path with
    | some parser =>
      exact (parser.spawns_parse task.action task.options (hpairs pair hpair source hfile) _).bind
        fun _ => .pure _
    | none => exact .pure _

theorem spawns_dispatch
    (hpairs : ∀ pair ∈ task.pairs, ∀ source ∈ pair.source, files source.id) :
    (dispatch settings task).Spawns files := by
  have hmove : ∀ state ≠ ActionState.created, (Work.onDatabase (Tx.writeOr
      (Store.setState task.action.id state))).Spawns files := by
    intro state hstate
    refine .of_same fun bench => ?_
    cases hdb : bench.database.refuses with
    | true =>
      rw [Work.run_onDatabase, Tx.run_writeOr_of_refuses hdb]
      exact ⟨rfl, rfl⟩
    | false =>
      rw [Work.run_setState hstate _ hdb]
      exact ⟨rfl, rfl⟩
  have hrecord : ∀ tally : Bench → Tally, (modify fun bench =>
      { bench with tally := tally bench } : Work Unit).Spawns files :=
    fun _ => .of_same fun _ => ⟨rfl, rfl⟩
  dsimp only [dispatch]
  split
  · refine (hmove .parsed (by decide)).bind fun moved => ?_
    split
    · exact (hrecord _).bind fun _ => .pure _
    · exact .pure _
  split
  · exact (hmove .skipped (by decide)).bind fun _ => (hrecord _).bind fun _ => .pure _
  · have hqueue : ∀ results, (do
        modify fun bench => { bench with
          collector := bench.collector.queue { action := task.action.id, results } }
        return .queued results.length : Work Dispatched).Spawns files :=
      fun results => .of_same fun _ => ⟨rfl, rfl⟩
    have hresults := spawns_results settings hpairs
    unfold Task.results at hresults
    split
    · rename_i hwhole
      rw [if_pos hwhole] at hresults
      exact hresults.bind hqueue
    · rename_i hwhole
      rw [if_neg hwhole] at hresults
      exact hresults.bind hqueue

/-- The sources of a task have rows, unless they are missing. -/
theorem Task.hasFile_of_pair {store : Store} {action : BuildAction} {pair : FilePair}
    (hpair : pair ∈ (Task.of settings store action).pairs) {source : File}
    (hsource : source ∈ pair.source) : store.HasFile source.id := by
  have hmem : some source ∈ store.sourcesOf action.id := by
    rw [← FilePair.map_source_pairUp (store.sourcesOf action.id) (store.targetsOf action.id)]
    exact List.mem_map.mpr ⟨pair, hpair, hsource⟩
  obtain ⟨link, -, hfound⟩ := List.mem_map.mp hmem
  exact ⟨source, List.mem_of_find?_eq_some hfound, rfl⟩

/-- A step of a pass starts jobs only for files that have rows. -/
theorem spawned_passStep (bench : Bench) :
    Bench.Spawned bench.database.store.HasFile bench ((passStep settings).run.run bench).2 := by
  obtain ⟨result, cursor, hnext, htask⟩ :=
    nextTask_spec settings { bench with database := bench.database.enter }
  -- inside the scope one more is open
  have hinside : ∀ (succeeded : Bool) (after : Bench),
      Bench.Spawned bench.database.store.HasFile
        { bench with database := bench.database.enter } after →
      Bench.Spawned bench.database.store.HasFile bench
        { after with database := after.database.leave succeeded } := by
    intro succeeded after hafter
    refine ⟨?_, hafter.jobs⟩
    have hdepth : after.database.depth = bench.database.depth + 1 := hafter.depth
    show after.database.depth - 1 = bench.database.depth
    omega
  have hsame : Bench.Spawned bench.database.store.HasFile
      { bench with database := bench.database.enter }
      { bench with database := bench.database.enter, cursor } := ⟨rfl, fun _ hjob => .inl hjob⟩
  rcases result with fault | _ | task
  · rw [passStep, Work.run_transaction (by rw [run_run_bind, hnext])]
    exact hinside _ _ hsame
  · rw [passStep, Work.run_transaction (by rw [run_run_bind, hnext]; rfl)]
    exact hinside _ _ hsame
  · obtain ⟨-, hoffered, rfl⟩ := htask task rfl
    have hpairs : ∀ pair ∈ task.pairs, ∀ source ∈ pair.source,
        bench.database.store.HasFile source.id := by
      intro pair hpair source hsource
      rw [hoffered.of] at hpair
      exact Task.hasFile_of_pair settings hpair hsource
    have hdispatch := spawns_dispatch settings hpairs (bench.taking task.action.id)
    rcases hrun : (dispatch settings task).run.run (bench.taking task.action.id) with
      ⟨dispatched, after⟩
    rw [hrun] at hdispatch
    rw [passStep_of_dispatch hnext hrun]
    exact hinside _ _ (hsame.trans hdispatch)

end

/-! ## Passes -/

/-- Whole tables miss no source. -/
theorem Store.Whole.lacksSource_eq {store : Store} (h : store.Whole) (action : Int) :
    store.lacksSource action = false := by
  refine List.any_eq_false.mpr fun link hlink => ?_
  obtain ⟨file, -, -, hfound⟩ :=
    h.consistent.files.file?_of_hasFile (h.links.sources link hlink).2
  simp [hfound]

/-- A step over whole tables parses actions and lets plugins record what they find: to skip an
action it would have to miss a source. -/
theorem enriches_passStep (settings : DispatchSettings) {bench : Bench}
    (hwhole : bench.database.store.Whole) :
    ∃ actions, (bench.database.store.moved (fun _ => .parsed) actions).Enriches
      settings.registry.Careful ((passStep settings).run.run bench).2.database.store := by
  rcases passStep_cases settings bench with ⟨task, hoffered, hends⟩ | ⟨-, hunmoved⟩
  · generalize (passStep settings).run.run bench = ran at hends ⊢
    obtain ⟨result, after⟩ := ran
    cases hends with
    | linked _ hstore _ _ => exact ⟨_, by rw [hstore]; exact .refl _ _⟩
    | skipped _ hsources _ _ _ =>
      rw [hoffered.of, Task.any_pairs_of, hwhole.lacksSource_eq] at hsources
      cases hsources
    | queued _ _ _ hstore _ _ =>
      refine ⟨[], ?_⟩
      rw [Store.moved_nil]
      exact Registry.enriches_acts hstore
    | failed _ hrecorded hstore _ _ =>
      have henriches := Registry.enriches_acts hrecorded
      refine ⟨[], ?_⟩
      rw [Store.moved_nil]
      rcases hstore with hstore | hstore
      · exact hstore ▸ henriches
      · exact hstore ▸ henriches.restoredTo
  · refine ⟨[], ?_⟩
    rw [Store.moved_nil, hunmoved.store]
    exact .refl _ _

theorem Bench.Grown.passStep {careful : Prop} {store : Store} {bench : Bench}
    (h : Grown careful store bench) (settings : DispatchSettings)
    (hcareful : careful → settings.registry.Careful) :
    Grown careful store ((SymbolAtlas.passStep settings).run.run bench).2 := by
  have hspawned := spawned_passStep settings bench
  obtain ⟨actions, henriches⟩ := enriches_passStep settings h.whole
  exact h.enriched actions (hspawned.depth.trans h.closed) (henriches.mono hcareful) hspawned.jobs

/-- A pass has got so far, with anything from the background between its steps. -/
inductive Interleaved (settings : DispatchSettings) (start : Bench) : Pass → Bench → Prop where
  | begin : Interleaved settings start {} { start with cursor := none }
  | task {pass : Pass} {bench after : Bench} {sources : Nat} {dispatched : Dispatched} :
      Interleaved settings start pass bench →
      (passStep settings).run.run bench = (.ok (some (sources, dispatched)), after) →
      Interleaved settings start
        (pass.advance start.database.store.outstandingSources sources dispatched) after
  | background {pass : Pass} {bench after : Bench} : Interleaved settings start pass bench →
      bench.Background after → Interleaved settings start pass after

/-- A pass with all that goes on beside it. It has found no task any more, or was ended by a fault;
all jobs have come to their end, and the collector has stopped. -/
inductive Parses (settings : DispatchSettings) (start : Bench) : Pass → Bench → Prop where
  | ended {pass : Pass} {bench after final stopped : Bench} : Interleaved settings start pass bench →
      (passStep settings).run.run bench = (.ok none, after) → after.Background final →
      Bench.Stops Bench.Alongside final stopped → stopped.jobs = [] →
      Parses settings start pass stopped
  | failed {pass : Pass} {bench after final stopped : Bench} {fault : Fault} :
      Interleaved settings start pass bench →
      (passStep settings).run.run bench = (.error fault, after) → after.Background final →
      Bench.Stops Bench.Alongside final stopped → stopped.jobs = [] →
      Parses settings start { pass with fault := some fault } stopped

variable {settings : DispatchSettings} {start : Bench} {careful : Prop} {store : Store}

theorem Interleaved.keeps {pass : Pass} {bench : Bench}
    (h : Interleaved settings start pass bench) (hstart : start.Grown careful store)
    (hcareful : careful → settings.registry.Careful) :
    bench.Grown careful store ∧ ∃ tasks, Passing settings start pass tasks bench := by
  induction h with
  | begin => exact ⟨hstart.congr rfl fun _ hjob => hjob, [], .begin⟩
  | @task pass bench after _ _ _ hrun ih =>
    obtain ⟨hgrown, tasks, hpassing⟩ := ih
    have hafter := hgrown.passStep settings hcareful
    have hgraph := (@Bench.graph_passStep bench settings hgrown.linksKnown).1
    rw [hrun] at hafter hgraph
    exact ⟨hafter, _, hpassing.task hrun hgraph⟩
  | background _ hbackground ih =>
    obtain ⟨hgrown, tasks, hpassing⟩ := ih
    obtain ⟨hafter, hmeanwhile⟩ := hgrown.background hbackground
    exact ⟨hafter, tasks, hpassing.meanwhile hmeanwhile⟩

/-- Whatever goes on beside it, a pass leaves whole tables whole, whether it is ended by a fault or
not. -/
theorem Parses.grown {pass : Pass} {final : Bench} (h : Parses settings start pass final)
    (hstart : start.Grown careful store) (hcareful : careful → settings.registry.Careful) :
    final.Grown careful store := by
  have hends : ∀ {pass bench after ended stopped result},
      Interleaved settings start pass bench →
      (passStep settings).run.run bench = (result, after) → after.Background ended →
      Bench.Stops Bench.Alongside ended stopped → stopped.Grown careful store := by
    intro pass bench after ended stopped result hinterleaved hrun hbackground hstops
    have hafter := (hinterleaved.keeps hstart hcareful).1.passStep settings hcareful
    rw [hrun] at hafter
    exact ((hafter.background hbackground).1.stopping hstops.1).1
  cases h with
  | ended hinterleaved hrun hbackground hstops _ =>
    exact hends hinterleaved hrun hbackground hstops
  | failed hinterleaved hrun hbackground hstops _ =>
    exact hends hinterleaved hrun hbackground hstops

/-- If the parsers answer, the pass settles every action. -/
theorem Parses.settled {pass : Pass} {final : Bench} (h : Parses settings start pass final)
    (hstart : start.Grown False store) (hsound : start.database.store.Sound) (hidle : start.Idle)
    (hanswers : settings.registry.Answers) :
    ∃ tasks, Settled settings start.database.store start.tally pass tasks final := by
  cases h with
  | ended hinterleaved hrun hbackground hstops _ =>
    obtain ⟨hgrown, tasks, hpassing⟩ := hinterleaved.keeps hstart False.elim
    have hafter := hgrown.passStep settings False.elim
    rw [hrun] at hafter
    obtain ⟨hended, hmeanwhile⟩ := hafter.background hbackground
    refine ⟨tasks, ?_⟩
    obtain ⟨done, _ | ⟨row, rest⟩, hunderway⟩ := hpassing.underway hsound hidle hanswers
    · have hongoing := (hunderway.exhausted hsound).2
      rw [hrun] at hongoing
      have hmeantime := hongoing.meanwhile hsound hunderway.created hmeanwhile
      exact hunderway.settled hsound (hmeantime.stops hsound hunderway.created
        ⟨(hended.stopping hstops.1).2, hstops.2⟩)
    · obtain ⟨_, hstep, -⟩ := hunderway.step hsound hanswers
      rw [hrun] at hstep
      cases hstep
  | failed hinterleaved hrun _ _ _ =>
    obtain ⟨-, tasks, hpassing⟩ := hinterleaved.keeps hstart False.elim
    obtain ⟨done, _ | ⟨row, rest⟩, hunderway⟩ := hpassing.underway hsound hidle hanswers
    · have hover := (hunderway.exhausted hsound).1
      rw [hrun] at hover
      cases hover
    · obtain ⟨_, hstep, -⟩ := hunderway.step hsound hanswers
      rw [hrun] at hstep
      cases hstep

/-! ## The pass of a run -/

theorem Store.ids_moved (verdict : ActionRow → ActionState) (actions : List Int) (store : Store) :
    (store.moved verdict actions).actions.map ActionRow.id = store.actions.map ActionRow.id := by
  simp [moved, Function.comp_def, id_movedRow]

/-- The identities of actions that the cursor has not come to. -/
def Bench.ahead (bench : Bench) : List Int :=
  (bench.database.store.actions.map ActionRow.id).filter fun id =>
    bench.cursor.all fun last => last < id

theorem Bench.mem_ahead {bench : Bench} {id : Int} :
    id ∈ bench.ahead ↔ id ∈ bench.database.store.actions.map ActionRow.id ∧
      bench.cursor.all (fun last => last < id) = true := List.mem_filter

/-- The next outstanding action comes after the cursor. -/
theorem Bench.next_ahead {bench : Bench} {action : BuildAction}
    (h : bench.database.store.nextOutstanding bench.cursor = .ok (some action)) :
    action.id ∈ bench.ahead := by
  rw [Store.nextOutstanding_eq] at h
  cases hrow : bench.database.store.nextRow? bench.cursor with
  | none =>
    rw [hrow] at h
    cases h
  | some row =>
    rw [hrow] at h
    dsimp only at h
    cases hread : row.read with
    | error fault =>
      rw [hread] at h
      cases h
    | ok read =>
      rw [hread] at h
      cases h
      have hfound := List.find?_some hrow
      rw [Bool.and_eq_true] at hfound
      rw [Store.id_of_read hread]
      exact mem_ahead.mpr ⟨List.mem_map_of_mem (List.mem_of_find?_eq_some hrow), hfound.2⟩

/-- A look for a task comes to actions after the cursor. -/
theorem nextTaskWithin_ahead {settings : DispatchSettings} {n : Nat} {bench after : Bench}
    {task : Task} (h : (nextTaskWithin settings n).run.run bench = (.ok (some task), after)) :
    task.action.id ∈ bench.ahead := by
  induction n generalizing bench with
  | zero => cases h
  | succ n ih =>
    cases hdb : bench.database.refuses with
    | true =>
      rw [nextTaskWithin_of_refuses settings n hdb] at h
      cases h
    | false =>
    rw [nextTaskWithin_succ settings n hdb] at h
    rcases hnext : bench.database.store.nextOutstanding bench.cursor with fault | _ | action
    · rw [hnext] at h
      cases h
    · rw [hnext] at h
      cases h
    · rw [hnext] at h
      have hhere := Bench.next_ahead hnext
      dsimp only at h
      split at h
      · -- the action is in flight, and the look goes on behind it
        obtain ⟨hmem, hlater⟩ := Bench.mem_ahead.mp (ih h)
        have hfirst := (Bench.mem_ahead.mp hhere).2
        refine Bench.mem_ahead.mpr ⟨hmem, ?_⟩
        cases hcursor : bench.cursor with
        | none => rfl
        | some last =>
          simp only [hcursor, Option.all_some, decide_eq_true_eq] at hfirst hlater ⊢
          omega
      · cases h
        exact hhere

/-- Every task brings the cursor forward. -/
theorem ahead_passStep {settings : DispatchSettings} {bench after : Bench}
    {taken : Nat × Dispatched}
    (h : (passStep settings).run.run bench = (.ok (some taken), after)) :
    after.ahead.length < bench.ahead.length := by
  obtain ⟨result, cursor, hnext, htask⟩ :=
    nextTask_spec settings { bench with database := bench.database.enter }
  by_cases hsome : ∃ task, result = .ok (some task)
  · obtain ⟨task, rfl⟩ := hsome
    obtain ⟨hdb, hoffered, rfl⟩ := htask task rfl
    rw [Database.refuses_enter] at hdb
    have hends := passStep_of_task hdb hnext hoffered.outstanding
    rw [h] at hends
    rw [run_nextTask] at hnext
    have hahead := nextTaskWithin_ahead hnext
    change task.action.id ∈ bench.ahead at hahead
    have hleaves : after.cursor = some task.action.id ∧
        after.database.store.actions.map ActionRow.id =
          bench.database.store.actions.map ActionRow.id := by
      cases hends with
      | linked _ hstore hleaves _ => exact ⟨hleaves.cursor, by rw [hstore, Store.ids_moved]⟩
      | skipped _ _ hstore hleaves _ => exact ⟨hleaves.cursor, by rw [hstore, Store.ids_moved]⟩
      | queued _ _ _ hstore hleaves _ =>
        exact ⟨hleaves.cursor, by rw [(Registry.extends_acts hstore).actions]⟩
    have hless : after.ahead = bench.ahead.filter fun id => task.action.id < id := by
      have hlast := (Bench.mem_ahead.mp hahead).2
      rw [Bench.ahead, Bench.ahead, hleaves.1, hleaves.2, List.filter_filter]
      refine List.filter_congr fun id _ => ?_
      cases hcursor : bench.cursor with
      | none => simp
      | some last =>
        simp only [hcursor, Option.all_some, decide_eq_true_eq] at hlast ⊢
        by_cases hid : task.action.id < id
        · have hlater : last < id := by omega
          simp [hid, hlater]
        · simp [hid]
    rw [hless, List.length_filter_lt_length_iff_exists]
    exact ⟨task.action.id, hahead, by simp⟩
  · have hnone := (passStep_of_no_task hnext fun task htask => hsome ⟨task, htask⟩).1
    rw [h] at hnone
    cases result <;> cases hnone

theorem Bench.Meanwhile.ahead_eq {before after : Bench} (h : before.Meanwhile after)
    (hdb : before.database.refuses = false) : after.ahead = before.ahead := by
  have hids : after.database.refuses = false ∧
      after.database.store.actions.map ActionRow.id =
        before.database.store.actions.map ActionRow.id := by
    induction h with
    | refl => exact ⟨hdb, rfl⟩
    | @round now _ ih =>
      refine Bench.poll_keeps (P := fun _ b => b.database.refuses = false ∧
        b.database.store.actions.map ActionRow.id =
          before.database.store.actions.map ActionRow.id)
        (fun _ _ _ _ h => h) (fun _ _ _ _ h => h) (fun work _ b h => ?_) now ih
      have hcounted : ({ b with
          tally := b.tally.recordAll (work.poll b.channels).2 } : Bench).database.refuses = false :=
        h.1
      rcases b.pollUnit_cases work with hcase | ⟨-, hcase⟩
      · rw [hcase]
        exact h
      · rw [hcase]
        refine ⟨(Bench.frame_finish hcounted).1, ?_⟩
        rw [Bench.store_finish hcounted]
        exact (Store.ids_moved _ _ _).trans h.2
    | other _ hother ih => exact ⟨hother.valid ih.1, by rw [hother.actions]; exact ih.2⟩
  rw [Bench.ahead, Bench.ahead, hids.2, h.frame.1]

/-- A pass with all jobs between two steps gets to its end: there are more steps than actions that
are ahead. -/
theorem Interleaved.parses_passWithin {pass : Pass} {bench : Bench}
    (h : Interleaved settings start pass bench) (hgrown : bench.Grown False store)
    (tree : FileTree) {n : Nat} (hn : bench.ahead.length < n) :
    Parses settings start
      (passWithin settings tree start.database.store.outstandingSources n pass bench).1
      (passWithin settings tree start.database.store.outstandingSources n pass
        bench).2.dropProducers.stop := by
  induction n generalizing pass bench with
  | zero => cases hn
  | succ n ih =>
    have hstepped := hgrown.passStep settings False.elim
    simp only [passWithin]
    rcases hrun : (passStep settings).run.run bench with ⟨fault | _ | ⟨sources, dispatched⟩, after⟩
    all_goals rw [hrun] at hstepped
    · obtain ⟨hbackground, hjobs⟩ := Bench.background_settle tree hstepped.closed
      exact .failed h hrun hbackground (Bench.stops_dropProducers _)
        ((Bench.jobs_stop _).trans hjobs)
    · obtain ⟨hbackground, hjobs⟩ := Bench.background_settle tree hstepped.closed
      exact .ended h hrun hbackground (Bench.stops_dropProducers _)
        ((Bench.jobs_stop _).trans hjobs)
    · have hbackground := (Bench.background_settle tree hstepped.closed).1
      obtain ⟨hsettled, hmeanwhile⟩ := hstepped.background hbackground
      refine ih ((h.task hrun).background hbackground) hsettled ?_
      have hfewer := ahead_passStep hrun
      rw [hmeanwhile.ahead_eq hstepped.valid]
      exact Nat.lt_of_lt_of_le hfewer (Nat.le_of_lt_succ hn)

/-- The pass of a run with all jobs between two steps is such a pass. -/
theorem parses_runPass (hstart : start.Grown False store) (tree : FileTree) :
    Parses settings start (runPass settings tree start).1
      (runPass settings tree start).2.dropProducers.stop := by
  refine Interleaved.begin.parses_passWithin (hstart.congr rfl fun _ hjob => hjob) tree ?_
  have hahead := List.length_filter_le (fun _ => true)
    (start.database.store.actions.map ActionRow.id)
  rw [List.length_map] at hahead
  exact Nat.lt_succ_of_le hahead

end SymbolAtlas
