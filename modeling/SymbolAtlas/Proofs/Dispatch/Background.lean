import SymbolAtlas.Proofs.Dispatch.Pass
import SymbolAtlas.Proofs.Store.History
import SymbolAtlas.Proofs.Store.References

/-!
# Index jobs beside a pass

Index jobs run on threads of their own while a pass takes its tasks. Each of them works in
transactions, and transactions of several jobs, steps of the pass and rounds of the collector follow
one another in any order.

- **Enriched tables** (`Store.Enriches`): what is found in sources was recorded, and the build graph
  was left alone. Files and symbols are named only if they are there, as far as parsers take care
  (`Registry.Careful`).
- **Transactions of a job** (`IndexWrite`): a path is given a row, or a file that has a row is
  recorded. What is found in files, and when, is left open.
- **The background** (`Bench.Alongside`, `Bench.Background`): transactions of jobs that were
  started, their ends, and rounds of the collector.
- **Grown tables** (`Bench.Grown`): the background keeps the tables whole, takes nothing back, and
  leaves the build graph alone (`Grown.background`), also while the collector stops
  (`Grown.stopping`).
- **Jobs one after the other** (`Bench.background_settle`): all jobs of a bench, run to their end,
  are one case of this.
-/

namespace SymbolAtlas

/-! ## Enriched tables -/

/-- The tables have evolved, and the build graph is the same. With care, whatever is named still has
a row. -/
structure Store.Enriches (careful : Prop) (before after : Store) : Prop where
  evolves : before.Evolves after
  beside : before.Extends after
  intact : careful → before.Intact → after.Intact

namespace Store.Enriches

variable {careful : Prop} {before between after store : Store}

theorem refl (careful : Prop) (store : Store) : Enriches careful store store :=
  ⟨.refl store, .refl store, fun _ h => h⟩

theorem trans (h : Enriches careful before between) (h' : Enriches careful between after) :
    Enriches careful before after :=
  ⟨h.evolves.trans h'.evolves, h.beside.trans h'.beside,
    fun hcareful hintact => h'.intact hcareful (h.intact hcareful hintact)⟩

theorem mono {careful' : Prop} (h : Enriches careful' before after) (hcareful : careful → careful') :
    Enriches careful before after := { h with intact := fun h' => h.intact (hcareful h') }

/-- The tables are taken back. -/
theorem restoredTo (h : Enriches careful before after) :
    Enriches careful before (after.restoredTo before) :=
  ⟨h.evolves.restoredTo, h.beside.restoredTo,
    fun _ hbefore => ⟨⟨hbefore.sources, hbefore.targets⟩, hbefore.includes, hbefore.symbols,
      hbefore.clusters⟩⟩

theorem whole (h : Enriches careful before after) (hwhole : before.Whole) : after.Whole :=
  hwhole.evolves h.evolves h.beside.sources h.beside.targets

theorem internFile (path : String) (store : Store) :
    Enriches careful store (store.internFile path).2 :=
  ⟨evolves_internFile path store, .internFile path store, fun _ h => h.internFile path⟩

theorem recordFile {file : Int} (hfile : store.HasFile file) (included : List String)
    (symbols : List Source.Found) :
    Enriches careful store (Indexer.recordFile file included symbols store) :=
  ⟨evolves_recordFile file included symbols store, .recordFile file included symbols store,
    fun _ h => h.recordFile hfile included symbols⟩

end Store.Enriches

theorem StoreCall.evolves_after (call : StoreCall) (store : Store) :
    store.Evolves (call.after store) := by
  unfold StoreCall.after
  cases hperform : call.perform store with
  | ok answer => exact StoreCall.evolves hperform
  | error fault => exact .refl store

theorem Store.evolves_effects (effects : Plugin.Effects) (store : Store) :
    store.Evolves (effects.record store) := by
  unfold Plugin.Effects.record
  induction effects.records generalizing store with
  | nil => exact .refl store
  | cons call rest ih => exact (call.val.evolves_after store).trans (ih _)

/-- Plugins name files and symbols only if they are there. -/
def Registry.Careful (registry : Registry) : Prop :=
  ∀ before after, registry.Acts before after → before.Intact → after.Intact

/-- What plugins do to the tables leaves the build graph alone. -/
theorem Registry.enriches_acts {registry : Registry} {before after : Store}
    (h : Relation.ReflTransGen registry.Acts before after) :
    before.Enriches registry.Careful after := by
  induction h with
  | refl => exact .refl _ before
  | tail _ hacts ih =>
    refine ih.trans ⟨?_, ?_, fun hcareful => hcareful _ _ hacts⟩
    · obtain ⟨effects, rfl⟩ := hacts.records
      exact Store.evolves_effects effects _
    · obtain ⟨effects, rfl⟩ := hacts.records
      exact .record effects _

namespace Tx

variable {α : Type}

/-- A change in a scope of its own, where no other is open. -/
theorem run_transaction_update (change : Store → α × Store) {db : Database} (hdb : db.depth = 0) :
    (transaction (update change)).run.run db =
      (.ok (change db.store).1, ⟨(change db.store).2, db.store, 0, false⟩) := by
  rw [run_transaction, Database.enter_of_depth hdb, run_update (by rfl)]
  rfl

theorem run_transaction_write (change : Store → Store) {db : Database} (hdb : db.depth = 0) :
    (transaction (write change)).run.run db = (.ok (), ⟨change db.store, db.store, 0, false⟩) :=
  run_transaction_update _ hdb

end Tx

/-! ## Transactions of index jobs -/

/-- One transaction of an index job. -/
inductive IndexWrite (job : IndexJob) (db : Database) : Database → Prop where
  /-- a path is given a row -/
  | intern (path : String) :
      IndexWrite job db ((Tx.transaction (Tx.update (Store.internFile path))).run.run db).2
  /-- the source of the job is recorded -/
  | source (included : List String) (symbols : List Source.Found) :
      IndexWrite job db
        ((Tx.transaction (Tx.write (Indexer.recordFile job.file included symbols))).run.run db).2
  /-- a file that was given a row is recorded -/
  | header {path : String} {file : File} (hfile : db.store.fileAt? path = some file)
      (included : List String) (symbols : List Source.Found) :
      IndexWrite job db
        ((Tx.transaction (Tx.write (Indexer.recordFile file.id included symbols))).run.run db).2

theorem IndexWrite.enriches {job : IndexJob} {db after : Database} (h : IndexWrite job db after)
    (hdb : db.depth = 0) (hjob : db.store.HasFile job.file) (careful : Prop) :
    after.depth = 0 ∧ db.store.Enriches careful after.store := by
  cases h with
  | intern path =>
    rw [Tx.run_transaction_update _ hdb]
    exact ⟨rfl, .internFile path db.store⟩
  | source included symbols =>
    rw [Tx.run_transaction_write _ hdb]
    exact ⟨rfl, .recordFile hjob included symbols⟩
  | @header path file hfile included symbols =>
    rw [Tx.run_transaction_write _ hdb]
    exact ⟨rfl, .recordFile ⟨file, (Store.mem_of_fileAt? hfile).1, rfl⟩ included symbols⟩

namespace Bench

/-- What may go on beside the scheduler and the collector: a transaction of a job that was started,
a job that comes to its end, or whatever producers outside do with channels that are there. -/
inductive Alongside (now : Bench) : Bench → Prop where
  | write {job : IndexJob} {database : Database} : job ∈ now.jobs →
      IndexWrite job now.database database → Alongside now { now with database }
  | ended {job : IndexJob} (channels : Channels) (indexer : Indexer) : job ∈ now.jobs →
      Alongside now { now with jobs := now.jobs.erase job, channels, indexer }
  | outside {channels : Channels} : channels.length = now.channels.length →
      Alongside now { now with channels }

theorem Alongside.collector {now after : Bench} (h : now.Alongside after) :
    after.collector = now.collector := by
  cases h <;> rfl

/-- What may go on beside a pass: all this in any order, and rounds of the collector. -/
inductive Background (bench : Bench) : Bench → Prop where
  | refl : Background bench bench
  | round {now : Bench} : Background bench now → Background bench now.poll
  | beside {now after : Bench} : Background bench now → now.Alongside after → Background bench after

theorem Background.trans {before now after : Bench} (h : before.Background now)
    (h' : now.Background after) : before.Background after := by
  induction h' with
  | refl => exact h
  | round _ ih => exact .round ih
  | beside _ hbeside ih => exact .beside ih hbeside

/-- When all producers outside have gone, a collector stops. -/
theorem stops_dropProducers (bench : Bench) :
    Stops Alongside bench bench.dropProducers.stop := by
  have hdropped : Stopping Alongside bench bench.dropProducers.beginStop :=
    .meanwhile .begin (.outside (by simp [beginStop, dropProducers, Channels.dropAll]))
  exact hdropped.stops (fun _ _ h => h.collector) (Channels.noneWaiting_dropAll _)

end Bench

/-! ## Grown tables -/

namespace Store

variable {store : Store}

/-- No action was skipped. -/
def Unskipped (store : Store) : Prop :=
  ∀ row ∈ store.actions, row.state ≠ Worded.word ActionState.skipped

theorem Unskipped.moved (h : store.Unskipped) (actions : List Int) :
    (store.moved (fun _ => .parsed) actions).Unskipped := by
  intro row' hrow'
  obtain ⟨row, hrow, rfl⟩ := mem_moved hrow'
  unfold movedRow
  split
  · show Worded.word ActionState.parsed ≠ Worded.word ActionState.skipped
    decide
  · exact h row hrow

end Store

namespace Bench

/-- No scope is open, the tables are whole and have evolved from the given ones with the same
checkouts, no action was skipped, and the jobs are about files that have rows. With care, whatever
is named has a row. -/
structure Grown (careful : Prop) (store : Store) (bench : Bench) : Prop where
  closed : bench.database.depth = 0
  evolves : store.Evolves bench.database.store
  whole : bench.database.store.Whole
  unskipped : bench.database.store.Unskipped
  repositories : bench.database.store.repositories = store.repositories
  intact : careful → bench.database.store.Intact
  jobs : ∀ job ∈ bench.jobs, bench.database.store.HasFile job.file

namespace Grown

variable {careful : Prop} {store : Store} {bench after : Bench} {work : Unfinished}

theorem valid (h : Grown careful store bench) : bench.database.refuses = false :=
  Database.refuses_of_depth h.closed

theorem linksKnown (h : Grown careful store bench) : bench.database.store.LinksKnown := by
  intro link hlink
  obtain ⟨file, hfile, hid⟩ := (h.whole.links.sources link hlink).2
  rw [← hid]
  exact h.whole.consistent.files.given file hfile

/-- The tables and jobs are the same. -/
theorem congr (h : Grown careful store bench) (hdatabase : after.database = bench.database)
    (hjobs : ∀ job ∈ after.jobs, job ∈ bench.jobs) : Grown careful store after := by
  constructor
  case jobs =>
    intro job hjob
    rw [hdatabase]
    exact h.jobs job (hjobs job hjob)
  all_goals rw [hdatabase]
  · exact h.closed
  · exact h.evolves
  · exact h.whole
  · exact h.unskipped
  · exact h.repositories
  · exact h.intact

/-- Actions were parsed, and then the tables were enriched. -/
theorem enriched (h : Grown careful store bench) (actions : List Int)
    (hclosed : after.database.depth = 0)
    (hstore : (bench.database.store.moved (fun _ => .parsed) actions).Enriches careful
      after.database.store)
    (hjobs : ∀ job ∈ after.jobs, job ∈ bench.jobs ∨ bench.database.store.HasFile job.file) :
    Grown careful store after := by
  have hmoved := Store.evolves_moved (fun _ => .parsed) actions bench.database.store
  refine ⟨hclosed, (h.evolves.trans hmoved).trans hstore.evolves,
    hstore.whole (h.whole.evolves hmoved rfl rfl), ?_,
    hstore.beside.repositories.trans h.repositories,
    fun hcareful => hstore.intact hcareful ((h.intact hcareful).moved _ _), fun job hjob => ?_⟩
  · rw [Store.Unskipped, hstore.beside.actions]
    exact h.unskipped.moved actions
  · exact (hmoved.trans hstore.evolves).hasFile ((hjobs job hjob).elim (h.jobs job) id)

theorem finish (h : Grown careful store bench) : Grown careful store (bench.finish work) := by
  refine h.enriched [work.action] ?_ ?_ fun job hjob => .inl hjob
  · rw [(frame_finish h.valid).2]
    exact h.closed
  · rw [store_finish h.valid]
    exact .refl careful _

theorem poll (h : Grown careful store bench) : Grown careful store bench.poll := by
  refine poll_keeps (P := fun _ b => Grown careful store b) (fun _ _ _ _ h => h)
    (fun _ _ _ _ h => h.congr rfl fun _ hjob => hjob) (fun work _ b h => ?_) bench h
  have hcounted : Grown careful store { b with
      tally := b.tally.recordAll (work.poll b.channels).2 } := h.congr rfl fun _ hjob => hjob
  rcases b.pollUnit_cases work with hcase | ⟨-, hcase⟩
  · rw [hcase]
    exact hcounted
  · rw [hcase]
    exact hcounted.finish

/-- What goes on beside keeps the tables whole and leaves the build graph alone. -/
theorem beside (h : Grown careful store bench) (hafter : bench.Alongside after) :
    Grown careful store after ∧ bench.Undisturbed after := by
  cases hafter with
  | write hjob hwrite =>
    obtain ⟨hclosed, henriches⟩ := hwrite.enriches h.closed (h.jobs _ hjob) careful
    refine ⟨h.enriched [] hclosed ?_ fun _ hjob => .inl hjob, ?_⟩
    · rw [Store.moved_nil]
      exact henriches
    · exact ⟨fun _ => Database.refuses_of_depth hclosed, henriches.beside.actions,
        henriches.beside.sameGraph h.linksKnown, rfl, rfl, rfl⟩
  | ended channels indexer hjob =>
    exact ⟨h.congr rfl fun _ => List.mem_of_mem_erase, id, rfl, .refl _, rfl, rfl, rfl⟩
  | outside hlength =>
    exact ⟨h.congr rfl fun _ hjob => hjob, id, rfl, .refl _, rfl, rfl, rfl⟩

theorem background (h : Grown careful store bench) (hafter : bench.Background after) :
    Grown careful store after ∧ bench.Meanwhile after := by
  induction hafter with
  | refl => exact ⟨h, .refl⟩
  | round _ ih => exact ⟨ih.1.poll, .round ih.2⟩
  | beside _ hbeside ih =>
    obtain ⟨hgrown, hundisturbed⟩ := ih.1.beside hbeside
    exact ⟨hgrown, .other ih.2 hundisturbed⟩

/-- The same holds all along while the collector stops. -/
theorem stopping (h : Grown careful store bench) (hafter : Stopping Alongside bench after) :
    Grown careful store after ∧ Stopping Undisturbed bench after := by
  induction hafter with
  | begin => exact ⟨h.congr rfl fun _ hjob => hjob, .begin⟩
  | @step now _ _ hstep ih =>
    refine ⟨?_, ih.2.step hstep⟩
    obtain ⟨-, ⟨work, rest, -, -, rfl⟩ | ⟨work, rest, found, left, -, -, rfl⟩ | ⟨-, rfl⟩⟩ :=
      stopStep_cases hstep
    · have hkept : Grown careful store { now with
          collector := { now.collector with working := rest } } := ih.1.congr rfl fun _ hjob => hjob
      exact hkept.finish
    · exact ih.1.congr rfl fun _ hjob => hjob
    · exact ih.1.congr rfl fun _ hjob => hjob
  | meanwhile _ hbeside ih =>
    obtain ⟨hgrown, hundisturbed⟩ := ih.1.beside hbeside
    exact ⟨hgrown, ih.2.meanwhile hundisturbed⟩

end Grown

end Bench

/-! ## Jobs one after the other -/

section

variable {α β : Type}

/-- Where no scope is open, the work succeeds, and does nothing but transactions of the job. -/
def Tx.Indexes (job : IndexJob) (work : Tx α) : Prop :=
  ∀ db, db.depth = 0 → ∃ a after, work.run.run db = (.ok a, after) ∧ after.depth = 0 ∧
    Relation.ReflTransGen (IndexWrite job) db after

theorem Tx.Indexes.pure (job : IndexJob) (a : α) : Indexes job (pure a : Tx α) :=
  fun db hdb => ⟨a, db, rfl, hdb, .refl⟩

theorem Tx.Indexes.bind {job : IndexJob} {work : Tx α} {next : α → Tx β} (h : Indexes job work)
    (hnext : ∀ a, Indexes job (next a)) : Indexes job (work >>= next) := by
  intro db hdb
  obtain ⟨a, between, hrun, hbetween, hwrites⟩ := h db hdb
  obtain ⟨b, after, hrun', hafter, hwrites'⟩ := hnext a between hbetween
  exact ⟨b, after, by rw [run_run_bind, hrun]; exact hrun', hafter, hwrites.trans hwrites'⟩

end

namespace Indexer

variable (extract : Extractor) (tree : FileTree) (includePaths : List String) {job : IndexJob}

/-- To index a file that the job may record is at most one transaction. -/
theorem run_indexFile {db : Database} (hdb : db.depth = 0) {file : Int}
    (hfile : ∀ included symbols, IndexWrite job db
      ((Tx.transaction (Tx.write (recordFile file included symbols))).run.run db).2)
    (path : String) :
    ∃ a after, (indexFile extract tree includePaths file path).run.run db = (.ok a, after) ∧
      after.depth = 0 ∧ Relation.ReflTransGen (IndexWrite job) db after := by
  unfold indexFile
  cases tree.read? path with
  | none => exact ⟨none, db, rfl, hdb, .refl⟩
  | some bytes =>
    have hwrite := hfile (includedFiles tree includePaths path (extract (Text.decodeLossy bytes)))
      (extract (Text.decodeLossy bytes)).symbols
    have hrun := Tx.run_transaction_write (recordFile file
      (includedFiles tree includePaths path (extract (Text.decodeLossy bytes)))
      (extract (Text.decodeLossy bytes)).symbols) hdb
    rw [hrun] at hwrite
    dsimp only
    rw [run_run_bind, hrun]
    exact ⟨_, _, rfl, rfl, .single hwrite⟩

theorem indexes_indexHeader (path : String) :
    (indexHeader extract tree includePaths path).Indexes job := by
  intro db hdb
  have hintern := Tx.run_transaction_update (Store.internFile path) hdb
  have hwrite : IndexWrite job db _ := .intern path
  rw [hintern] at hwrite
  obtain ⟨a, after, hrun, hafter, hwrites⟩ := @run_indexFile extract tree includePaths job
    ⟨(db.store.internFile path).2, db.store, 0, false⟩ rfl (db.store.internFile path).1.id
    (fun _ _ => .header (Store.fileAt?_internFile path db.store) _ _) path
  refine ⟨a, after, ?_, hafter, .head hwrite hwrites⟩
  rw [indexHeader, run_run_bind, hintern]
  exact hrun

theorem indexes_follow (files : Nat) (pending : List String) (indexer : Indexer) :
    (indexer.follow extract tree includePaths files pending).Indexes job := by
  fun_induction follow extract tree includePaths files pending indexer with
  | case1 => exact .pure job _
  | case2 => assumption
  | case3 => exact .pure job _
  | case4 indexer path rest _ files _ ihIncluded ihRest =>
    refine (indexes_indexHeader extract tree includePaths path).bind fun included => ?_
    cases included with
    | some included => exact ihIncluded included
    | none => exact ihRest

end Indexer

theorem IndexJob.indexes_run (extract : Extractor) (tree : FileTree) (job : IndexJob)
    (indexer : Indexer) : (job.run extract tree indexer).Indexes job := by
  unfold IndexJob.run
  refine Tx.Indexes.bind (fun db hdb => ?_) fun included => ?_
  · exact Indexer.run_indexFile extract tree job.includePaths hdb (fun _ _ => .source _ _) job.path
  · cases included with
    | none => exact .pure job _
    | some included =>
      exact (Indexer.indexes_follow extract tree job.includePaths _ _ indexer).bind
        fun _ => .pure job _

namespace Bench

theorem background_writes (bench : Bench) {job : IndexJob} (hjob : job ∈ bench.jobs)
    {database : Database}
    (hwrites : Relation.ReflTransGen (IndexWrite job) bench.database database) :
    bench.Background { bench with database } := by
  induction hwrites with
  | refl => exact .refl
  | @tail between after _ hwrite ih =>
    exact .beside ih (@Alongside.write { bench with database := between } job after hjob hwrite)

/-- A job that runs as a whole. -/
theorem background_runJob (extract : Extractor) (tree : FileTree) (job : IndexJob)
    (rest : List IndexJob) {bench : Bench} (hdb : bench.database.depth = 0) :
    ({ bench with jobs := job :: rest } : Bench).Background
      { bench.runJob extract tree job with jobs := rest } ∧
    (bench.runJob extract tree job).database.depth = 0 ∧
    (bench.runJob extract tree job).jobs = bench.jobs := by
  obtain ⟨⟨outcome, indexer⟩, database, hrun, hafter, hwrites⟩ :=
    job.indexes_run extract tree bench.indexer bench.database hdb
  have hwritten := background_writes { bench with jobs := job :: rest } (.head _) hwrites
  have hended := hwritten.beside
    (@Alongside.ended _ job (bench.channels.send job.channel outcome) indexer (.head _))
  rw [List.erase_cons_head] at hended
  unfold runJob
  rw [hrun]
  exact ⟨hended, hafter, rfl⟩

theorem background_runJobs (extract : Extractor) (tree : FileTree) {bench : Bench}
    (hdb : bench.database.depth = 0) :
    bench.Background (bench.runJobs extract tree) ∧ (bench.runJobs extract tree).jobs = [] := by
  have hall : ∀ (jobs : List IndexJob) (b : Bench), b.database.depth = 0 → b.jobs = [] →
      ({ b with jobs } : Bench).Background
        (jobs.foldl (fun b job => b.runJob extract tree job) b) ∧
        (jobs.foldl (fun b job => b.runJob extract tree job) b).jobs = [] := by
    intro jobs
    induction jobs with
    | nil =>
      intro b _ hb
      have hsame : ({ b with jobs := [] } : Bench) = b := by rw [← hb]
      rw [hsame]
      exact ⟨.refl, hb⟩
    | cons job rest ih =>
      intro b hdepth hb
      obtain ⟨hjob, hclosed, hsame⟩ := background_runJob extract tree job rest hdepth
      obtain ⟨hrest, hjobs⟩ := ih _ hclosed (hsame.trans hb)
      exact ⟨hjob.trans hrest, hjobs⟩
  exact hall bench.jobs { bench with jobs := [] } hdb rfl

theorem jobs_poll (bench : Bench) : bench.poll.jobs = bench.jobs := by
  refine poll_keeps (P := fun _ b => b.jobs = bench.jobs) (fun _ _ _ _ h => h)
    (fun _ _ _ _ h => h) (fun work _ b h => ?_) bench rfl
  rcases b.pollUnit_cases work with hcase | ⟨-, hcase⟩
  · rw [hcase]
    exact h
  · rw [hcase]
    exact h

theorem jobs_stop (bench : Bench) : bench.stop.jobs = bench.jobs :=
  stop_keeps (P := fun _ b => b.jobs = bench.jobs) (fun _ _ _ _ h => h)
    (fun _ _ _ _ _ _ h => h) (fun _ _ _ _ h => h) bench rfl

theorem background_settle (tree : FileTree) {bench : Bench} (hdb : bench.database.depth = 0) :
    bench.Background (bench.settle tree) ∧ (bench.settle tree).jobs = [] := by
  obtain ⟨hbackground, hjobs⟩ := background_runJobs Source.extract tree hdb
  dsimp only [settle]
  split
  · exact ⟨.round hbackground, (jobs_poll _).trans hjobs⟩
  · exact ⟨hbackground, hjobs⟩
  · exact ⟨hbackground, hjobs⟩
  · exact ⟨hbackground, hjobs⟩

end Bench

end SymbolAtlas
