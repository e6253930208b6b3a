import SymbolAtlas.Dispatch.Bench
import SymbolAtlas.Proofs.Store.Database

/-!
# What index jobs leave alone

An index job records symbols and includes and adds files. It never fails and never touches the
build graph (`Store.Extends`, `Tx.Extends`), so whatever jobs run in the background, the scheduler
and the collector do not see them (`Bench.unseen_runJobs`).
-/

namespace SymbolAtlas

/-- Files may have been added, under new identities, and the build graph is the same. -/
structure Store.Extends (before after : Store) : Prop where
  actions : after.actions = before.actions
  sources : after.sources = before.sources
  targets : after.targets = before.targets
  files : ∃ new, after.files = before.files ++ new ∧ ∀ file ∈ new, before.nextFile ≤ file.id
  nextFile : before.nextFile ≤ after.nextFile
  repositories : after.repositories = before.repositories

namespace Store.Extends

variable {before between after : Store}

theorem refl (store : Store) : Extends store store :=
  ⟨rfl, rfl, rfl, ⟨[], by simp, by simp⟩, Int.le_refl _, rfl⟩

theorem trans (h : Extends before between) (h' : Extends between after) :
    Extends before after := by
  obtain ⟨new, hfiles, hnew⟩ := h.files
  obtain ⟨new', hfiles', hnew'⟩ := h'.files
  refine ⟨h'.actions.trans h.actions, h'.sources.trans h.sources, h'.targets.trans h.targets,
    ⟨new ++ new', by rw [hfiles', hfiles, List.append_assoc], fun file hfile => ?_⟩,
    Int.le_trans h.nextFile h'.nextFile, h'.repositories.trans h.repositories⟩
  rcases List.mem_append.mp hfile with hfile | hfile
  · exact hnew file hfile
  · exact Int.le_trans h.nextFile (hnew' file hfile)

theorem restoredTo (h : Extends before after) : Extends before (after.restoredTo before) :=
  ⟨rfl, rfl, rfl, ⟨[], (List.append_nil _).symm, by simp⟩, h.nextFile, rfl⟩

theorem internFile (path : String) (store : Store) :
    Extends store (store.internFile path).2 := by
  unfold Store.internFile
  split
  · exact refl store
  · exact ⟨rfl, rfl, rfl, ⟨[_], rfl, by simp⟩, Int.le_add_one (Int.le_refl _), rfl⟩

theorem internFiles (paths : List String) (store : Store) :
    Extends store (store.internFiles paths).2 := by
  induction paths generalizing store with
  | nil => exact refl store
  | cons path paths ih => exact (internFile path store).trans (ih _)

theorem recordFile (file : Int) (included : List String) (symbols : List Source.Found)
    (store : Store) : Extends store (Indexer.recordFile file included symbols store) := by
  obtain ⟨hactions, hsources, htargets, hfiles, hnext, hrepositories⟩ := internFiles included store
  exact ⟨hactions, hsources, htargets, hfiles, hnext, hrepositories⟩

/-- What a plugin records leaves the build graph. -/
theorem record (effects : Plugin.Effects) (store : Store) :
    Extends store (effects.record store) := by
  unfold Plugin.Effects.record
  induction effects.records generalizing store with
  | nil => exact refl store
  | cons call rest ih =>
    refine trans ?_ (ih _)
    obtain ⟨call, hcall⟩ := call
    cases call with
    | internFile path => exact internFile path store
    | replaceSymbols | addSymbol | replaceIncludes | addInclude | clearStatistics | putStatistic
    | setNote => exact ⟨rfl, rfl, rfl, ⟨[], (List.append_nil _).symm, by simp⟩, Int.le_refl _, rfl⟩
    | insertAction | addSource | addTarget | setState | replaceClusters | addRepository | ask =>
      cases hcall

end Store.Extends

namespace Tx

variable {α β : Type}

/-- The work left the build graph and the open scopes, and it succeeded if the database takes
statements. -/
structure Extended (db : Database) (result : Except Fault α) (after : Database) : Prop where
  store : db.store.Extends after.store
  depth : after.depth = db.depth
  refuses : after.refuses = db.refuses
  isOk : db.refuses = false → ∃ a, result = .ok a

/-- The work leaves the build graph, and fails only where no statement is taken. -/
def Extends (work : Tx α) : Prop :=
  ∀ db, Extended db (work.run.run db).1 (work.run.run db).2

theorem Extends.pure (a : α) : Extends (pure a : Tx α) :=
  fun _ => ⟨.refl _, rfl, rfl, fun _ => ⟨a, rfl⟩⟩

theorem Extends.bind {work : Tx α} {next : α → Tx β} (h : Extends work)
    (hnext : ∀ a, Extends (next a)) : Extends (work >>= next) := by
  intro db
  have hfirst := h db
  rw [run_run_bind]
  rcases hrun : work.run.run db with ⟨fault | a, between⟩
  · rw [hrun] at hfirst
    refine ⟨hfirst.store, hfirst.depth, hfirst.refuses, fun hdb => ?_⟩
    obtain ⟨_, hok⟩ := hfirst.isOk hdb
    cases hok
  · rw [hrun] at hfirst
    have hsecond := hnext a between
    exact ⟨hfirst.store.trans hsecond.store, hsecond.depth.trans hfirst.depth,
      hsecond.refuses.trans hfirst.refuses,
      fun hdb => hsecond.isOk (hfirst.refuses.trans hdb)⟩

theorem Extends.update {change : Store → α × Store}
    (h : ∀ store : Store, store.Extends (change store).2) : Extends (update change) := by
  intro db
  cases hdb : db.refuses with
  | true =>
    rw [run_update_of_refuses hdb]
    exact ⟨.refl _, rfl, rfl, by simp [hdb]⟩
  | false =>
    rw [run_update hdb]
    exact ⟨h db.store, rfl, rfl, fun _ => ⟨_, rfl⟩⟩

theorem Extends.write {change : Store → Store} (h : ∀ store : Store, store.Extends (change store)) :
    Extends (write change) := .update h

theorem Extends.transaction {work : Tx α} (h : Extends work) : Extends (transaction work) := by
  intro db
  have hwork := h db.enter
  rw [run_transaction]
  generalize (work.run.run db.enter).1 = result at hwork
  generalize (work.run.run db.enter).2 = after at hwork
  have hdepth : after.depth = db.depth + 1 := hwork.depth
  have hinvalidated : after.invalidated = db.refuses := by
    rw [← Database.refuses_of_open (by omega), hwork.refuses, Database.refuses_enter]
  cases hdb : db.refuses with
  | true =>
    -- a scope that is not the outermost one
    have hopen : db.depth ≠ 0 := by
      rintro hclosed
      rw [Database.refuses_of_depth hclosed] at hdb
      cases hdb
    refine ⟨?_, by simp [Database.leave, hdepth], ?_, by simp [hdb]⟩
    · rw [Database.leave, if_neg (by simp [hdepth, hopen])]
      exact hwork.store
    · rw [hdb, Database.refuses_of_open (by simp [Database.leave, hdepth, hopen])]
      exact hinvalidated.trans hdb
  | false =>
    obtain ⟨a, rfl⟩ := hwork.isOk (by rw [Database.refuses_enter, hdb])
    rw [hdb] at hinvalidated
    refine ⟨?_, by simp [Database.leave, hdepth], ?_, fun _ => ⟨a, rfl⟩⟩
    · exact Database.store_leave_true hinvalidated ▸ hwork.store
    · rw [hdb]
      simp [Database.refuses, Database.leave, hinvalidated]

end Tx

namespace Indexer

variable (extract : Extractor) (tree : FileTree) (includePaths : List String)

theorem extends_indexFile (file : Int) (path : String) :
    (indexFile extract tree includePaths file path).Extends := by
  unfold indexFile
  cases tree.read? path with
  | none => exact .pure none
  | some bytes =>
    exact (Tx.Extends.write fun store => .recordFile file _ _ store).transaction.bind fun _ =>
      .pure _

theorem extends_indexHeader (path : String) : (indexHeader extract tree includePaths path).Extends :=
  (Tx.Extends.update fun store => .internFile path store).transaction.bind fun file =>
    extends_indexFile extract tree includePaths file.id path

theorem extends_follow (files : Nat) (pending : List String) (indexer : Indexer) :
    (indexer.follow extract tree includePaths files pending).Extends := by
  fun_induction follow extract tree includePaths files pending indexer with
  | case1 => exact .pure _
  | case2 => assumption
  | case3 => exact .pure _
  | case4 indexer path rest _ files _ ihIncluded ihRest =>
    refine (extends_indexHeader extract tree includePaths path).bind fun included => ?_
    cases included with
    | some included => exact ihIncluded included
    | none => exact ihRest

end Indexer

theorem IndexJob.extends_run (extract : Extractor) (tree : FileTree) (job : IndexJob)
    (indexer : Indexer) : (job.run extract tree indexer).Extends := by
  unfold IndexJob.run
  refine (Indexer.extends_indexFile extract tree job.includePaths job.file job.path).bind
    fun included => ?_
  cases included with
  | none => exact .pure _
  | some included =>
    exact (Indexer.extends_follow extract tree job.includePaths _ _ indexer).bind fun _ => .pure _

namespace Bench

/-- Nothing changed that the scheduler or the collector works with: not the build graph, and not
the units, the counts, the cursor or the calls. -/
structure Unseen (before after : Bench) : Prop where
  store : before.database.store.Extends after.database.store
  refuses : after.database.refuses = before.database.refuses
  collector : after.collector = before.collector
  tally : after.tally = before.tally
  cursor : after.cursor = before.cursor
  calls : after.calls = before.calls

theorem unseen_runJob (extract : Extractor) (tree : FileTree) (job : IndexJob) (bench : Bench) :
    bench.Unseen (bench.runJob extract tree job) := by
  have hextends := job.extends_run extract tree bench.indexer bench.database
  unfold runJob
  rcases hrun : (job.run extract tree bench.indexer).run.run bench.database with ⟨_ | _, after⟩ <;>
    rw [hrun] at hextends
  · exact ⟨hextends.store, hextends.refuses, rfl, rfl, rfl, rfl⟩
  · exact ⟨hextends.store, hextends.refuses, rfl, rfl, rfl, rfl⟩

theorem unseen_runJobs (extract : Extractor) (tree : FileTree) (bench : Bench) :
    bench.Unseen (bench.runJobs extract tree) := by
  have hall : ∀ (jobs : List IndexJob) (b : Bench), bench.Unseen b →
      bench.Unseen (jobs.foldl (fun b job => b.runJob extract tree job) b) := by
    intro jobs
    induction jobs with
    | nil => exact fun _ h => h
    | cons job rest ih =>
      intro b h
      have hjob := b.unseen_runJob extract tree job
      exact ih _ ⟨h.store.trans hjob.store, hjob.refuses.trans h.refuses,
        hjob.collector.trans h.collector, hjob.tally.trans h.tally, hjob.cursor.trans h.cursor,
        hjob.calls.trans h.calls⟩
  exact hall _ _ ⟨.refl _, rfl, rfl, rfl, rfl, rfl⟩

end Bench

end SymbolAtlas
