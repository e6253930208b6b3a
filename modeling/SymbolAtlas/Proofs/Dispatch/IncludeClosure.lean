import Mathlib.Data.Finset.Card
import Mathlib.Logic.Relation
import SymbolAtlas.Dispatch.Bench
import SymbolAtlas.Proofs.Dispatch.IndexTables
import SymbolAtlas.Proofs.FileTree.PathBound
import SymbolAtlas.Proofs.Store.Database

/-!
# The include closure

What index jobs reach, and in which order.

- **Includes** (`Indexer.Includes`): the files that a file includes, as the tree and the include
  directories decide it. From an absolute normal path that names a file they lead to such paths
  only (`Indexable.includes`), and of these there are finitely many.
- **One job** (`Sweep`): files that are pending are taken one by one; one that was not seen is
  recorded, and what it includes becomes pending. A sweep ends with nothing pending. The bound on
  the number of files never cuts a job short, be the includes cyclic or not (`follow_sweeps`).
- **Jobs in a row** (`Course`): what one job has seen, the later ones leave out. As whatever is
  below a seen file is seen as well (`Course.covers`), the jobs together still reach everything that
  is below their sources, each file once (`Course.mem_headers_iff`, `Course.nodup`).
- **The tables** (`Bench.runJobs_records`): the jobs do nothing else than to record their source and
  each file of their sweep, in this order. `Bench.Indexed` says what they leave behind.
-/

namespace SymbolAtlas

namespace Indexer

variable (extract : Extractor) (tree : FileTree) (includePaths : List String)

/-! ## What a file includes -/

/-- The file at one path includes the one at the other. -/
def Includes (path included : String) : Prop := included ∈ includesOf extract tree includePaths path

/-- An absolute normal path that names a file. -/
structure Indexable (path : String) : Prop where
  normal : Path.Normal path
  isFile : tree.isFile path = true

variable {extract tree includePaths} {path : String} {store : Store}

theorem exists_read? (h : tree.isFile path = true) : ∃ bytes, tree.read? path = some bytes := by
  unfold FileTree.isFile at h
  unfold FileTree.read?
  cases hnode : tree.find? path with
  | none => simp [hnode] at h
  | some node => cases node <;> simp_all [Node.isFile]

/-- The root is no file: its path names a directory only. -/
theorem isFile_root : tree.isFile "/" = false := by
  have hdirectory : FileTree.namesDirectory "/" = true := by decide
  unfold FileTree.isFile FileTree.find? FileTree.locate?
  simp only [hdirectory, Bool.true_and]
  split
  · rfl
  · split
    · rfl
    · rename_i names _
      cases hnode : tree.root.descend? names.reverse with
      | none => rfl
      | some node => cases node <;> simp [hnode, Node.isDirectory, Node.isFile]

theorem Indexable.includes (h : Indexable tree path) {included : String}
    (hincludes : Includes extract tree includePaths path included) : Indexable tree included := by
  obtain ⟨directive, -, hfound⟩ := List.mem_filterMap.mp hincludes
  refine ⟨?_, List.find?_some hfound⟩
  have hroot : path ≠ "/" := by
    rintro rfl
    simpa [isFile_root] using h.isFile
  have hdirectory := h.normal.isAbsolute_parent hroot
  obtain ⟨dir, hdir, rfl⟩ := List.mem_map.mp (List.mem_of_find?_eq_some hfound)
  -- the directory of the file, or an include directory seen from it
  refine Path.normal_resolve ?_ directive.path
  have hsearched : dir ∈ includePaths.map (Path.join ((Path.parent? path).getD ".")) →
      Path.isAbsolute dir = true := fun hdir => by
    obtain ⟨searched, -, rfl⟩ := List.mem_map.mp hdir
    exact Path.isAbsolute_join hdirectory
  split at hdir
  · exact hsearched hdir
  · rcases List.mem_cons.mp hdir with rfl | hdir
    · exact hdirectory
    · exact hsearched hdir

/-! ## One job -/

theorem yields_indexFile (h : tree.isFile path = true) (file : Int) :
    (indexFile extract tree includePaths file path).Yields store
      (some (includesOf extract tree includePaths path))
      (recordFile file (includesOf extract tree includePaths path)
        (foundAt extract tree path).symbols store) := by
  obtain ⟨bytes, hbytes⟩ := exists_read? h
  have hfound : foundAt extract tree path = extract (Text.decodeLossy bytes) := by
    simp [foundAt, hbytes]
  unfold indexFile
  rw [hbytes, includesOf, hfound]
  exact (Tx.Yields.write _ store).transaction.bind (.pure _ _)

theorem yields_indexHeader (h : tree.isFile path = true) :
    (indexHeader extract tree includePaths path).Yields store
      (some (includesOf extract tree includePaths path))
      (recordPath extract tree includePaths store path) :=
  (Tx.Yields.update _ store).transaction.bind (yields_indexFile h _)

variable (extract tree includePaths) in
/-- From files that are pending and files that were seen, a job goes through these files. -/
inductive Sweep : (pending seen swept : List String) → Prop where
  | done {seen : List String} : Sweep [] seen []
  | skip {path : String} {rest seen swept : List String} : path ∈ seen →
      Sweep rest seen swept → Sweep (path :: rest) seen swept
  | visit {path : String} {rest seen swept : List String} : path ∉ seen →
      Sweep ((includesOf extract tree includePaths path).reverse ++ rest) (seen ++ [path]) swept →
      Sweep (path :: rest) seen (path :: swept)

/-- Take a sweep into account. -/
def afterSweep (indexer : Indexer) (swept : List String) : Indexer :=
  ⟨indexer.seen ++ swept, indexer.indexed + swept.length⟩

theorem afterSweep_cons (indexer : Indexer) (path : String) (swept : List String) :
    afterSweep ⟨indexer.seen ++ [path], indexer.indexed + 1⟩ swept =
      indexer.afterSweep (path :: swept) := by
  simp only [afterSweep, List.append_assoc, List.singleton_append, List.length_cons,
    Indexer.mk.injEq, true_and]
  omega

/-- A job that may index as many files as are left to see goes on until nothing is pending. -/
theorem follow_sweeps {possible : Finset String} (hpossible : ∀ p, Indexable tree p → p ∈ possible)
    (files : Nat) (pending : List String) (indexer : Indexer)
    (hpending : ∀ p ∈ pending, Indexable tree p)
    (hfiles : (possible \ indexer.seen.toFinset).card ≤ files) :
    ∃ swept, Sweep extract tree includePaths pending indexer.seen swept ∧
      ∀ store, (indexer.follow extract tree includePaths files pending).Yields store
        (indexer.afterSweep swept) (recordAll extract tree includePaths store swept) := by
  fun_induction follow extract tree includePaths files pending indexer with
  | case1 files indexer =>
    refine ⟨[], .done, fun store => ?_⟩
    simpa [afterSweep, recordAll] using Tx.Yields.pure indexer store
  | case2 files indexer path rest hseen ih =>
    obtain ⟨swept, hsweep, hyields⟩ := ih (fun p hp => hpending p (.tail _ hp)) hfiles
    exact ⟨swept, .skip (by simpa using hseen) hsweep, hyields⟩
  | case3 indexer path rest hseen =>
    have hleft : path ∈ possible \ indexer.seen.toFinset := by
      simpa using ⟨hpossible path (hpending path (.head _)), by simpa using hseen⟩
    exact absurd (Finset.card_pos.mpr ⟨path, hleft⟩) (by omega)
  | case4 indexer path rest hseen files indexer' ihIncluded _ =>
    have hpath := hpending path (.head _)
    have hnew : path ∉ indexer.seen := by simpa using hseen
    have hfewer : (possible \ indexer'.seen.toFinset).card ≤ files := by
      refine Nat.le_of_lt_succ (Nat.lt_of_lt_of_le (Finset.card_lt_card ?_) hfiles)
      refine Finset.ssubset_iff_of_subset (fun p hp => ?_) |>.mpr ⟨path, ?_, ?_⟩
      · simp only [indexer', Finset.mem_sdiff, List.mem_toFinset, List.mem_append, not_or] at hp ⊢
        exact ⟨hp.1, hp.2.1⟩
      · simpa [hnew] using hpossible path hpath
      · simp [indexer']
    obtain ⟨swept, hsweep, hyields⟩ := ihIncluded (includesOf extract tree includePaths path)
      (fun p hp => by
        rcases List.mem_append.mp hp with hp | hp
        · exact hpath.includes (List.mem_reverse.mp hp)
        · exact hpending p (.tail _ hp)) hfewer
    refine ⟨path :: swept, .visit hnew hsweep, fun store => ?_⟩
    rw [← afterSweep_cons]
    exact (yields_indexHeader hpath.isFile).bind (hyields _)

namespace Sweep

variable {pending seen swept : List String}

theorem nodup (h : Sweep extract tree includePaths pending seen swept) :
    swept.Nodup ∧ ∀ p ∈ swept, p ∉ seen := by
  induction h with
  | done => simp
  | skip _ _ ih => exact ih
  | visit hnew _ ih =>
    obtain ⟨hnodup, hdisjoint⟩ := ih
    simp only [List.mem_append, List.mem_singleton, not_or] at hdisjoint
    refine ⟨List.nodup_cons.mpr ⟨fun hmem => (hdisjoint _ hmem).2 rfl, hnodup⟩, ?_⟩
    exact List.forall_mem_cons.mpr ⟨hnew, fun p hp => (hdisjoint p hp).1⟩

/-- Everything that was pending was seen, and everything that is included by what was swept. -/
theorem covers (h : Sweep extract tree includePaths pending seen swept) :
    (∀ p ∈ pending, p ∈ seen ++ swept) ∧
    ∀ p ∈ swept, ∀ q, Includes extract tree includePaths p q → q ∈ seen ++ swept := by
  induction h with
  | done => simp
  | skip hseen _ ih =>
    exact ⟨List.forall_mem_cons.mpr ⟨List.mem_append_left _ hseen, ih.1⟩, ih.2⟩
  | visit _ _ ih =>
    rw [List.append_assoc, List.singleton_append] at ih
    obtain ⟨hpending, hswept⟩ := ih
    refine ⟨List.forall_mem_cons.mpr ⟨by simp, fun p hp => hpending p ?_⟩,
      List.forall_mem_cons.mpr ⟨fun q hq => hpending q ?_, hswept⟩⟩
    · exact List.mem_append_right _ hp
    · exact List.mem_append_left _ (List.mem_reverse.mpr hq)

theorem reachable (h : Sweep extract tree includePaths pending seen swept) :
    ∀ q ∈ swept, ∃ p ∈ pending, Relation.ReflTransGen (Includes extract tree includePaths) p q := by
  induction h with
  | done => simp
  | skip _ _ ih =>
    intro q hq
    obtain ⟨p, hp, hpq⟩ := ih q hq
    exact ⟨p, .tail _ hp, hpq⟩
  | @visit path rest seen swept _ _ ih =>
    intro q hq
    rcases List.mem_cons.mp hq with rfl | hq
    · exact ⟨q, .head _, .refl⟩
    · obtain ⟨p, hp, hpq⟩ := ih q hq
      rcases List.mem_append.mp hp with hp | hp
      · exact ⟨path, .head _, hpq.head (List.mem_reverse.mp hp)⟩
      · exact ⟨p, .tail _ hp, hpq⟩

end Sweep

/-! ## Jobs in a row -/

variable (extract tree includePaths) in
/-- Jobs go through these files, one job after the other: each one is given by its source and the
files of its sweep. -/
def Course : (seen : List String) → List (String × List String) → Prop
  | _, [] => True
  | seen, (source, swept) :: rest =>
    Sweep extract tree includePaths (includesOf extract tree includePaths source).reverse seen swept ∧
      Course (seen ++ swept) rest

/-- The files that were reached by an include, in order. -/
def headers (course : List (String × List String)) : List String := course.flatMap Prod.snd

/-- The files that were recorded, in order. -/
def records (course : List (String × List String)) : List String :=
  course.flatMap fun job => job.1 :: job.2

namespace Course

variable {seen : List String} {course : List (String × List String)}

theorem nodup (h : Course extract tree includePaths seen course) :
    (headers course).Nodup ∧ ∀ p ∈ headers course, p ∉ seen := by
  induction course generalizing seen with
  | nil => simp [headers]
  | cons job rest ih =>
    obtain ⟨hsweep, hrest⟩ := h
    obtain ⟨hnodup, hfresh⟩ := hsweep.nodup
    obtain ⟨hnodup', hfresh'⟩ := ih hrest
    simp only [List.mem_append, not_or] at hfresh'
    refine ⟨List.nodup_append'.mpr ⟨hnodup, hnodup', fun p hp hp' => (hfresh' p hp').2 hp⟩,
      fun p hp => ?_⟩
    rcases List.mem_append.mp hp with hp | hp
    · exact hfresh p hp
    · exact (hfresh' p hp).1

/-- What is below the sources and below what was seen is seen in the end, if what is below the
files seen at the start is. -/
theorem covers (h : Course extract tree includePaths seen course)
    (hseen : ∀ p ∈ seen, ∀ q, Includes extract tree includePaths p q → q ∈ seen) :
    (∀ job ∈ course, ∀ q, Includes extract tree includePaths job.1 q → q ∈ seen ++ headers course) ∧
    ∀ p ∈ seen ++ headers course, ∀ q, Includes extract tree includePaths p q →
      q ∈ seen ++ headers course := by
  induction course generalizing seen with
  | nil => simpa [headers] using hseen
  | cons job rest ih =>
    obtain ⟨hsweep, hrest⟩ := h
    obtain ⟨hpending, hswept⟩ := hsweep.covers
    have hall : seen ++ headers (job :: rest) = (seen ++ job.2) ++ headers rest := by
      simp [headers]
    obtain ⟨hsources, hclosed⟩ := ih hrest fun p hp q hq => by
      rcases List.mem_append.mp hp with hp | hp
      · exact List.mem_append_left _ (hseen p hp q hq)
      · exact hswept p hp q hq
    rw [hall]
    refine ⟨List.forall_mem_cons.mpr ⟨fun q hq => ?_, hsources⟩, hclosed⟩
    exact List.mem_append_left _ (hpending q (List.mem_reverse.mpr hq))

theorem reachable (h : Course extract tree includePaths seen course) :
    ∀ q ∈ headers course, ∃ source ∈ course.map Prod.fst,
      Relation.TransGen (Includes extract tree includePaths) source q := by
  induction course generalizing seen with
  | nil => simp [headers]
  | cons job rest ih =>
    obtain ⟨hsweep, hrest⟩ := h
    intro q hq
    rcases List.mem_append.mp hq with hq | hq
    · obtain ⟨p, hp, hpq⟩ := hsweep.reachable q hq
      exact ⟨job.1, .head _, .head' (List.mem_reverse.mp hp) hpq⟩
    · obtain ⟨source, hsource, hpq⟩ := ih hrest q hq
      exact ⟨source, .tail _ hsource, hpq⟩

/-- Exactly the files that an include leads to from some source are reached. -/
theorem mem_headers_iff (h : Course extract tree includePaths [] course) {q : String} :
    q ∈ headers course ↔ ∃ source ∈ course.map Prod.fst,
      Relation.TransGen (Includes extract tree includePaths) source q := by
  refine ⟨h.reachable q, ?_⟩
  rintro ⟨source, hsource, hreach⟩
  obtain ⟨job, hjob, rfl⟩ := List.mem_map.mp hsource
  obtain ⟨hsources, hclosed⟩ := h.covers (by simp)
  simp only [List.nil_append] at hsources hclosed
  induction hreach with
  | single hfirst => exact hsources job hjob _ hfirst
  | tail _ hlast ih => exact hclosed _ ih _ hlast

end Course

variable (extract tree includePaths) in
/-- The sources, and all files that these include, directly or through others. -/
def Concerns (sources : List String) (path : String) : Prop :=
  ∃ source ∈ sources, Relation.ReflTransGen (Includes extract tree includePaths) source path

theorem Concerns.includes {sources : List String} {included : String}
    (h : Concerns extract tree includePaths sources path)
    (hincludes : Includes extract tree includePaths path included) :
    Concerns extract tree includePaths sources included := by
  obtain ⟨source, hsource, hreach⟩ := h
  exact ⟨source, hsource, hreach.tail hincludes⟩

theorem Course.mem_records_iff {course : List (String × List String)}
    (h : Course extract tree includePaths [] course) {q : String} :
    q ∈ records course ↔ Concerns extract tree includePaths (course.map Prod.fst) q := by
  have hsplit : q ∈ records course ↔ q ∈ course.map Prod.fst ∨ q ∈ headers course := by
    simp only [records, headers, List.mem_flatMap, List.mem_cons, List.mem_map]
    grind
  simp only [hsplit, h.mem_headers_iff, Concerns, Relation.reflTransGen_iff_eq_or_transGen]
  grind

end Indexer

/-! ## The tables -/

/-- The job has a file of the tree for its source, and looks for includes in these directories. -/
structure IndexJob.Fits (tree : FileTree) (includePaths : List String) (job : IndexJob) : Prop where
  source : Indexer.Indexable tree job.path
  includePaths : job.includePaths = includePaths

namespace Bench

open Indexer

variable {extract : Extractor} {tree : FileTree} {includePaths : List String}

theorem runJob_of_fits {job : IndexJob} (hfits : job.Fits tree includePaths) {bench : Bench}
    (hdb : bench.database.refuses = false)
    (hrow : bench.database.store.idOf? job.path = some job.file) :
    ∃ swept database,
      Sweep extract tree includePaths (includesOf extract tree includePaths job.path).reverse
        bench.indexer.seen swept ∧
      database.refuses = false ∧
      database.store =
        recordAll extract tree includePaths bench.database.store (job.path :: swept) ∧
      bench.runJob extract tree job = { bench with
        database
        indexer := bench.indexer.afterSweep swept
        channels := bench.channels.send job.channel .success } := by
  obtain ⟨possible, hcard, hpossible⟩ := tree.exists_bounded_paths
  obtain ⟨swept, hsweep, hyields⟩ := @follow_sweeps extract tree includePaths possible
    (fun p hp => hpossible p hp.normal hp.isFile) tree.pathBound
    (includesOf extract tree includePaths job.path).reverse bench.indexer
    (fun p hp => hfits.source.includes (List.mem_reverse.mp hp))
    ((Finset.card_le_card Finset.sdiff_subset).trans hcard)
  have hrun : (job.run extract tree bench.indexer).Yields bench.database.store
      (.success, bench.indexer.afterSweep swept)
      (recordAll extract tree includePaths bench.database.store (job.path :: swept)) := by
    rw [recordAll, List.foldl_cons, recordPath_of_idOf? hrow]
    unfold IndexJob.run
    rw [hfits.includePaths]
    exact (yields_indexFile hfits.source.isFile job.file).bind ((hyields _).bind (.pure _ _))
  obtain ⟨database, hresult, hdatabase⟩ := hrun.run hdb
  refine ⟨swept, database, hsweep, hdatabase.valid, hdatabase.store, ?_⟩
  unfold runJob
  rw [hresult]

theorem foldl_runJob (jobs : List IndexJob) (bench : Bench) (hdb : bench.database.refuses = false)
    (hfits : ∀ job ∈ jobs, job.Fits tree includePaths)
    (hsound : bench.database.store.FilesSound)
    (hrows : ∀ job ∈ jobs, bench.database.store.idOf? job.path = some job.file) :
    ∃ course database, Course extract tree includePaths bench.indexer.seen course ∧
      course.map Prod.fst = jobs.map IndexJob.path ∧
      database.store = recordAll extract tree includePaths bench.database.store (records course) ∧
      jobs.foldl (fun bench job => bench.runJob extract tree job) bench = { bench with
        database
        indexer := bench.indexer.afterSweep (headers course)
        channels := jobs.foldl (fun channels job => channels.send job.channel .success)
          bench.channels } := by
  induction jobs generalizing bench with
  | nil => exact ⟨[], bench.database, trivial, rfl, rfl, by simp [headers, afterSweep]⟩
  | cons job rest ih =>
    obtain ⟨swept, between, hsweep, hvalid, hbetween, hrun⟩ :=
      @runJob_of_fits extract tree includePaths job (hfits job (.head _)) bench hdb
        (hrows job (.head _))
    have hrecorded := @recorded_recordAll extract tree includePaths _ hsound (job.path :: swept)
    rw [← hbetween] at hrecorded
    obtain ⟨course, database, hcourse, hsources, hstore, hruns⟩ := ih (bench.runJob extract tree job)
      (by rw [hrun]; exact hvalid)
      (fun job' hjob' => hfits job' (.tail _ hjob'))
      (by rw [hrun]; exact hrecorded.adds.sound hsound)
      (fun job' hjob' => by
        rw [hrun]
        exact hrecorded.adds.idOf?_of_some (hrows job' (.tail _ hjob')))
    rw [hrun] at hcourse hstore hruns
    refine ⟨(job.path, swept) :: course, database, ⟨hsweep, hcourse⟩, by simp [hsources], ?_, ?_⟩
    · rw [hstore, hbetween]
      simp [recordAll, records]
    · rw [List.foldl_cons, hrun, hruns]
      simp [headers, afterSweep, Nat.add_assoc]

/-- A source that cannot be read: the job fails, and that is all. -/
theorem runJob_of_unreadable {job : IndexJob} (h : tree.read? job.path = none) (bench : Bench) :
    bench.runJob extract tree job =
      { bench with channels := bench.channels.send job.channel .fail } := by
  have hrun : (job.run extract tree bench.indexer).run.run bench.database =
      (.ok (.fail, bench.indexer), bench.database) := by
    unfold IndexJob.run indexFile
    rw [h]
    rfl
  unfold runJob
  rw [hrun]

/-! ## All jobs together -/

variable (extract tree includePaths) in
/-- What the jobs leave behind. -/
structure Indexed (before after : Bench) : Prop where
  /-- every job comes to an end, and the files are recorded in the order of their sweeps -/
  course : ∃ course, Course extract tree includePaths [] course ∧
    course.map Prod.fst = before.jobs.map IndexJob.path ∧
    after.indexer.seen = headers course ∧
    after.database.store = recordAll extract tree includePaths before.database.store (records course)
  answers : after.channels =
    before.jobs.foldl (fun channels job => channels.send job.channel .success) before.channels
  /-- what an include leads to is indexed for it once -/
  once : after.indexer.seen.Nodup
  reached : ∀ path, path ∈ after.indexer.seen ↔ ∃ source ∈ before.jobs.map IndexJob.path,
    Relation.TransGen (Includes extract tree includePaths) source path
  counted : after.indexer.indexed = after.indexer.seen.length
  /-- rows of files are added for exactly the files that are concerned and had none -/
  files : ∃ new, after.database.store.files = before.database.store.files ++ new ∧
    (new.map File.path).Nodup ∧
    ∀ path, path ∈ new.map File.path ↔
      Concerns extract tree includePaths (before.jobs.map IndexJob.path) path ∧
      before.database.store.fileAt? path = none
  /-- a file that is concerned has a row for each file that it includes, and for each symbol -/
  rows : ∀ path, Concerns extract tree includePaths (before.jobs.map IndexJob.path) path →
    ∃ file, after.database.store.idOf? path = some file ∧
      Ascending.Lists ((after.database.store.rowsOf file).1.map IncludeRow.included)
        {id | ∃ included, Includes extract tree includePaths path included ∧
          after.database.store.idOf? included = some id} ∧
      (after.database.store.rowsOf file).2 =
        (foundAt extract tree path).symbols.map fun found => (found.symbol file).row
  /-- the rows of all other files are as before -/
  others : ∀ file, (∀ path, Concerns extract tree includePaths (before.jobs.map IndexJob.path) path →
      after.database.store.idOf? path ≠ some file) →
    after.database.store.rowsOf file = before.database.store.rowsOf file
  beside : before.database.store.SameBeside after.database.store

/-- The jobs of a run with a new indexer: what they go through, and what is recorded. -/
theorem runJobs_records {bench : Bench} (hdb : bench.database.refuses = false)
    (hsound : bench.database.store.FilesSound) (hfresh : bench.indexer = {})
    (hfits : ∀ job ∈ bench.jobs, job.Fits tree includePaths)
    (hrows : ∀ job ∈ bench.jobs, bench.database.store.idOf? job.path = some job.file) :
    ∃ course database, Course extract tree includePaths [] course ∧
      course.map Prod.fst = bench.jobs.map IndexJob.path ∧
      database.store = recordAll extract tree includePaths bench.database.store (records course) ∧
      bench.runJobs extract tree = { bench with
        jobs := []
        database
        indexer := ⟨headers course, (headers course).length⟩
        channels := bench.jobs.foldl (fun channels job => channels.send job.channel .success)
          bench.channels } := by
  obtain ⟨course, database, hcourse, hsources, hstore, hruns⟩ :=
    foldl_runJob bench.jobs { bench with jobs := [] } hdb hfits hsound hrows
  rw [hfresh] at hcourse
  refine ⟨course, database, hcourse, hsources, hstore, hruns.trans ?_⟩
  rw [hfresh]
  simp [afterSweep]

theorem rows_of_recorded {paths : List String} {before after : Store} {path : String}
    (h : Recorded extract tree includePaths paths before after) (hpath : path ∈ paths) :
    ∃ file, after.idOf? path = some file ∧
      Ascending.Lists ((after.rowsOf file).1.map IncludeRow.included)
        {id | ∃ included, Includes extract tree includePaths path included ∧
          after.idOf? included = some id} ∧
      (after.rowsOf file).2 =
        (foundAt extract tree path).symbols.map fun found => (found.symbol file).row := by
  obtain ⟨file, hfile, htold⟩ := h.rows path hpath
  refine ⟨file, hfile, ?_, by rw [htold]; rfl⟩
  rw [htold]
  simp only [told, List.map_map, Function.comp_def, List.map_id']
  exact (Ascending.lists_ofList _).congr fun id => List.mem_filterMap

/-- What a course records is what its sources concern, so it records all that its files include. -/
theorem mem_records_iff_concerns {course : List (String × List String)} {jobs : List IndexJob}
    (hcourse : Course extract tree includePaths [] course)
    (hsources : course.map Prod.fst = jobs.map IndexJob.path) :
    (∀ path, path ∈ records course ↔
      Concerns extract tree includePaths (jobs.map IndexJob.path) path) ∧
    ∀ path ∈ records course, ∀ included ∈ includesOf extract tree includePaths path,
      included ∈ records course := by
  have hconcerns : ∀ path, path ∈ records course ↔
      Concerns extract tree includePaths (jobs.map IndexJob.path) path := fun path => by
    rw [hcourse.mem_records_iff, hsources]
  refine ⟨hconcerns, fun path hpath included hincluded => ?_⟩
  exact (hconcerns included).mpr (((hconcerns path).mp hpath).includes hincluded)

theorem indexed_runJobs {bench : Bench} (hdb : bench.database.refuses = false)
    (hsound : bench.database.store.FilesSound) (hfresh : bench.indexer = {})
    (hfits : ∀ job ∈ bench.jobs, job.Fits tree includePaths)
    (hrows : ∀ job ∈ bench.jobs, bench.database.store.idOf? job.path = some job.file) :
    Indexed extract tree includePaths bench (bench.runJobs extract tree) := by
  obtain ⟨course, database, hcourse, hsources, hstore, hruns⟩ :=
    runJobs_records hdb hsound hfresh hfits hrows
  obtain ⟨hconcerns, hclosed⟩ := mem_records_iff_concerns hcourse hsources
  have hrecorded := @recorded_recordAll extract tree includePaths _ hsound (records course)
  rw [← hstore] at hrecorded
  rw [hruns]
  refine ⟨⟨course, hcourse, hsources, rfl, hstore⟩, rfl, hcourse.nodup.1, fun path => ?_, rfl, ?_,
    fun path hpath => rows_of_recorded hrecorded ((hconcerns path).mpr hpath),
    fun file hfile => hrecorded.others file fun path hpath =>
      hfile path ((hconcerns path).mp hpath), hrecorded.beside⟩
  · rw [hcourse.mem_headers_iff, hsources]
  · obtain ⟨fresh, hnodup, hmem, hfiles, -⟩ := hrecorded.adds_of_closed hclosed
    refine ⟨_, hfiles, by rwa [Store.map_path_numbered], fun path => ?_⟩
    rw [Store.map_path_numbered, hmem, hconcerns]

/-- Jobs that run in another order leave the same tables, up to the identities that the new files
get. -/
theorem relabels_runJobs {bench : Bench} {order : List IndexJob}
    (hdb : bench.database.refuses = false) (hsound : bench.database.store.FilesSound)
    (hknown : bench.database.store.IncludesKnown) (hfresh : bench.indexer = {})
    (hfits : ∀ job ∈ bench.jobs, job.Fits tree includePaths)
    (hrows : ∀ job ∈ bench.jobs, bench.database.store.idOf? job.path = some job.file)
    (horder : order.Perm bench.jobs) :
    ∃ π : Equiv.Perm Int, (∀ id, id < bench.database.store.nextFile → π id = id) ∧
      Store.Relabels π (bench.runJobs extract tree).database.store
        ({ bench with jobs := order }.runJobs extract tree).database.store := by
  obtain ⟨course, database, hcourse, hsources, hstore, hruns⟩ :=
    @runJobs_records extract tree includePaths bench hdb hsound hfresh hfits hrows
  obtain ⟨course', database', hcourse', hsources', hstore', hruns'⟩ :=
    @runJobs_records extract tree includePaths { bench with jobs := order } hdb hsound hfresh
      (fun job hjob => hfits job (horder.mem_iff.mp hjob))
      (fun job hjob => hrows job (horder.mem_iff.mp hjob))
  obtain ⟨hconcerns, hclosed⟩ := mem_records_iff_concerns hcourse hsources
  obtain ⟨hconcerns', -⟩ := mem_records_iff_concerns hcourse' hsources'
  have hsame : ∀ path, path ∈ records course ↔ path ∈ records course' := fun path => by
    rw [hconcerns, hconcerns']
    simp only [Concerns, (horder.map IndexJob.path).mem_iff]
  rw [hruns, hruns', hstore, hstore']
  exact (recorded_recordAll hsound _).relabels hsound hknown (recorded_recordAll hsound _) hsame
    hclosed

/-- Index jobs that run one after the other, in any order, with a new indexer and the same include
directories: they come to an end, and record exactly the files that their sources include, directly
or through others, each header once. The order decides only how the new files are numbered. A
source that cannot be read fails, and changes nothing else. -/
theorem runJobs_index_closure {bench : Bench} (hdb : bench.database.refuses = false)
    (hsound : bench.database.store.FilesSound) (hfresh : bench.indexer = {})
    (hfits : ∀ job ∈ bench.jobs, job.Fits tree includePaths)
    (hrows : ∀ job ∈ bench.jobs, bench.database.store.idOf? job.path = some job.file) :
    Indexed extract tree includePaths bench (bench.runJobs extract tree) ∧
    (bench.database.store.IncludesKnown →
      (bench.runJobs extract tree).database.store.IncludesKnown ∧
      ∀ order : List IndexJob, order.Perm bench.jobs →
        ∃ π : Equiv.Perm Int, (∀ id, id < bench.database.store.nextFile → π id = id) ∧
          Store.Relabels π (bench.runJobs extract tree).database.store
            ({ bench with jobs := order }.runJobs extract tree).database.store) ∧
    ∀ (now : Bench) (job : IndexJob), tree.read? job.path = none →
      now.runJob extract tree job =
        { now with channels := now.channels.send job.channel .fail } := by
  have hindexed := @indexed_runJobs extract tree includePaths bench hdb hsound hfresh hfits hrows
  refine ⟨hindexed, fun hknown => ⟨?_, fun order horder => ?_⟩,
    fun now job hjob => runJob_of_unreadable hjob now⟩
  · obtain ⟨course, -, -, -, hstore⟩ := hindexed.course
    rw [hstore]
    exact (recorded_recordAll hsound _).includesKnown hsound hknown
  · exact relabels_runJobs hdb hsound hknown hfresh hfits hrows horder

/-- Two sources, and two headers that include each other. -/
def ringTree : FileTree where
  root := .directory [("p", .directory [
    ("a.c", .file "#include \"x.h\"\n".toUTF8),
    ("b.c", .file "#include \"y.h\"\n".toUTF8),
    ("x.h", .file "#include \"y.h\"\n".toUTF8),
    ("y.h", .file "#include \"x.h\"\nint g(void);\n".toUTF8)])]
  workingDirectory := "/"

/-- The sources have their rows, and one of them a row of an earlier run. -/
def ringBench : Bench where
  database := .ofStore
    { files := [⟨1, "/p/a.c", some "c"⟩, ⟨2, "/p/b.c", some "c"⟩]
      nextFile := 3
      includes := [⟨1, 2⟩] }
  channels := [.waiting, .waiting]
  jobs := [⟨0, 1, "/p/a.c", []⟩, ⟨1, 2, "/p/b.c", []⟩]

theorem runJobs_index_closure_ring :
    (∀ job ∈ ringBench.jobs, job.Fits ringTree []) ∧
    Indexed Source.extract ringTree [] ringBench (ringBench.runJobs Source.extract ringTree) ∧
    (ringBench.runJobs Source.extract ringTree).indexer.indexed = 2 ∧
    (∃ π : Equiv.Perm Int, (∀ id, id < 3 → π id = id) ∧
      Store.Relabels π (ringBench.runJobs Source.extract ringTree).database.store
        ({ ringBench with
          jobs := ringBench.jobs.reverse }.runJobs Source.extract ringTree).database.store) := by
  have hfits : ∀ job ∈ ringBench.jobs, job.Fits ringTree [] := by
    intro job hjob
    rcases List.mem_pair.mp hjob with rfl | rfl
    · exact ⟨⟨⟨by decide, by decide⟩, by decide⟩, rfl⟩
    · exact ⟨⟨⟨by decide, by decide⟩, by decide⟩, rfl⟩
  have hsound : ringBench.database.store.FilesSound := ⟨by decide, by decide, by decide⟩
  have hknown : ringBench.database.store.IncludesKnown := by unfold Store.IncludesKnown; decide
  obtain ⟨hindexed, horder, -⟩ :=
    @runJobs_index_closure Source.extract ringTree [] ringBench rfl hsound rfl hfits (by decide)
  have hsingle : ∀ {path included}, includesOf Source.extract ringTree [] path = [included] →
      ∀ other, Includes Source.extract ringTree [] path other ↔ other = included := by
    intro path included h other
    rw [Includes, h, List.mem_singleton]
  have ha := @hsingle "/p/a.c" "/p/x.h" (by decide +kernel)
  have hb := @hsingle "/p/b.c" "/p/y.h" (by decide +kernel)
  have hx := @hsingle "/p/x.h" "/p/y.h" (by decide +kernel)
  have hy := @hsingle "/p/y.h" "/p/x.h" (by decide +kernel)
  have hseen : ∀ path, path ∈ (ringBench.runJobs Source.extract ringTree).indexer.seen ↔
      path ∈ ["/p/x.h", "/p/y.h"] := by
    intro path
    rw [hindexed.reached, List.mem_pair]
    constructor
    · rintro ⟨source, hsource, hreach⟩
      induction hreach with
      | single hstep =>
        rcases List.mem_pair.mp hsource with rfl | rfl
        · exact .inl ((ha _).mp hstep)
        · exact .inr ((hb _).mp hstep)
      | tail _ hstep ih =>
        rcases ih with rfl | rfl
        · exact .inr ((hx _).mp hstep)
        · exact .inl ((hy _).mp hstep)
    · rintro (rfl | rfl)
      · exact ⟨"/p/a.c", by decide, .single ((ha _).mpr rfl)⟩
      · exact ⟨"/p/b.c", by decide, .single ((hb _).mpr rfl)⟩
  have hperm := (List.perm_ext_iff_of_nodup hindexed.once (by decide)).mpr hseen
  exact ⟨hfits, hindexed, hindexed.counted.trans hperm.length_eq,
    (horder hknown).2 _ (List.reverse_perm _)⟩

end Bench

end SymbolAtlas
