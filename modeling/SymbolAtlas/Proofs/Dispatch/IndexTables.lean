import SymbolAtlas.Dispatch.Indexer
import SymbolAtlas.Proofs.Ascending
import SymbolAtlas.Proofs.Store.Files

/-!
# What the tables say about indexed files

To index a file is to record it (`Indexer.recordPath`): it gets a row, and so does every file that
it includes; what the tables said about it is replaced.

- **One file** (`recordPath_spec`): afterwards the tables say of it what is found in it
  (`Indexer.told`), and say of all others what they said before.
- **Many files** (`recorded_recordAll`): the same of each file that was recorded, however often and
  in whatever order, since what is found in a file does not change.
- **Order** (`Recorded.relabels`): so the order decides only which identities the new files get.
-/

namespace SymbolAtlas

namespace Store

/-- What the tables say about a file: the rows of its includes and those of its symbols. -/
def rowsOf (store : Store) (file : Int) : List IncludeRow × List SymbolRow :=
  (store.includes.filter fun row => row.includer = file,
    store.symbols.filter fun row => row.file = file)

/-- Files that are included have, or had, a row. -/
def IncludesKnown (store : Store) : Prop :=
  ∀ row ∈ store.includes, row.included < store.nextFile

/-- Only the tables that an index job writes differ. -/
def SameBeside (before after : Store) : Prop :=
  ∃ files includes symbols nextFile,
    after = { before with files, includes, symbols, nextFile }

theorem SameBeside.refl (store : Store) : SameBeside store store := ⟨_, _, _, _, rfl⟩

theorem SameBeside.trans {before between after : Store} (h : SameBeside before between)
    (h' : SameBeside between after) : SameBeside before after := by
  obtain ⟨_, _, _, _, rfl⟩ := h
  obtain ⟨files, includes, symbols, nextFile, rfl⟩ := h'
  exact ⟨files, includes, symbols, nextFile, rfl⟩

/-- A row for a path leaves all other tables. -/
theorem internFile_frame (path : String) (store : Store) :
    SameBeside store (store.internFile path).2 ∧
    ∀ file, (store.internFile path).2.rowsOf file = store.rowsOf file := by
  unfold internFile
  split
  · exact ⟨.refl store, fun _ => rfl⟩
  · exact ⟨⟨_, _, _, _, rfl⟩, fun _ => rfl⟩

theorem internFiles_frame (paths : List String) (store : Store) :
    SameBeside store (store.internFiles paths).2 ∧
    ∀ file, (store.internFiles paths).2.rowsOf file = store.rowsOf file := by
  induction paths generalizing store with
  | nil => exact ⟨.refl store, fun _ => rfl⟩
  | cons path paths ih =>
    obtain ⟨hfirst, hrow⟩ := internFile_frame path store
    obtain ⟨hrest, hrows⟩ := ih (store.internFile path).2
    exact ⟨hfirst.trans hrest, fun file => (hrows file).trans (hrow file)⟩

end Store

namespace Indexer

variable (extract : Extractor) (tree : FileTree) (includePaths : List String)

/-! ## What is found in a file -/

/-- What is found in the file at a path; nothing if there is none. -/
def foundAt (path : String) : Source.Extraction :=
  match tree.read? path with
  | some bytes => extract (Text.decodeLossy bytes)
  | none => .empty

/-- The files that the file at a path includes, in order. -/
def includesOf (path : String) : List String :=
  includedFiles tree includePaths path (foundAt extract tree path)

/-- The rows that say what is found in the file at a path, which has the given identity: each file
that it includes once, and each symbol as often as it is found. -/
def told (store : Store) (path : String) (file : Int) : List IncludeRow × List SymbolRow :=
  ((Ascending.ofList ((includesOf extract tree includePaths path).filterMap store.idOf?)).map
      fun included => ⟨file, included⟩,
    (foundAt extract tree path).symbols.map fun found => (found.symbol file).row)

/-- Record the file at a path under its row. -/
def recordPath (store : Store) (path : String) : Store :=
  let (file, store) := store.internFile path
  recordFile file.id (includesOf extract tree includePaths path) (foundAt extract tree path).symbols
    store

/-- Record the files at several paths, one after the other. -/
def recordAll (store : Store) (paths : List String) : Store :=
  paths.foldl (recordPath extract tree includePaths) store

variable {extract tree includePaths} {store : Store} {path : String}

theorem recordPath_of_idOf? {file : Int} (h : store.idOf? path = some file) :
    recordPath extract tree includePaths store path =
      recordFile file (includesOf extract tree includePaths path)
        (foundAt extract tree path).symbols store := by
  obtain ⟨row, hrow, rfl⟩ := Option.map_eq_some_iff.mp h
  simp [recordPath, Store.internFile, hrow]

/-! ## One file -/

/-- Rows of a key were replaced, all others left. -/
theorem filter_replaced {ρ : Type} (key : ρ → Int) {file : Int} {new : List ρ}
    (hnew : ∀ row ∈ new, key row = file) (table : List ρ) (other : Int) :
    ((table.filter fun row => key row ≠ file) ++ new).filter (fun row => key row = other) =
      if other = file then new else table.filter fun row => key row = other := by
  rw [List.filter_append, List.filter_filter]
  by_cases hother : other = file
  · subst hother
    have hold : table.filter (fun row => decide (key row = other) && decide (key row ≠ other)) =
        [] := List.filter_eq_nil_iff.mpr (by simp)
    rw [if_pos rfl, hold, List.nil_append, List.filter_eq_self.mpr (by simpa using hnew)]
  · have hnone : new.filter (fun row => key row = other) = [] :=
      List.filter_eq_nil_iff.mpr fun row hrow => by simpa [hnew row hrow] using Ne.symm hother
    rw [if_neg hother, hnone, List.append_nil]
    refine List.filter_congr fun row _ => ?_
    by_cases hrow : key row = other
    · simp [hrow, hother]
    · simp [hrow]

theorem rowsOf_replaced (store : Store) (file other : Int) (included : List Int)
    (symbols : List Symbol) :
    ((store.replaceIncludes file included).replaceSymbols file symbols).rowsOf other =
      if other = file then
        ((Ascending.ofList included).map fun included => ⟨file, included⟩,
          symbols.map fun symbol => { symbol.row with file })
      else store.rowsOf other := by
  simp only [Store.rowsOf, Store.replaceSymbols, Store.replaceIncludes]
  rw [filter_replaced IncludeRow.includer (by simp), filter_replaced SymbolRow.file (by simp)]
  split <;> rfl

theorem recordFile_spec (file : Int) (included : List String) (symbols : List Source.Found)
    (store : Store) :
    (∀ other, (recordFile file included symbols store).rowsOf other =
      if other = file then
        ((Ascending.ofList
            (included.filterMap (recordFile file included symbols store).idOf?)).map fun included =>
          ⟨file, included⟩, symbols.map fun found => (found.symbol file).row)
      else store.rowsOf other) ∧
    Store.Adds included store (recordFile file included symbols store) ∧
    store.SameBeside (recordFile file included symbols store) := by
  obtain ⟨hsame, hrows⟩ := Store.internFiles_frame included store
  refine ⟨fun other => ?_, Store.adds_internFiles included store, hsame.trans ⟨_, _, _, _, rfl⟩⟩
  have hids : (store.internFiles included).1.map File.id =
      included.filterMap (recordFile file included symbols store).idOf? :=
    Store.filterMap_idOf?_internFiles included store
  rw [← hrows other, ← hids]
  exact (rowsOf_replaced _ file other _ _).trans (by rw [List.map_map]; rfl)

variable (extract tree includePaths) in
theorem recordPath_spec (store : Store) (path : String) :
    ∃ file, (recordPath extract tree includePaths store path).idOf? path = some file ∧
      (recordPath extract tree includePaths store path).rowsOf file =
        told extract tree includePaths (recordPath extract tree includePaths store path) path file ∧
      (∀ other, other ≠ file →
        (recordPath extract tree includePaths store path).rowsOf other = store.rowsOf other) ∧
      Store.Adds (path :: includesOf extract tree includePaths path) store
        (recordPath extract tree includePaths store path) ∧
      store.SameBeside (recordPath extract tree includePaths store path) := by
  obtain ⟨hsame, hrows⟩ := Store.internFile_frame path store
  obtain ⟨hrecorded, hadds, hsame'⟩ := recordFile_spec (store.internFile path).1.id
    (includesOf extract tree includePaths path) (foundAt extract tree path).symbols
    (store.internFile path).2
  refine ⟨(store.internFile path).1.id, ?_, ?_, fun other hother => ?_,
    (Store.adds_internFile path store).trans hadds, hsame.trans hsame'⟩
  · exact hadds.idOf?_of_some (Store.idOf?_of_fileAt? (Store.fileAt?_internFile path store))
  · exact (hrecorded _).trans (if_pos rfl)
  · exact (hrecorded other).trans ((if_neg hother).trans (hrows other))

/-! ## Many files -/

variable (extract tree includePaths) in
/-- The files at these paths were recorded, some perhaps several times: each of them has the rows
that say what is found in it, and nothing else was written. -/
structure Recorded (paths : List String) (before after : Store) : Prop where
  adds : Store.Adds (paths.flatMap fun path => path :: includesOf extract tree includePaths path)
    before after
  rows : ∀ path ∈ paths, ∃ file, after.idOf? path = some file ∧
    after.rowsOf file = told extract tree includePaths after path file
  others : ∀ file, (∀ path ∈ paths, after.idOf? path ≠ some file) →
    after.rowsOf file = before.rowsOf file
  beside : before.SameBeside after

/-- Where each file was recorded with all that it includes, rows are added for no other files. -/
theorem Recorded.adds_of_closed {paths : List String} {before after : Store}
    (h : Recorded extract tree includePaths paths before after)
    (hclosed : ∀ path ∈ paths, ∀ included ∈ includesOf extract tree includePaths path,
      included ∈ paths) :
    Store.Adds paths before after := by
  refine h.adds.congr fun path => ?_
  simp only [List.mem_flatMap, List.mem_cons]
  constructor
  · rintro ⟨includer, hincluder, rfl | hincluded⟩
    · exact hincluder
    · exact hclosed includer hincluder path hincluded
  · exact fun hpath => ⟨path, hpath, .inl rfl⟩

/-- What is said about a file stays the same when rows of files are added. -/
theorem told_of_adds {between after : Store} {paths : List String}
    (h : Store.Adds paths between after)
    (hknown : ∀ included ∈ includesOf extract tree includePaths path,
      ∃ file, between.idOf? included = some file) (file : Int) :
    told extract tree includePaths between path file =
      told extract tree includePaths after path file := by
  have hids : (includesOf extract tree includePaths path).filterMap between.idOf? =
      (includesOf extract tree includePaths path).filterMap after.idOf? :=
    List.filterMap_congr fun included hincluded => by
      obtain ⟨id, hid⟩ := hknown included hincluded
      rw [hid, h.idOf?_of_some hid]
  rw [told, told, hids]

theorem recorded_recordAll (hsound : store.FilesSound) (paths : List String) :
    Recorded extract tree includePaths paths store
      (recordAll extract tree includePaths store paths) := by
  induction paths generalizing store with
  | nil => exact ⟨.refl store, by simp, fun _ _ => rfl, .refl store⟩
  | cons path rest ih =>
    obtain ⟨file, hfile, htold, hothers, hadds, hbeside⟩ :=
      recordPath_spec extract tree includePaths store path
    have ih := ih (hadds.sound hsound)
    have hafter := ih.adds.sound (hadds.sound hsound)
    have hstays := ih.adds.idOf?_of_some hfile
    refine ⟨hadds.trans ih.adds, fun p hp => ?_, fun other hother => ?_, hbeside.trans ih.beside⟩
    · by_cases hrest : p ∈ rest
      · exact ih.rows p hrest
      · -- the file is not recorded again, and its rows are its own
        obtain rfl : p = path := (List.mem_cons.mp hp).resolve_right hrest
        refine ⟨file, hstays, ?_⟩
        have hlater := ih.others file fun q hq hid => hrest (hafter.eq_of_idOf? hid hstays ▸ hq)
        have hknown : ∀ included ∈ includesOf extract tree includePaths p, ∃ file,
            (recordPath extract tree includePaths store p).idOf? included = some file :=
          fun included hincluded => hadds.exists_idOf? (.tail _ hincluded)
        exact (hlater.trans htold).trans (told_of_adds ih.adds hknown file)
    · have hne : other ≠ file := by
        rintro rfl
        exact hother path (.head _) hstays
      exact (ih.others other fun q hq => hother q (.tail _ hq)).trans (hothers other hne)

/-- Only files with a row are recorded as included. -/
theorem Recorded.includesKnown {paths : List String} {before after : Store}
    (h : Recorded extract tree includePaths paths before after) (hsound : before.FilesSound)
    (hknown : before.IncludesKnown) : after.IncludesKnown := by
  intro row hrow
  have hrow : row ∈ (after.rowsOf row.includer).1 := List.mem_filter.mpr ⟨hrow, by simp⟩
  by_cases hpath : ∃ path ∈ paths, after.idOf? path = some row.includer
  · obtain ⟨path, hpath, hid⟩ := hpath
    obtain ⟨file, hfile, hrows⟩ := h.rows path hpath
    obtain rfl : row.includer = file := Option.some.inj (hid.symm.trans hfile)
    simp only [hrows, told, List.mem_map, Ascending.mem_ofList, List.mem_filterMap] at hrow
    obtain ⟨id, ⟨included, -, hincluded⟩, hid⟩ := hrow
    rw [← hid]
    exact (h.adds.sound hsound).idOf?_lt hincluded
  · simp only [not_exists, not_and] at hpath
    rw [h.others _ hpath] at hrow
    exact lt_of_lt_of_le (hknown row (List.mem_of_mem_filter hrow)) h.adds.nextFile_le

/-! ## Order -/

theorem perm_of_filter_perm {ρ : Type} [DecidableEq ρ] (key : ρ → Int) {table table' : List ρ}
    (h : ∀ file, (table.filter fun row => key row = file).Perm
      (table'.filter fun row => key row = file)) : table.Perm table' := by
  refine List.perm_iff_count.mpr fun row => ?_
  have hcount : ∀ rows : List ρ, rows.count row =
      (rows.filter fun other => key other = key row).count row := fun rows => by
    rw [List.count_filter (by simp)]
  rw [hcount table, hcount table', (h (key row)).count_eq]

/-- The rows of a file in a table with other identities are its rows with other identities. -/
theorem filter_map_relabel {ρ : Type} (key : ρ → Int) (relabel : ρ → ρ) (π : Equiv.Perm Int)
    (hkey : ∀ row, key (relabel row) = π (key row)) (table : List ρ) (file : Int) :
    (table.map relabel).filter (fun row => key row = π file) =
      (table.filter fun row => key row = file).map relabel := by
  rw [List.filter_map]
  refine congrArg _ (List.filter_congr fun row _ => ?_)
  simp [hkey]

theorem perm_ofList_map (π : Equiv.Perm Int) (xs : List Int) :
    ((Ascending.ofList xs).map π).Perm (Ascending.ofList (xs.map π)) := by
  have hnodup : ∀ ys : List Int, (Ascending.ofList ys).Nodup := fun ys =>
    (Ascending.ascending_ofList ys).imp fun h => h.ne
  refine (List.perm_ext_iff_of_nodup ((hnodup xs).map π.injective) (hnodup _)).mpr fun x => ?_
  simp

end Indexer

/-- The row with other identities. -/
def IncludeRow.relabel (π : Int → Int) (row : IncludeRow) : IncludeRow :=
  ⟨π row.includer, π row.included⟩

/-- The row with another identity of its file. -/
def SymbolRow.relabel (π : Int → Int) (row : SymbolRow) : SymbolRow :=
  { row with file := π row.file }

/-- Up to the order of their rows, the tables are the same after a change of the identities of
files. -/
structure Store.Relabels (π : Int → Int) (source target : Store) : Prop where
  files : (source.files.map (File.relabel π)).Perm target.files
  includes : (source.includes.map (IncludeRow.relabel π)).Perm target.includes
  symbols : (source.symbols.map (SymbolRow.relabel π)).Perm target.symbols

namespace Indexer

variable {extract : Extractor} {tree : FileTree} {includePaths : List String}
  {store source target : Store}
  {paths : List String}

/-- What is said about one file in both tables. -/
theorem told_relabel {π : Equiv.Perm Int}
    (hmoves : ∀ path id, source.idOf? path = some id → target.idOf? path = some (π id))
    {path : String} (hknown : ∀ included ∈ includesOf extract tree includePaths path,
      ∃ file, source.idOf? included = some file) (file : Int) :
    ((told extract tree includePaths source path file).1.map (IncludeRow.relabel π)).Perm
      (told extract tree includePaths target path (π file)).1 ∧
    (told extract tree includePaths source path file).2.map (SymbolRow.relabel π) =
      (told extract tree includePaths target path (π file)).2 := by
  have hids : (includesOf extract tree includePaths path).filterMap target.idOf? =
      ((includesOf extract tree includePaths path).filterMap source.idOf?).map π := by
    rw [List.map_filterMap]
    refine List.filterMap_congr fun included hincluded => ?_
    obtain ⟨id, hid⟩ := hknown included hincluded
    rw [hmoves included id hid, hid, Option.map_some]
  constructor
  · simp only [told, hids, List.map_map]
    have hperm := (perm_ofList_map π ((includesOf extract tree includePaths path).filterMap
      source.idOf?)).map fun included => (⟨π file, included⟩ : IncludeRow)
    rwa [List.map_map] at hperm
  · simp only [told, List.map_map]
    rfl

/-- Rows that name only identities which stay. -/
theorem rowsOf_relabel_self {π : Int → Int} {file : Int} (hfile : π file = file)
    (hincluded : ∀ row ∈ store.includes, π row.included = row.included) :
    (store.rowsOf file).1.map (IncludeRow.relabel π) = (store.rowsOf file).1 ∧
    (store.rowsOf file).2.map (SymbolRow.relabel π) = (store.rowsOf file).2 := by
  constructor
  · refine (List.map_congr_left fun row hrow => ?_).trans (List.map_id _)
    obtain ⟨hmem, hincluder⟩ := List.mem_filter.mp hrow
    have hincluder : row.includer = file := by simpa using hincluder
    rw [IncludeRow.relabel, hincluder, hfile, ← hincluder, hincluded row hmem, id]
  · refine (List.map_congr_left fun row hrow => ?_).trans (List.map_id _)
    have hrowFile : row.file = file := by simpa using (List.mem_filter.mp hrow).2
    rw [SymbolRow.relabel, hrowFile, hfile, ← hrowFile, id]

/-- Files that were recorded in two orders, each with all that it includes: only the identities of
the files that are new can differ. -/
theorem Recorded.relabels {paths' : List String} (hsound : store.FilesSound)
    (hknown : store.IncludesKnown) (hsource : Recorded extract tree includePaths paths store source)
    (htarget : Recorded extract tree includePaths paths' store target)
    (hpaths : ∀ path, path ∈ paths ↔ path ∈ paths')
    (hclosed : ∀ path ∈ paths, ∀ included ∈ includesOf extract tree includePaths path,
      included ∈ paths) :
    ∃ π : Equiv.Perm Int, (∀ id, id < store.nextFile → π id = id) ∧
      Store.Relabels π source target := by
  have hadds := hsource.adds_of_closed hclosed
  have hadds' : Store.Adds paths store target := by
    refine (htarget.adds_of_closed fun path hpath included hincluded => ?_).congr fun path =>
      (hpaths path).symm
    exact (hpaths included).mp (hclosed path ((hpaths path).mpr hpath) included hincluded)
  obtain ⟨π, hfiles, hmoves, hold, hfixed⟩ := hadds.exists_perm hsound hadds'
  -- file by file
  have hrows : ∀ file,
      ((source.rowsOf file).1.map (IncludeRow.relabel π)).Perm (target.rowsOf (π file)).1 ∧
      (source.rowsOf file).2.map (SymbolRow.relabel π) = (target.rowsOf (π file)).2 := by
    intro file
    by_cases hfile : ∃ path ∈ paths, source.idOf? path = some file
    · obtain ⟨path, hpath, hid⟩ := hfile
      obtain ⟨id, hid', htold⟩ := hsource.rows path hpath
      obtain rfl : file = id := Option.some.inj (hid.symm.trans hid')
      obtain ⟨id, hid'', htold'⟩ := htarget.rows path ((hpaths path).mp hpath)
      obtain rfl : π file = id := Option.some.inj ((hmoves path file hid).symm.trans hid'')
      rw [htold, htold']
      exact told_relabel hmoves (fun included hincluded =>
        hadds.exists_idOf? (hclosed path hpath included hincluded)) file
    · simp only [not_exists, not_and] at hfile
      have hstays := hfixed file hfile
      -- no path has this identity in the other table either
      have hfile' : ∀ path ∈ paths', target.idOf? path ≠ some file := fun path hpath hid => by
        have hpath := (hpaths path).mpr hpath
        obtain ⟨id, hid'⟩ := hadds.exists_idOf? hpath
        have hmoved : π id = file := Option.some.inj ((hmoves path id hid').symm.trans hid)
        obtain rfl : id = file := π.injective (hmoved.trans hstays.symm)
        exact hfile path hpath hid'
      rw [hstays, hsource.others file hfile, htarget.others file hfile']
      obtain ⟨hincludes, hsymbols⟩ := @rowsOf_relabel_self store π file hstays fun row hrow =>
        hold _ (hknown row hrow)
      exact ⟨.of_eq hincludes, hsymbols⟩
  refine ⟨π, hold, hfiles, ?_, ?_⟩
  · refine perm_of_filter_perm IncludeRow.includer fun file => ?_
    obtain ⟨file, rfl⟩ := π.surjective file
    rw [filter_map_relabel IncludeRow.includer _ π fun _ => rfl]
    exact (hrows file).1
  · refine perm_of_filter_perm SymbolRow.file fun file => ?_
    obtain ⟨file, rfl⟩ := π.surjective file
    rw [filter_map_relabel SymbolRow.file _ π fun _ => rfl]
    exact .of_eq (hrows file).2

end Indexer

end SymbolAtlas
