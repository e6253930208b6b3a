import Mathlib.Data.List.Nodup
import Mathlib.Data.List.Perm.Subperm
import Mathlib.Logic.Equiv.Defs
import SymbolAtlas.Store.Files

/-!
# The table of files

A path is given a row the first time that it is asked for. Rows are never taken away by this, and
identities are given out in ascending order.

- **Soundness** (`FilesSound`): an identity and a path have one row each.
- **Growth** (`Adds`): rows were added for those of some paths that had none, numbered in turn.
  Every row stays (`Adds.fileAt?_of_some`), and the table stays sound (`Adds.sound`).
- **Numbering** (`Adds.exists_perm`): the order in which paths are asked for decides which identity
  each one gets, and nothing else: two tables that were made from one by adding the same paths are
  the same after a permutation of the identities that are new.
-/

namespace SymbolAtlas

/-- The row with another identity. -/
def File.relabel (π : Int → Int) (file : File) : File := { file with id := π file.id }

namespace Store

variable {store before between after : Store} {path : String} {paths : List String} {file : File}

/-! ## Rows and identities -/

/-- The identity of the row of a path. -/
def idOf? (store : Store) (path : String) : Option Int := (store.fileAt? path).map File.id

/-- Identities and paths are taken once, and every identity was given out. -/
structure FilesSound (store : Store) : Prop where
  ids : (store.files.map File.id).Nodup
  paths : (store.files.map File.path).Nodup
  given : ∀ file ∈ store.files, file.id < store.nextFile

theorem mem_of_fileAt? (h : store.fileAt? path = some file) :
    file ∈ store.files ∧ file.path = path :=
  ⟨List.mem_of_find?_eq_some h, by simpa using List.find?_some h⟩

theorem fileAt?_eq_none_iff : store.fileAt? path = none ↔ path ∉ store.files.map File.path := by
  simp [fileAt?]

theorem idOf?_eq_none_iff : store.idOf? path = none ↔ store.fileAt? path = none :=
  Option.map_eq_none_iff

theorem idOf?_of_fileAt? (h : store.fileAt? path = some file) :
    store.idOf? path = some file.id := by
  rw [idOf?, h, Option.map_some]

theorem exists_idOf? (h : store.fileAt? path ≠ none) : ∃ id, store.idOf? path = some id := by
  obtain ⟨file, hfile⟩ := Option.ne_none_iff_exists'.mp h
  exact ⟨file.id, idOf?_of_fileAt? hfile⟩

/-- A row is found by a key that no two rows share. -/
theorem find?_key_eq_some {κ : Type} [DecidableEq κ] {key : File → κ} {files : List File}
    (hnodup : (files.map key).Nodup) (hfile : file ∈ files) :
    files.find? (fun other => key other = key file) = some file := by
  cases hfound : files.find? fun other => key other = key file with
  | none => exact absurd (decide_eq_true rfl) (List.find?_eq_none.mp hfound file hfile)
  | some found =>
    have hkey : key found = key file := by simpa using List.find?_some hfound
    rw [List.inj_on_of_nodup_map hnodup (List.mem_of_find?_eq_some hfound) hfile hkey]

namespace FilesSound

theorem fileAt?_eq_some (h : store.FilesSound) (hfile : file ∈ store.files) :
    store.fileAt? file.path = some file :=
  find?_key_eq_some h.paths hfile

theorem file?_eq_some (h : store.FilesSound) (hfile : file ∈ store.files) :
    store.file? file.id = some file :=
  find?_key_eq_some h.ids hfile

theorem eq_of_idOf? (h : store.FilesSound) {other : String} {id : Int}
    (hpath : store.idOf? path = some id) (hother : store.idOf? other = some id) :
    path = other := by
  obtain ⟨file, hfile, rfl⟩ := Option.map_eq_some_iff.mp hpath
  obtain ⟨file', hfile', hid⟩ := Option.map_eq_some_iff.mp hother
  obtain ⟨hmem, rfl⟩ := mem_of_fileAt? hfile
  obtain ⟨hmem', rfl⟩ := mem_of_fileAt? hfile'
  rw [List.inj_on_of_nodup_map h.ids hmem' hmem hid]

theorem idOf?_lt (h : store.FilesSound) {id : Int} (hid : store.idOf? path = some id) :
    id < store.nextFile := by
  obtain ⟨file, hfile, rfl⟩ := Option.map_eq_some_iff.mp hid
  exact h.given file (mem_of_fileAt? hfile).1

end FilesSound

/-! ## Numbered rows -/

/-- Rows for paths, with identities from the given one on. -/
def numbered : Int → List String → List File
  | _, [] => []
  | next, path :: rest => ⟨next, path, Language.detect? path⟩ :: numbered (next + 1) rest

@[simp] theorem map_path_numbered (next : Int) (paths : List String) :
    (numbered next paths).map File.path = paths := by
  induction paths generalizing next with
  | nil => rfl
  | cons path rest ih => simp [numbered, ih]

theorem numbered_append (next : Int) (first second : List String) :
    numbered next (first ++ second) =
      numbered next first ++ numbered (next + first.length) second := by
  induction first generalizing next with
  | nil => simp [numbered]
  | cons path rest ih =>
    have hnext : next + 1 + (rest.length : Int) = next + ((rest.length + 1 : Nat) : Int) := by omega
    simp [numbered, ih, hnext]

theorem mem_ids_numbered {next id : Int} {paths : List String} :
    id ∈ (numbered next paths).map File.id ↔ next ≤ id ∧ id < next + paths.length := by
  induction paths generalizing next with
  | nil =>
    simp only [numbered, List.map_nil, List.not_mem_nil, List.length_nil, false_iff]
    omega
  | cons path rest ih =>
    simp only [numbered, List.map_cons, List.mem_cons, ih, List.length_cons]
    omega

theorem nodup_ids_numbered (next : Int) (paths : List String) :
    ((numbered next paths).map File.id).Nodup := by
  induction paths generalizing next with
  | nil => exact .nil
  | cons path rest ih =>
    refine List.nodup_cons.mpr ⟨fun hnext => ?_, ih (next + 1)⟩
    have hle : next + 1 ≤ next := (mem_ids_numbered.mp hnext).1
    omega

theorem language_of_mem_numbered {next : Int} (h : file ∈ numbered next paths) :
    file.language = Language.detect? file.path := by
  induction paths generalizing next with
  | nil => cases h
  | cons path rest ih =>
    rcases List.mem_cons.mp h with rfl | h
    · rfl
    · exact ih h

/-! ## Growth -/

/-- Rows were added, in some order, for those of the paths that had none. -/
def Adds (paths : List String) (before after : Store) : Prop :=
  ∃ fresh : List String, fresh.Nodup ∧
    (∀ path, path ∈ fresh ↔ path ∈ paths ∧ before.fileAt? path = none) ∧
    after.files = before.files ++ numbered before.nextFile fresh ∧
    after.nextFile = before.nextFile + fresh.length

namespace Adds

theorem refl (store : Store) : Adds [] store store :=
  ⟨[], .nil, by simp, by simp [numbered], by simp⟩

theorem congr {paths' : List String} (h : Adds paths before after)
    (hpaths : ∀ path, path ∈ paths ↔ path ∈ paths') : Adds paths' before after := by
  obtain ⟨fresh, hnodup, hfresh, hfiles, hnext⟩ := h
  exact ⟨fresh, hnodup, fun path => by rw [hfresh, hpaths], hfiles, hnext⟩

theorem fileAt?_of_some (h : Adds paths before after) (hfile : before.fileAt? path = some file) :
    after.fileAt? path = some file := by
  obtain ⟨fresh, -, -, hfiles, -⟩ := h
  rw [fileAt?] at hfile ⊢
  rw [hfiles, List.find?_append, hfile, Option.some_or]

theorem idOf?_of_some (h : Adds paths before after) {id : Int}
    (hid : before.idOf? path = some id) : after.idOf? path = some id := by
  obtain ⟨file, hfile, rfl⟩ := Option.map_eq_some_iff.mp hid
  exact idOf?_of_fileAt? (h.fileAt?_of_some hfile)

theorem fileAt?_eq_none_iff (h : Adds paths before after) :
    after.fileAt? path = none ↔ before.fileAt? path = none ∧ path ∉ paths := by
  obtain ⟨fresh, -, hfresh, hfiles, -⟩ := h
  rw [Store.fileAt?_eq_none_iff, hfiles, List.map_append, map_path_numbered, List.mem_append,
    hfresh, Store.fileAt?_eq_none_iff]
  tauto

/-- A row was there before, or is new and has one of the paths. -/
theorem mem_files_cases (h : Adds paths before after) (hfile : file ∈ after.files) :
    file ∈ before.files ∨
      (file.path ∈ paths ∧ before.fileAt? file.path = none ∧ before.nextFile ≤ file.id ∧
        file.language = Language.detect? file.path) := by
  obtain ⟨fresh, -, hfresh, hfiles, -⟩ := h
  rw [hfiles, List.mem_append] at hfile
  refine hfile.imp_right fun hfile => ?_
  have hpath : file.path ∈ fresh := by
    rw [← map_path_numbered before.nextFile fresh]
    exact List.mem_map_of_mem hfile
  obtain ⟨hasked, hnone⟩ := (hfresh file.path).mp hpath
  exact ⟨hasked, hnone, (mem_ids_numbered.mp (List.mem_map_of_mem hfile)).1,
    language_of_mem_numbered hfile⟩

theorem exists_idOf? (h : Adds paths before after) (hpath : path ∈ paths) :
    ∃ id, after.idOf? path = some id :=
  Store.exists_idOf? fun hnone => (h.fileAt?_eq_none_iff.mp hnone).2 hpath

theorem trans {paths' : List String} (h : Adds paths before between)
    (h' : Adds paths' between after) : Adds (paths ++ paths') before after := by
  have hnone : ∀ path, between.fileAt? path = none ↔ before.fileAt? path = none ∧ path ∉ paths :=
    fun _ => h.fileAt?_eq_none_iff
  obtain ⟨fresh, hnodup, hfresh, hfiles, hnext⟩ := h
  obtain ⟨fresh', hnodup', hfresh', hfiles', hnext'⟩ := h'
  refine ⟨fresh ++ fresh', List.nodup_append'.mpr ⟨hnodup, hnodup', fun path hpath hpath' => ?_⟩,
    fun path => ?_, ?_, ?_⟩
  · exact ((hnone path).mp ((hfresh' path).mp hpath').2).2 ((hfresh path).mp hpath).1
  · rw [List.mem_append, List.mem_append, hfresh, hfresh', hnone]
    tauto
  · rw [hfiles', hfiles, hnext, numbered_append, List.append_assoc]
  · rw [hnext', hnext, List.length_append]
    omega

theorem sound (h : Adds paths before after) (hsound : before.FilesSound) : after.FilesSound := by
  obtain ⟨fresh, hnodup, hfresh, hfiles, hnext⟩ := h
  refine ⟨?_, ?_, fun file hfile => ?_⟩
  · rw [hfiles, List.map_append]
    refine List.nodup_append'.mpr ⟨hsound.ids, nodup_ids_numbered _ _, fun id hid hid' => ?_⟩
    obtain ⟨file, hfile, rfl⟩ := List.mem_map.mp hid
    exact Int.not_lt.mpr (mem_ids_numbered.mp hid').1 (hsound.given file hfile)
  · rw [hfiles, List.map_append, map_path_numbered]
    refine List.nodup_append'.mpr ⟨hsound.paths, hnodup, fun path hpath hpath' => ?_⟩
    exact Store.fileAt?_eq_none_iff.mp ((hfresh path).mp hpath').2 hpath
  · rw [hfiles, List.mem_append] at hfile
    rw [hnext]
    rcases hfile with hfile | hfile
    · have := hsound.given file hfile
      omega
    · exact (mem_ids_numbered.mp (List.mem_map_of_mem hfile)).2

theorem nextFile_le (h : Adds paths before after) : before.nextFile ≤ after.nextFile := by
  obtain ⟨fresh, -, -, -, hnext⟩ := h
  omega

end Adds

theorem adds_internFile (path : String) (store : Store) :
    Adds [path] store (store.internFile path).2 := by
  unfold internFile
  cases hfile : store.fileAt? path with
  | some file =>
    refine ⟨[], .nil, fun other => ?_, by simp [numbered], by simp⟩
    simp only [List.not_mem_nil, List.mem_singleton, false_iff, not_and]
    rintro rfl
    simp [hfile]
  | none =>
    refine ⟨[path], List.nodup_singleton _, fun other => ?_, rfl, rfl⟩
    simp only [List.mem_singleton, iff_self_and]
    rintro rfl
    exact hfile

theorem fileAt?_internFile (path : String) (store : Store) :
    (store.internFile path).2.fileAt? path = some (store.internFile path).1 := by
  unfold internFile
  cases hfile : store.fileAt? path with
  | some file => exact hfile
  | none =>
    rw [fileAt?] at hfile
    simp [fileAt?, List.find?_append, hfile]

theorem adds_internFiles (paths : List String) (store : Store) :
    Adds paths store (store.internFiles paths).2 := by
  induction paths generalizing store with
  | nil => exact .refl store
  | cons path paths ih => exact (adds_internFile path store).trans (ih _)

/-- The rows that are given back are those that the paths have afterwards. -/
theorem filterMap_idOf?_internFiles (paths : List String) (store : Store) :
    (store.internFiles paths).1.map File.id =
      paths.filterMap (store.internFiles paths).2.idOf? := by
  induction paths generalizing store with
  | nil => rfl
  | cons path paths ih =>
    have hfile := (adds_internFiles paths _).fileAt?_of_some (fileAt?_internFile path store)
    simp only [internFiles, List.map_cons, List.filterMap_cons, idOf?, hfile, Option.map_some]
    exact congrArg _ (ih _)

/-! ## Numbering -/

/-- The identity in one table of what has an identity in another one. -/
def relabel (source target : Store) (id : Int) : Int :=
  match source.file? id with
  | some file => (target.idOf? file.path).getD id
  | none => id

section

variable {source target : Store}

theorem relabel_of_idOf? (hsound : source.FilesSound) {id id' : Int}
    (hsource : source.idOf? path = some id) (htarget : target.idOf? path = some id') :
    relabel source target id = id' := by
  obtain ⟨file, hfile, rfl⟩ := Option.map_eq_some_iff.mp hsource
  obtain ⟨hmem, rfl⟩ := mem_of_fileAt? hfile
  simp [relabel, hsound.file?_eq_some hmem, htarget]

theorem relabel_of_notMem {id : Int} (h : id ∉ source.files.map File.id) :
    relabel source target id = id := by
  have hnone : source.file? id = none := by
    refine List.find?_eq_none.mpr fun file hfile hid => h ?_
    exact List.mem_map.mpr ⟨file, hfile, by simpa using hid⟩
  simp [relabel, hnone]

/-- Identities of paths that both tables have, and identities that neither has, are found back. -/
theorem relabel_relabel (hsource : source.FilesSound) (htarget : target.FilesSound)
    (hpaths : ∀ path, source.fileAt? path = none ↔ target.fileAt? path = none)
    (hids : ∀ id, id ∈ source.files.map File.id ↔ id ∈ target.files.map File.id) (id : Int) :
    relabel target source (relabel source target id) = id := by
  by_cases hid : id ∈ source.files.map File.id
  · obtain ⟨file, hfile, rfl⟩ := List.mem_map.mp hid
    have hfound := hsource.fileAt?_eq_some hfile
    have hidOf := idOf?_of_fileAt? hfound
    obtain ⟨id', hid'⟩ := Store.exists_idOf? fun hnone =>
      absurd ((hpaths file.path).mpr hnone) (by simp [hfound])
    rw [relabel_of_idOf? hsource hidOf hid', relabel_of_idOf? htarget hid' hidOf]
  · rw [relabel_of_notMem hid, relabel_of_notMem fun hid' => hid ((hids id).mpr hid')]

end

/-! ### Two tables made from one -/

namespace Adds

variable {source target : Store}

/-- Every row of the one table has its row in the other. -/
theorem idOf?_relabel (hsound : store.FilesSound) (hsource : Adds paths store source)
    (htarget : Adds paths store target) {id : Int} (hid : source.idOf? path = some id) :
    target.idOf? path = some (relabel source target id) := by
  obtain ⟨id', hid'⟩ := @Store.exists_idOf? target path fun hnone => by
    rw [htarget.fileAt?_eq_none_iff, ← hsource.fileAt?_eq_none_iff, ← idOf?_eq_none_iff] at hnone
    simp [hnone] at hid
  rw [relabel_of_idOf? (hsource.sound hsound) hid hid', hid']

/-- Equally many paths are new in both tables, so the same identities are. -/
theorem ids_iff (hsource : Adds paths store source) (htarget : Adds paths store target) (id : Int) :
    id ∈ source.files.map File.id ↔ id ∈ target.files.map File.id := by
  obtain ⟨fresh, hnodup, hfresh, hfiles, -⟩ := hsource
  obtain ⟨fresh', hnodup', hfresh', hfiles', -⟩ := htarget
  have hlength : fresh.length = fresh'.length :=
    ((List.perm_ext_iff_of_nodup hnodup hnodup').mpr fun path => by
      rw [hfresh, hfresh']).length_eq
  simp only [hfiles, hfiles', List.map_append, List.mem_append, mem_ids_numbered, hlength]

theorem relabel_of_mem (hsound : store.FilesSound) (hsource : Adds paths store source)
    (htarget : Adds paths store target) (hfile : file ∈ store.files) :
    relabel source target file.id = file.id := by
  have hid := idOf?_of_fileAt? (hsound.fileAt?_eq_some hfile)
  exact relabel_of_idOf? (hsource.sound hsound) (hsource.idOf?_of_some hid)
    (htarget.idOf?_of_some hid)

/-- Identities that were given out before stay. -/
theorem relabel_of_lt (hsound : store.FilesSound) (hsource : Adds paths store source)
    (htarget : Adds paths store target) {id : Int} (hid : id < store.nextFile) :
    relabel source target id = id := by
  by_cases hmem : id ∈ source.files.map File.id
  · obtain ⟨file, hfile, rfl⟩ := List.mem_map.mp hmem
    rcases hsource.mem_files_cases hfile with hold | ⟨-, -, hnew, -⟩
    · exact hsource.relabel_of_mem hsound htarget hold
    · omega
  · exact relabel_of_notMem hmem

/-- Identities of none of the paths stay. -/
theorem relabel_of_forall_ne (hsound : store.FilesSound) (hsource : Adds paths store source)
    (htarget : Adds paths store target) {id : Int}
    (hid : ∀ path ∈ paths, source.idOf? path ≠ some id) : relabel source target id = id := by
  by_cases hmem : id ∈ source.files.map File.id
  · obtain ⟨file, hfile, rfl⟩ := List.mem_map.mp hmem
    rcases hsource.mem_files_cases hfile with hold | ⟨hasked, -⟩
    · exact hsource.relabel_of_mem hsound htarget hold
    · have hidOf := idOf?_of_fileAt? ((hsource.sound hsound).fileAt?_eq_some hfile)
      exact absurd hidOf (hid _ hasked)
  · exact relabel_of_notMem hmem

/-- A row of the one table, under its other identity, is a row of the other. -/
theorem mem_files_relabel (hsound : store.FilesSound) (hsource : Adds paths store source)
    (htarget : Adds paths store target) (hfile : file ∈ source.files) :
    file.relabel (relabel source target) ∈ target.files := by
  have hid := idOf?_of_fileAt? ((hsource.sound hsound).fileAt?_eq_some hfile)
  rcases hsource.mem_files_cases hfile with hold | ⟨-, hnone, -, hlanguage⟩
  · rw [File.relabel, hsource.relabel_of_mem hsound htarget hold]
    exact (mem_of_fileAt? (htarget.fileAt?_of_some (hsound.fileAt?_eq_some hold))).1
  · obtain ⟨row, hrow, hrowId⟩ :=
      Option.map_eq_some_iff.mp (hsource.idOf?_relabel hsound htarget hid)
    obtain ⟨hmem, hpath⟩ := mem_of_fileAt? hrow
    rcases htarget.mem_files_cases hmem with hold | ⟨-, -, -, hlanguage'⟩
    · refine absurd (hsound.fileAt?_eq_some hold) ?_
      rw [hpath, hnone]
      exact nofun
    · obtain ⟨id, path, language⟩ := row
      obtain rfl : path = file.path := hpath
      obtain rfl : language = file.language := hlanguage'.trans hlanguage.symm
      obtain rfl : id = relabel source target file.id := hrowId
      exact hmem

/-- Two tables that were made from one by adding the same paths are the same after a permutation
of identities, which leaves those that are not new. -/
theorem exists_perm (hsound : store.FilesSound) (hsource : Adds paths store source)
    (htarget : Adds paths store target) : ∃ π : Equiv.Perm Int,
      (source.files.map (File.relabel π)).Perm target.files ∧
      (∀ path id, source.idOf? path = some id → target.idOf? path = some (π id)) ∧
      (∀ id, id < store.nextFile → π id = id) ∧
      ∀ id, (∀ path ∈ paths, source.idOf? path ≠ some id) → π id = id := by
  have hs := hsource.sound hsound
  have ht := htarget.sound hsound
  have hpaths : ∀ path, source.fileAt? path = none ↔ target.fileAt? path = none := fun path => by
    rw [hsource.fileAt?_eq_none_iff, htarget.fileAt?_eq_none_iff]
  refine ⟨⟨relabel source target, relabel target source,
      relabel_relabel hs ht hpaths (hsource.ids_iff htarget),
      relabel_relabel ht hs (fun path => (hpaths path).symm) (htarget.ids_iff hsource)⟩,
    ?_, fun _ _ => hsource.idOf?_relabel hsound htarget,
    fun _ => hsource.relabel_of_lt hsound htarget,
    fun _ => hsource.relabel_of_forall_ne hsound htarget⟩
  -- no row is lost, and there are equally many
  have hnodup : (source.files.map (File.relabel (relabel source target))).Nodup := by
    refine List.Nodup.of_map File.path ?_
    simpa [Function.comp_def, File.relabel] using hs.paths
  have hsubset : source.files.map (File.relabel (relabel source target)) ⊆ target.files := by
    intro row hrow
    obtain ⟨file, hfile, rfl⟩ := List.mem_map.mp hrow
    exact hsource.mem_files_relabel hsound htarget hfile
  have hlength : target.files.length = source.files.length := by
    have hperm : (source.files.map File.id).Perm (target.files.map File.id) :=
      (List.perm_ext_iff_of_nodup hs.ids ht.ids).mpr (hsource.ids_iff htarget)
    simpa using hperm.length_eq.symm
  exact (List.subperm_of_subset hnodup hsubset).perm_of_length_le (by simp [hlength])

end Adds

end Store

end SymbolAtlas
