import SymbolAtlas.Proofs.Dispatch.Units
import SymbolAtlas.Proofs.Store.Files
import SymbolAtlas.Store.Clusters
import SymbolAtlas.Store.Symbols

/-!
# Consistent tables

What holds of the tables whatever storage calls have done to them, and what no call takes back.

- **Consistency** (`Store.Consistent`): identities of actions and of files are taken once and were
  all given out, a path has one row with the language of the path, kinds and states are known words,
  and the tables that are written by key have one row for a key.
- **Growth** (`Store.Evolves`): consistent tables stay consistent, no row of an action or a file
  goes away, an action that is parsed or skipped stays as it is, and whatever is new has an identity
  that was not given out before.
- **Calls** (`evolves_insertAction`, `evolves_moved`, `Adds.evolves` and those that follow): every
  change that a storage call makes is of this kind. So is taking changes back
  (`Evolves.restoredTo`), which leaves identities that were given out.
-/

namespace SymbolAtlas

namespace Store

variable {store before between after : Store}

/-- Identities of actions are taken once and were given out, and kinds and states are known
words. -/
structure ActionsSound (store : Store) : Prop where
  /-- the rows are in the order of their identities -/
  ascending : store.actions.Pairwise fun first later => first.id < later.id
  given : ∀ row ∈ store.actions, row.id < store.nextAction
  kinds : ∀ row ∈ store.actions, ∃ kind : ActionKind, row.kind = Worded.word kind
  states : ∀ row ∈ store.actions, ∃ state : ActionState, row.state = Worded.word state

/-- Tables that are written by key have one row for a key. -/
structure KeysOnce (store : Store) : Prop where
  statistics : (store.statistics.map fun row => (row.category, row.key)).Nodup
  repositories : (store.repositories.map Repository.path).Nodup
  notes : (store.notes.map Note.key).Nodup

/-- What holds of the tables after every storage call. -/
structure Consistent (store : Store) : Prop where
  actions : store.ActionsSound
  files : store.FilesSound
  languages : ∀ file ∈ store.files, file.language = Language.detect? file.path
  keys : store.KeysOnce

theorem consistent_empty : ({} : Store).Consistent where
  actions := ⟨.nil, by simp, by simp, by simp⟩
  files := ⟨.nil, .nil, by simp⟩
  languages := by simp
  keys := ⟨.nil, .nil, .nil⟩

theorem ActionsSound.nodup_ids (h : store.ActionsSound) :
    (store.actions.map ActionRow.id).Nodup := by
  rw [List.nodup_iff_pairwise_ne, List.pairwise_map]
  exact h.ascending.imp fun hlt => Int.ne_of_lt hlt

/-- A recorded row is known by its identity. -/
theorem ActionsSound.eq_of_id (h : store.ActionsSound) {row row' : ActionRow}
    (hrow : row ∈ store.actions) (hrow' : row' ∈ store.actions) (hid : row.id = row'.id) :
    row = row' :=
  List.inj_on_of_nodup_map h.nodup_ids hrow hrow' hid

theorem ActionsSound.congr (h : before.ActionsSound) (hactions : after.actions = before.actions)
    (hnext : before.nextAction ≤ after.nextAction) : after.ActionsSound := by
  refine ⟨hactions ▸ h.ascending, fun row hrow => ?_, hactions ▸ h.kinds, hactions ▸ h.states⟩
  rw [hactions] at hrow
  have hgiven := h.given row hrow
  omega

theorem FilesSound.congr (h : before.FilesSound) (hfiles : after.files = before.files)
    (hnext : before.nextFile ≤ after.nextFile) : after.FilesSound := by
  refine ⟨hfiles ▸ h.ids, hfiles ▸ h.paths, fun file hfile => ?_⟩
  rw [hfiles] at hfile
  have hgiven := h.given file hfile
  omega

/-! ## Growth -/

/-- Consistent tables stay consistent, and nothing is taken back. -/
structure Evolves (before after : Store) : Prop where
  consistent : before.Consistent → after.Consistent
  /-- an action keeps its row, but for the state of one that is outstanding -/
  actions : ∀ row ∈ before.actions, ∃ state : String, { row with state } ∈ after.actions ∧
    (row.state ≠ createdWord → state = row.state)
  newActions : ∀ row ∈ after.actions,
    (∃ old ∈ before.actions, old.id = row.id) ∨ before.nextAction ≤ row.id
  files : ∀ file ∈ before.files, file ∈ after.files
  newFiles : ∀ file ∈ after.files, file ∈ before.files ∨ before.nextFile ≤ file.id
  nextAction : before.nextAction ≤ after.nextAction
  nextFile : before.nextFile ≤ after.nextFile

namespace Evolves

/-- The tables of actions and files were left alone. -/
theorem of_same (hkeys : before.KeysOnce → after.KeysOnce)
    (hactions : after.actions = before.actions) (hfiles : after.files = before.files)
    (hnextAction : before.nextAction ≤ after.nextAction)
    (hnextFile : before.nextFile ≤ after.nextFile) : Evolves before after where
  consistent h := ⟨h.actions.congr hactions hnextAction, h.files.congr hfiles hnextFile,
    hfiles ▸ h.languages, hkeys h.keys⟩
  actions row hrow := ⟨row.state, hactions ▸ hrow, fun _ => rfl⟩
  newActions row hrow := .inl ⟨row, hactions ▸ hrow, rfl⟩
  files _ hfile := hfiles ▸ hfile
  newFiles _ hfile := .inl (hfiles ▸ hfile)
  nextAction := hnextAction
  nextFile := hnextFile

theorem refl (store : Store) : Evolves store store :=
  of_same id rfl rfl (Int.le_refl _) (Int.le_refl _)

theorem trans (h : Evolves before between) (h' : Evolves between after) :
    Evolves before after where
  consistent hconsistent := h'.consistent (h.consistent hconsistent)
  actions row hrow := by
    obtain ⟨state, hmem, hstate⟩ := h.actions row hrow
    obtain ⟨state', hmem', hstate'⟩ := h'.actions _ hmem
    refine ⟨state', hmem', fun hsettled => ?_⟩
    have hsame := hstate hsettled
    exact (hstate' (hsame ▸ hsettled)).trans hsame
  newActions row hrow := by
    rcases h'.newActions row hrow with ⟨old, hold, hid⟩ | hnew
    · rw [← hid]
      exact h.newActions old hold
    · exact .inr (Int.le_trans h.nextAction hnew)
  files file hfile := h'.files file (h.files file hfile)
  newFiles file hfile := by
    rcases h'.newFiles file hfile with hold | hnew
    · exact h.newFiles file hold
    · exact .inr (Int.le_trans h.nextFile hnew)
  nextAction := Int.le_trans h.nextAction h'.nextAction
  nextFile := Int.le_trans h.nextFile h'.nextFile

/-- An action that is parsed or skipped keeps its row as it is. -/
theorem mem_of_settled (h : Evolves before after) {row : ActionRow} (hrow : row ∈ before.actions)
    (hsettled : row.state ≠ createdWord) : row ∈ after.actions := by
  obtain ⟨state, hmem, hstate⟩ := h.actions row hrow
  rw [hstate hsettled] at hmem
  exact hmem

/-- Taking changes back leaves only identities that were given out. -/
theorem restoredTo (h : Evolves before after) : Evolves before (after.restoredTo before) :=
  of_same (fun hkeys => ⟨hkeys.statistics, hkeys.repositories, hkeys.notes⟩) rfl rfl h.nextAction
    h.nextFile

end Evolves

/-! ## Actions -/

theorem ActionsSound.insertAction (h : store.ActionsSound) (kind : ActionKind)
    (label project : String) : (store.insertAction kind label project).2.ActionsSound := by
  simp only [Store.insertAction, insertActionRow]
  refine ⟨?_, fun row hrow => ?_, fun row hrow => ?_, fun row hrow => ?_⟩
  · refine List.pairwise_append.mpr ⟨h.ascending, List.pairwise_singleton _ _, ?_⟩
    intro row hrow new hnew
    rw [List.mem_singleton.mp hnew]
    exact h.given row hrow
  · dsimp only
    rcases List.mem_append.mp hrow with hrow | hrow
    · have hgiven := h.given row hrow
      omega
    · rw [List.mem_singleton.mp hrow]
      exact Int.lt_add_one_of_le (Int.le_refl _)
  · rcases List.mem_append.mp hrow with hrow | hrow
    · exact h.kinds row hrow
    · exact ⟨kind, by rw [List.mem_singleton.mp hrow]⟩
  · rcases List.mem_append.mp hrow with hrow | hrow
    · exact h.states row hrow
    · exact ⟨.created, by rw [List.mem_singleton.mp hrow]; rfl⟩

theorem evolves_insertAction (kind : ActionKind) (label project : String) (store : Store) :
    Evolves store (store.insertAction kind label project).2 where
  consistent h := ⟨h.actions.insertAction kind label project, h.files.congr rfl (Int.le_refl _),
    h.languages, ⟨h.keys.statistics, h.keys.repositories, h.keys.notes⟩⟩
  actions row hrow := ⟨row.state, List.mem_append_left _ hrow, fun _ => rfl⟩
  newActions row hrow := by
    rcases List.mem_append.mp hrow with hrow | hrow
    · exact .inl ⟨row, hrow, rfl⟩
    · rw [List.mem_singleton.mp hrow]
      exact .inr (Int.le_refl _)
  files _ hfile := hfile
  newFiles _ hfile := .inl hfile
  nextAction := Int.le_add_one (Int.le_refl _)
  nextFile := Int.le_refl _

theorem movedRow_eq (verdict : ActionRow → ActionState) (actions : List Int) (row : ActionRow) :
    movedRow verdict actions row = { row with state := (movedRow verdict actions row).state } := by
  unfold movedRow
  split <;> rfl

/-- Only outstanding actions are moved. -/
theorem movedRow_of_settled (verdict : ActionRow → ActionState) (actions : List Int)
    {row : ActionRow} (h : row.state ≠ createdWord) : movedRow verdict actions row = row := by
  simp [movedRow, h]

theorem mem_moved {verdict : ActionRow → ActionState} {actions : List Int} {row' : ActionRow}
    (h : row' ∈ (store.moved verdict actions).actions) :
    ∃ row ∈ store.actions, movedRow verdict actions row = row' := by
  simpa [moved] using h

theorem ActionsSound.moved (h : store.ActionsSound) (verdict : ActionRow → ActionState)
    (actions : List Int) : (store.moved verdict actions).ActionsSound := by
  refine ⟨?_, fun row' hrow' => ?_, fun row' hrow' => ?_, fun row' hrow' => ?_⟩
  · simp only [Store.moved, List.pairwise_map, id_movedRow]
    exact h.ascending
  · obtain ⟨row, hrow, rfl⟩ := mem_moved hrow'
    rw [id_movedRow]
    exact h.given row hrow
  · obtain ⟨row, hrow, rfl⟩ := mem_moved hrow'
    rw [movedRow_eq]
    exact h.kinds row hrow
  · obtain ⟨row, hrow, rfl⟩ := mem_moved hrow'
    unfold movedRow
    split
    · exact ⟨verdict row, rfl⟩
    · exact h.states row hrow

theorem evolves_moved (verdict : ActionRow → ActionState) (actions : List Int) (store : Store) :
    Evolves store (store.moved verdict actions) where
  consistent h := ⟨h.actions.moved verdict actions, h.files.congr rfl (Int.le_refl _),
    h.languages, ⟨h.keys.statistics, h.keys.repositories, h.keys.notes⟩⟩
  actions row hrow := by
    refine ⟨(movedRow verdict actions row).state, ?_, fun hsettled => ?_⟩
    · rw [← movedRow_eq]
      exact List.mem_map_of_mem hrow
    · rw [movedRow_of_settled verdict actions hsettled]
  newActions row' hrow' := by
    obtain ⟨row, hrow, rfl⟩ := mem_moved hrow'
    exact .inl ⟨row, hrow, (id_movedRow _ _ _).symm⟩
  files _ hfile := hfile
  newFiles _ hfile := .inl hfile
  nextAction := Int.le_refl _
  nextFile := Int.le_refl _

/-! ## Files -/

/-- Files were added, and no table but that of files was written. -/
theorem Adds.evolves {paths : List String} (h : Adds paths before after)
    (hsame : after = { before with files := after.files, nextFile := after.nextFile }) :
    Evolves before after where
  consistent hconsistent := by
    refine ⟨hconsistent.actions.congr (by rw [hsame]) (by rw [hsame]), h.sound hconsistent.files,
      fun file hfile => ?_, ?_⟩
    · rcases h.mem_files_cases hfile with hold | ⟨-, -, -, hlanguage⟩
      · exact hconsistent.languages file hold
      · exact hlanguage
    · rw [hsame]
      exact ⟨hconsistent.keys.statistics, hconsistent.keys.repositories, hconsistent.keys.notes⟩
  actions row hrow := ⟨row.state, by rw [hsame]; exact hrow, fun _ => rfl⟩
  newActions row hrow := .inl ⟨row, by rw [hsame] at hrow; exact hrow, rfl⟩
  files file hfile := by
    obtain ⟨fresh, -, -, hfiles, -⟩ := h
    rw [hfiles]
    exact List.mem_append_left _ hfile
  newFiles file hfile := (h.mem_files_cases hfile).imp_right fun hnew => hnew.2.2.1
  nextAction := by rw [hsame]
  nextFile := h.nextFile_le

theorem internFile_eq (path : String) (store : Store) :
    (store.internFile path).2 =
      { store with
        files := (store.internFile path).2.files
        nextFile := (store.internFile path).2.nextFile } := by
  unfold internFile
  split <;> rfl

theorem internFiles_eq (paths : List String) (store : Store) :
    (store.internFiles paths).2 =
      { store with
        files := (store.internFiles paths).2.files
        nextFile := (store.internFiles paths).2.nextFile } := by
  induction paths generalizing store with
  | nil => rfl
  | cons path paths ih =>
    simp only [internFiles]
    rw [ih, internFile_eq]

theorem evolves_internFile (path : String) (store : Store) :
    Evolves store (store.internFile path).2 :=
  (adds_internFile path store).evolves (internFile_eq path store)

theorem evolves_internFiles (paths : List String) (store : Store) :
    Evolves store (store.internFiles paths).2 :=
  (adds_internFiles paths store).evolves (internFiles_eq paths store)

/-- A path that has a row is given that row, and nothing changes. -/
theorem internFile_of_fileAt? {path : String} {file : File} (h : store.fileAt? path = some file) :
    store.internFile path = (file, store) := by
  simp [internFile, h]

/-! ## Links, includes, symbols and clusters -/

/-- Tables that hold no identities of their own may be written in any way. -/
theorem evolves_references (store : Store) (sources targets : List Link)
    (includes : List IncludeRow) (symbols : List SymbolRow) (clusters : List ClusterRow) :
    Evolves store { store with sources, targets, includes, symbols, clusters } :=
  .of_same (fun h => ⟨h.statistics, h.repositories, h.notes⟩) rfl rfl (Int.le_refl _)
    (Int.le_refl _)

/-! ## Tables that are written by key -/

/-- A row that takes the place of those with its key is the only one with it. -/
theorem nodup_keys_replace {ρ κ : Type} {key : ρ → κ} {rows : List ρ} {keep : ρ → Bool} {new : ρ}
    (hrows : (rows.map key).Nodup) (hkeep : ∀ row, keep row = true → key row ≠ key new) :
    ((rows.filter keep ++ [new]).map key).Nodup := by
  have hold : ((rows.filter keep).map key).Nodup := hrows.sublist (List.filter_sublist.map key)
  rw [List.map_append, List.map_singleton]
  refine List.nodup_append'.mpr ⟨hold, List.nodup_singleton _, fun k hk hnew => ?_⟩
  obtain ⟨row, hrow, rfl⟩ := List.mem_map.mp hk
  exact hkeep row (List.mem_filter.mp hrow).2 (List.mem_singleton.mp hnew)

theorem evolves_clearStatistics (category : String) (store : Store) :
    Evolves store (store.clearStatistics category) := by
  refine .of_same (fun h => ⟨?_, h.repositories, h.notes⟩) rfl rfl (Int.le_refl _) (Int.le_refl _)
  exact h.statistics.sublist (List.filter_sublist.map _)

theorem evolves_putStatistic (row : Statistic) (store : Store) :
    Evolves store (store.putStatistic row) := by
  refine .of_same (fun h => ⟨?_, h.repositories, h.notes⟩) rfl rfl (Int.le_refl _) (Int.le_refl _)
  refine nodup_keys_replace h.statistics fun old hold hkey => ?_
  simp_all

theorem evolves_addRepository (path kind : String) (store : Store) :
    Evolves store (store.addRepository path kind) := by
  refine .of_same (fun h => ⟨h.statistics, ?_, h.notes⟩) rfl rfl (Int.le_refl _) (Int.le_refl _)
  exact nodup_keys_replace h.repositories fun old hold => by simpa using hold

theorem evolves_setNote (key : String) (value : Option String) (store : Store) :
    Evolves store (store.setNote key value) := by
  refine .of_same (fun h => ⟨h.statistics, h.repositories, ?_⟩) rfl rfl (Int.le_refl _)
    (Int.le_refl _)
  exact nodup_keys_replace h.notes fun old hold => by simpa using hold

end Store

end SymbolAtlas
