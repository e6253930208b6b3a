import SymbolAtlas.Dispatch.Indexer
import SymbolAtlas.Proofs.Ascending
import SymbolAtlas.Proofs.Store.Consistent

/-!
# References between tables

Links, includes, symbols and clusters name files and actions by their identities, and nothing in the
tables keeps a row from naming something that is not there. It is the writers that never do this.

- **References** (`Store.Linked`, `Store.Intact`): whatever is named has a row, in the links of the
  build graph and in all tables.
- **Growth** (`Linked.evolves`, `Intact.evolves`): no row of a file or an action goes away, so
  references stay good.
- **Writers** (`Linked.withSources`, `Linked.withTargets`, `Intact.recordFile`,
  `Intact.replaceClusters`): each one adds references only to rows that are there.
-/

namespace SymbolAtlas.Store

variable {store before after : Store}

/-- Some row of a file has the identity. -/
def HasFile (store : Store) (id : Int) : Prop := ∃ file ∈ store.files, file.id = id

/-- Some row of an action has the identity. -/
def HasAction (store : Store) (id : Int) : Prop := ∃ row ∈ store.actions, row.id = id

/-- The links of actions are between rows that are there. -/
structure Linked (store : Store) : Prop where
  sources : ∀ link ∈ store.sources, store.HasAction link.action ∧ store.HasFile link.file
  targets : ∀ link ∈ store.targets, store.HasAction link.action ∧ store.HasFile link.file

/-- Every file and every action that some table names has a row. -/
structure Intact (store : Store) : Prop extends Linked store where
  includes : ∀ row ∈ store.includes, store.HasFile row.includer ∧ store.HasFile row.included
  symbols : ∀ row ∈ store.symbols, store.HasFile row.file
  clusters : ∀ row ∈ store.clusters, store.HasFile row.file ∧ store.HasAction row.action

theorem intact_empty : ({} : Store).Intact where
  sources := by simp
  targets := by simp
  includes := by simp
  symbols := by simp
  clusters := by simp

theorem Evolves.hasFile {id : Int} (h : Evolves before after) (hfile : before.HasFile id) :
    after.HasFile id := by
  obtain ⟨file, hmem, hid⟩ := hfile
  exact ⟨file, h.files file hmem, hid⟩

theorem Evolves.hasAction {id : Int} (h : Evolves before after) (haction : before.HasAction id) :
    after.HasAction id := by
  obtain ⟨row, hmem, hid⟩ := haction
  obtain ⟨state, hmem', -⟩ := h.actions row hmem
  exact ⟨{ row with state }, hmem', hid⟩

/-- A row is found by an identity that is taken once. -/
theorem FilesSound.file?_of_hasFile (h : store.FilesSound) {id : Int} (hid : store.HasFile id) :
    ∃ file ∈ store.files, file.id = id ∧ store.file? id = some file := by
  obtain ⟨file, hfile, rfl⟩ := hid
  exact ⟨file, hfile, rfl, h.file?_eq_some hfile⟩

/-- A file that has been found is found as long as rows only come to it. -/
theorem Evolves.file?_eq_some (h : Evolves before after) (hsound : after.FilesSound) {id : Int}
    {file : File} (hfile : before.file? id = some file) : after.file? id = some file := by
  have hid : file.id = id := by simpa using List.find?_some hfile
  have hmem := h.files file (List.mem_of_find?_eq_some hfile)
  rw [← hid]
  exact hsound.file?_eq_some hmem

/-- The tables with more links from sources. -/
def withSources (links : List Link) (store : Store) : Store :=
  { store with sources := store.sources ++ links }

/-- The tables with more links to targets. -/
def withTargets (links : List Link) (store : Store) : Store :=
  { store with targets := store.targets ++ links }

namespace Linked

/-- Links stay good while tables evolve. -/
theorem evolves (h : before.Linked) (hevolves : Evolves before after)
    (hsources : after.sources = before.sources) (htargets : after.targets = before.targets) :
    after.Linked where
  sources link hlink := by
    have hgood := h.sources link (hsources ▸ hlink)
    exact ⟨hevolves.hasAction hgood.1, hevolves.hasFile hgood.2⟩
  targets link hlink := by
    have hgood := h.targets link (htargets ▸ hlink)
    exact ⟨hevolves.hasAction hgood.1, hevolves.hasFile hgood.2⟩

theorem insertAction (h : store.Linked) (kind : ActionKind) (label project : String) :
    (store.insertAction kind label project).2.Linked :=
  h.evolves (evolves_insertAction kind label project store) rfl rfl

theorem internFiles (h : store.Linked) (paths : List String) :
    (store.internFiles paths).2.Linked := by
  have hsame := internFiles_eq paths store
  refine h.evolves (evolves_internFiles paths store) ?_ ?_ <;> rw [hsame]

theorem withSources (h : store.Linked) {links : List Link}
    (hlinks : ∀ link ∈ links, store.HasAction link.action ∧ store.HasFile link.file) :
    (store.withSources links).Linked where
  sources link hlink := (List.mem_append.mp hlink).elim (h.sources link) (hlinks link)
  targets := h.targets

theorem withTargets (h : store.Linked) {links : List Link}
    (hlinks : ∀ link ∈ links, store.HasAction link.action ∧ store.HasFile link.file) :
    (store.withTargets links).Linked where
  sources := h.sources
  targets link hlink := (List.mem_append.mp hlink).elim (h.targets link) (hlinks link)

end Linked

namespace Intact

/-- Nothing but links was added, and those are good. -/
theorem of_linked (h : before.Intact) (hevolves : Evolves before after) (hlinked : after.Linked)
    (hincludes : after.includes = before.includes) (hsymbols : after.symbols = before.symbols)
    (hclusters : after.clusters = before.clusters) : after.Intact where
  toLinked := hlinked
  includes row hrow := by
    have hgood := h.includes row (hincludes ▸ hrow)
    exact ⟨hevolves.hasFile hgood.1, hevolves.hasFile hgood.2⟩
  symbols row hrow := hevolves.hasFile (h.symbols row (hsymbols ▸ hrow))
  clusters row hrow := by
    have hgood := h.clusters row (hclusters ▸ hrow)
    exact ⟨hevolves.hasFile hgood.1, hevolves.hasAction hgood.2⟩

/-- References stay good while tables evolve. -/
theorem evolves (h : before.Intact) (hevolves : Evolves before after)
    (hsources : after.sources = before.sources) (htargets : after.targets = before.targets)
    (hincludes : after.includes = before.includes) (hsymbols : after.symbols = before.symbols)
    (hclusters : after.clusters = before.clusters) : after.Intact :=
  h.of_linked hevolves (h.toLinked.evolves hevolves hsources htargets) hincludes hsymbols hclusters

theorem moved (h : store.Intact) (verdict : ActionRow → ActionState) (actions : List Int) :
    (store.moved verdict actions).Intact :=
  h.evolves (evolves_moved verdict actions store) rfl rfl rfl rfl rfl

theorem internFile (h : store.Intact) (path : String) : (store.internFile path).2.Intact := by
  have hsame := internFile_eq path store
  refine h.evolves (evolves_internFile path store) ?_ ?_ ?_ ?_ ?_ <;> rw [hsame]

theorem internFiles (h : store.Intact) (paths : List String) :
    (store.internFiles paths).2.Intact := by
  have hsame := internFiles_eq paths store
  refine h.evolves (evolves_internFiles paths store) ?_ ?_ ?_ ?_ ?_ <;> rw [hsame]

theorem replaceClusters (h : store.Intact) {map : ClusterMap}
    (hmap : ∀ entry ∈ map, store.HasFile entry.1 ∧ ∀ action ∈ entry.2, store.HasAction action) :
    (store.replaceClusters map).Intact where
  sources := h.sources
  targets := h.targets
  includes := h.includes
  symbols := h.symbols
  clusters row hrow := by
    simp only [Store.replaceClusters, ClusterMap.rows, List.mem_flatMap, List.mem_map] at hrow
    obtain ⟨entry, hentry, action, haction, rfl⟩ := hrow
    exact ⟨(hmap entry hentry).1, (hmap entry hentry).2 action haction⟩

end Intact

/-! ## Rows of paths -/

/-- The row that is given for a path is in the table and has the path. -/
theorem mem_internFile (path : String) (store : Store) :
    (store.internFile path).1 ∈ (store.internFile path).2.files ∧
      (store.internFile path).1.path = path :=
  mem_of_fileAt? (fileAt?_internFile path store)

theorem mem_internFiles {paths : List String} {file : File}
    (h : file ∈ (store.internFiles paths).1) : file ∈ (store.internFiles paths).2.files := by
  induction paths generalizing store with
  | nil => cases h
  | cons path paths ih =>
    simp only [Store.internFiles] at h ⊢
    rcases List.mem_cons.mp h with rfl | h
    · exact (evolves_internFiles paths _).files _ (mem_internFile path store).1
    · exact ih h

theorem map_path_internFiles (paths : List String) (store : Store) :
    (store.internFiles paths).1.map File.path = paths := by
  induction paths generalizing store with
  | nil => rfl
  | cons path paths ih =>
    simp only [Store.internFiles, List.map_cons]
    rw [(mem_internFile path store).2, ih]

/-- A file that has a row is recorded: what it includes has rows before it is named. -/
theorem Intact.recordFile (h : store.Intact) {file : Int} (hfile : store.HasFile file)
    (included : List String) (symbols : List Source.Found) :
    (Indexer.recordFile file included symbols store).Intact := by
  have hrows := h.internFiles included
  have hfile := (evolves_internFiles included store).hasFile hfile
  refine ⟨⟨hrows.sources, hrows.targets⟩, fun row hrow => ?_, fun row hrow => ?_, hrows.clusters⟩
  · rcases List.mem_append.mp hrow with hold | hnew
    · exact hrows.includes row (List.mem_filter.mp hold).1
    · obtain ⟨id, hid, rfl⟩ := List.mem_map.mp hnew
      rw [Ascending.mem_ofList] at hid
      obtain ⟨other, hother, rfl⟩ := List.mem_map.mp hid
      exact ⟨hfile, other, mem_internFiles hother, rfl⟩
  · rcases List.mem_append.mp hrow with hold | hnew
    · exact hrows.symbols row (List.mem_filter.mp hold).1
    · obtain ⟨symbol, -, rfl⟩ := List.mem_map.mp hnew
      exact hfile

theorem evolves_recordFile (file : Int) (included : List String) (symbols : List Source.Found)
    (store : Store) : Evolves store (Indexer.recordFile file included symbols store) :=
  (evolves_internFiles included store).trans (evolves_references _ _ _ _ _ _)

/-! ## Whole tables -/

/-- The tables are consistent, and the build graph links what is there. -/
structure Whole (store : Store) : Prop where
  consistent : store.Consistent
  links : store.Linked

namespace Whole

/-- Tables stay whole while they evolve and no link is added. -/
theorem evolves (h : before.Whole) (hevolves : Evolves before after)
    (hsources : after.sources = before.sources) (htargets : after.targets = before.targets) :
    after.Whole :=
  ⟨hevolves.consistent h.consistent, h.links.evolves hevolves hsources htargets⟩

end Whole

end SymbolAtlas.Store
