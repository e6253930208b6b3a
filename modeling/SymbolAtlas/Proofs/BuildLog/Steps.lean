import Mathlib.Data.List.Forall2
import SymbolAtlas.BuildLog.Import
import SymbolAtlas.Proofs.Store.References

/-!
# Build steps in the tables

An import tells actions apart by their project, kind, command and paths. Such a build step is spread
over several tables: a row, and numbered links to files.

- **Reading back** (`Store.Holds`): a row with its links says exactly what the step says, and says
  it of one step only (`Holds.eq`). It goes on saying so while the tables evolve (`Holds.evolves`).
- **Recording** (`Store.record`): a row and its links are added. The new row holds the step, and
  every other row holds what it held (`holds_record`, `Holds.record`).
- **Importing** (`Store.importStep`, `Store.importSteps`): a step that some row holds is not
  recorded again. What is counted meanwhile is `Store.summarize`.
-/

namespace SymbolAtlas

/-- A build step as an import tells it from others. -/
structure BuildStep where
  project : String
  kind : ActionKind
  label : String
  sources : List String
  targets : List String
  deriving DecidableEq

/-- The step of an action of a log under a project. -/
def BuildLog.LogAction.step (project : String) (action : BuildLog.LogAction) : BuildStep :=
  ⟨project, action.kind, action.label, action.sources, action.targets⟩

/-- Every path of the step can be given a place among the links. -/
def BuildStep.fits (step : BuildStep) : Bool :=
  step.sources.length ≤ Store.ordinalMax + 1 && step.targets.length ≤ Store.ordinalMax + 1

namespace Store

variable {store before after : Store} {row row' : ActionRow} {step other : BuildStep}

/-! ## Reading back -/

/-- The row and its links say what the step says. -/
structure Holds (store : Store) (row : ActionRow) (step : BuildStep) : Prop where
  project : row.project = step.project
  kind : row.kind = Worded.word step.kind
  label : row.label = step.label
  sources : havePaths (store.sourcesOf row.id) step.sources = true
  targets : havePaths (store.targetsOf row.id) step.targets = true

theorem word_injective {kind kind' : ActionKind} (h : Worded.word kind = Worded.word kind') :
    kind = kind' := by
  cases kind <;> cases kind' <;> first | rfl | exact absurd h (by decide)

theorem paths_eq {files : List (Option File)} {paths paths' : List String}
    (h : havePaths files paths = true) (h' : havePaths files paths' = true) : paths = paths' := by
  simp only [havePaths, decide_eq_true_eq] at h h'
  exact List.map_injective_iff.mpr (Option.some_injective _) (h.symm.trans h')

/-- A row holds one step. -/
theorem Holds.eq (h : store.Holds row step) (h' : store.Holds row other) : step = other := by
  have hproject := h.project.symm.trans h'.project
  have hkind := word_injective (h.kind.symm.trans h'.kind)
  have hlabel := h.label.symm.trans h'.label
  have hsources := paths_eq h.sources h'.sources
  have htargets := paths_eq h.targets h'.targets
  cases step
  cases other
  simp_all

/-- Paths that have been read are read again as long as files stay. -/
theorem havePaths_of_files {links : List Link} {paths : List String}
    (hfiles : ∀ id file, before.file? id = some file → after.file? id = some file)
    (h : havePaths (links.map fun link => before.file? link.file) paths = true) :
    havePaths (links.map fun link => after.file? link.file) paths = true := by
  simp only [havePaths, decide_eq_true_eq, List.map_map] at h ⊢
  rw [← h]
  refine List.map_congr_left fun link hlink => ?_
  -- a link whose file is missing would be read as no path at all
  have hsome : (before.file? link.file).map File.path ∈ paths.map some := by
    rw [← h]
    exact List.mem_map.mpr ⟨link, hlink, rfl⟩
  obtain ⟨path, -, hpath⟩ := List.mem_map.mp hsome
  obtain ⟨file, hfile, -⟩ := Option.map_eq_some_iff.mp hpath.symm
  simp [hfile, hfiles _ _ hfile]

/-- A row goes on holding its step, in whatever state it is, while its links and the files stay. -/
theorem Holds.congr (h : before.Holds row step) (hrow : row' = { row with state := row'.state })
    (hsources : linksOf after.sources row.id = linksOf before.sources row.id)
    (htargets : linksOf after.targets row.id = linksOf before.targets row.id)
    (hfiles : ∀ id file, before.file? id = some file → after.file? id = some file) :
    after.Holds row' step := by
  have hid : row'.id = row.id := by rw [hrow]
  refine ⟨by rw [hrow]; exact h.project, by rw [hrow]; exact h.kind, by rw [hrow]; exact h.label,
    ?_, ?_⟩
  · rw [hid, sourcesOf, hsources]
    exact havePaths_of_files hfiles h.sources
  · rw [hid, targetsOf, htargets]
    exact havePaths_of_files hfiles h.targets

/-- Some row holds the step. -/
def Knows (store : Store) (step : BuildStep) : Prop := ∃ row ∈ store.actions, store.Holds row step

theorem isSome_findIdentical?_iff (store : Store) (step : BuildStep) :
    (store.findIdentical? step.kind step.label step.project step.sources step.targets).isSome =
      true ↔ store.Knows step := by
  rw [findIdentical?, List.find?_isSome]
  simp only [actionsLike, List.mem_map, List.mem_filter, Bool.and_eq_true, decide_eq_true_eq]
  constructor
  · rintro ⟨id, ⟨row, ⟨hrow, ⟨hkind, hlabel⟩, hproject⟩, rfl⟩, hsources, htargets⟩
    exact ⟨row, hrow, hproject, hkind, hlabel, hsources, htargets⟩
  · rintro ⟨row, hrow, hproject, hkind, hlabel, hsources, htargets⟩
    exact ⟨row.id, ⟨row, ⟨hrow, ⟨hkind, hlabel⟩, hproject⟩, rfl⟩, hsources, htargets⟩

instance (store : Store) (step : BuildStep) : Decidable (store.Knows step) :=
  decidable_of_iff _ (isSome_findIdentical?_iff store step)

/-- A known step stays known while the tables evolve and the links stay. -/
theorem Knows.evolves (h : before.Knows step) (hevolves : Evolves before after)
    (hsound : after.FilesSound) (hsources : after.sources = before.sources)
    (htargets : after.targets = before.targets) : after.Knows step := by
  obtain ⟨row, hrow, hholds⟩ := h
  obtain ⟨state, hmem, -⟩ := hevolves.actions row hrow
  refine ⟨{ row with state }, hmem, hholds.congr rfl (by rw [hsources]) (by rw [htargets]) ?_⟩
  exact fun id file hfile => hevolves.file?_eq_some hsound hfile

/-! ## Links -/

/-- Links of an action to files, with places from the given one on. -/
def placed (action : Int) : Int → List File → List Link
  | _, [] => []
  | place, file :: files => ⟨action, file.id, place⟩ :: placed action (place + 1) files

theorem action_of_mem_placed {action place : Int} {files : List File} {link : Link}
    (h : link ∈ placed action place files) :
    link.action = action ∧ place ≤ link.ordinal ∧ ∃ file ∈ files, file.id = link.file := by
  induction files generalizing place with
  | nil => cases h
  | cons file files ih =>
    rcases List.mem_cons.mp h with rfl | h
    · exact ⟨rfl, Int.le_refl _, file, .head _, rfl⟩
    · obtain ⟨haction, hplace, other, hother, hid⟩ := ih h
      exact ⟨haction, by omega, other, .tail _ hother, hid⟩

theorem pairwise_placed (action place : Int) (files : List File) :
    (placed action place files).Pairwise fun a b => decide (a.ordinal ≤ b.ordinal) = true := by
  induction files generalizing place with
  | nil => exact .nil
  | cons file files ih =>
    refine List.pairwise_cons.mpr ⟨fun link hlink => ?_, ih (place + 1)⟩
    have hplace := (action_of_mem_placed hlink).2.1
    simp only [decide_eq_true_eq]
    omega

/-- New links of one action leave those of the others. -/
theorem linksOf_append_placed_of_ne {action other : Int} (hne : other ≠ action)
    (links : List Link) (place : Int) (files : List File) :
    linksOf (links ++ placed action place files) other = linksOf links other := by
  have hnone : (placed action place files).filter (fun link => link.action = other) = [] := by
    refine List.filter_eq_nil_iff.mpr fun link hlink => ?_
    rw [(action_of_mem_placed hlink).1]
    simpa using Ne.symm hne
  rw [linksOf, List.filter_append, hnone, List.append_nil, linksOf]

/-- An action without links has exactly those that it is given, in their order. -/
theorem linksOf_append_placed {action : Int} {links : List Link}
    (hnew : ∀ link ∈ links, link.action ≠ action) (place : Int) (files : List File) :
    linksOf (links ++ placed action place files) action = placed action place files := by
  have hold : links.filter (fun link => link.action = action) = [] :=
    List.filter_eq_nil_iff.mpr fun link hlink => by simpa using hnew link hlink
  have hall : (placed action place files).filter (fun link => link.action = action) =
      placed action place files :=
    List.filter_eq_self.mpr fun link hlink => by simpa using (action_of_mem_placed hlink).1
  rw [linksOf, List.filter_append, hold, hall, List.nil_append]
  exact List.mergeSort_of_pairwise (pairwise_placed action place files)

/-- Links to files that have rows are read back as the paths of these files. -/
theorem havePaths_placed (hsound : store.FilesSound) {files : List File}
    (hfiles : ∀ file ∈ files, file ∈ store.files) (action place : Int) :
    havePaths ((placed action place files).map fun link => store.file? link.file)
      (files.map File.path) = true := by
  simp only [havePaths, decide_eq_true_eq]
  induction files generalizing place with
  | nil => rfl
  | cons file files ih =>
    have hfile := hsound.file?_eq_some (hfiles file (.head _))
    have hrest := ih (fun other hother => hfiles other (.tail _ hother)) (place + 1)
    simp only [placed, List.map_cons, hfile, Option.map_some, hrest]

/-! ## Recording -/

/-- The row of a step that is recorded next. -/
def newRow (store : Store) (step : BuildStep) : ActionRow :=
  ⟨store.nextAction, Worded.word step.kind, createdWord, step.label, step.project⟩

/-- Record a step: a row, links to its sources and links to its targets. -/
def record (step : BuildStep) (store : Store) : Store :=
  let (action, store) := store.insertAction step.kind step.label step.project
  let (sources, store) := store.internFiles step.sources
  let (targets, store) := (store.withSources (placed action.id 0 sources)).internFiles step.targets
  store.withTargets (placed action.id 0 targets)

/-- What recording a step does: files may be added, a row is, and links to the files of the step. -/
theorem record_spec (step : BuildStep) (store : Store) :
    ∃ inputs outputs files nextFile,
      store.record step =
        { store with
          files, nextFile
          actions := store.actions ++ [store.newRow step]
          nextAction := store.nextAction + 1
          sources := store.sources ++ placed store.nextAction 0 inputs
          targets := store.targets ++ placed store.nextAction 0 outputs } ∧
      Evolves store (store.record step) ∧
      (∀ file ∈ inputs ++ outputs, file ∈ files) ∧
      inputs.map File.path = step.sources ∧ outputs.map File.path = step.targets := by
  -- the tables with the row, then with the links to sources, and then with the files of targets
  let inserted := (store.insertAction step.kind step.label step.project).2
  let inputs := inserted.internFiles step.sources
  let linked := inputs.2.withSources (placed store.nextAction 0 inputs.1)
  let outputs := linked.internFiles step.targets
  have hrecord : store.record step = outputs.2.withTargets (placed store.nextAction 0 outputs.1) :=
    rfl
  have hinputs : inputs.2 =
      { inserted with files := inputs.2.files, nextFile := inputs.2.nextFile } :=
    internFiles_eq step.sources inserted
  have houtputs : outputs.2 =
      { linked with files := outputs.2.files, nextFile := outputs.2.nextFile } :=
    internFiles_eq step.targets linked
  have hlast : Evolves linked (store.record step) := by
    rw [hrecord]
    exact (evolves_internFiles step.targets linked).trans (evolves_references _ _ _ _ _ _)
  have hafter : Evolves inputs.2 (store.record step) :=
    (evolves_references _ _ _ _ _ _ : Evolves inputs.2 linked).trans hlast
  refine ⟨inputs.1, outputs.1, outputs.2.files, outputs.2.nextFile, ?_, ?_, fun file hfile => ?_,
    map_path_internFiles _ _, map_path_internFiles _ _⟩
  · rw [hrecord, withTargets, houtputs]
    simp only [linked, withSources]
    rw [hinputs]
    rfl
  · exact ((evolves_insertAction step.kind step.label step.project store).trans
      (evolves_internFiles step.sources inserted)).trans hafter
  · rcases List.mem_append.mp hfile with hfile | hfile
    · exact hafter.files file (mem_internFiles hfile)
    · exact mem_internFiles hfile

theorem actions_record (step : BuildStep) (store : Store) :
    (store.record step).actions = store.actions ++ [store.newRow step] := by
  obtain ⟨_, _, _, _, hrecord, -⟩ := record_spec step store
  rw [hrecord]

theorem evolves_record (step : BuildStep) (store : Store) : Evolves store (store.record step) := by
  obtain ⟨_, _, _, _, -, hevolves, -⟩ := record_spec step store
  exact hevolves

/-- Links of an action that has a row to files that have rows. -/
theorem placed_good {action : Int} (haction : store.HasAction action) {files : List File}
    (hfiles : ∀ file ∈ files, file ∈ store.files) (place : Int) :
    ∀ link ∈ placed action place files, store.HasAction link.action ∧ store.HasFile link.file := by
  intro link hlink
  obtain ⟨hsame, -, file, hfile, hid⟩ := action_of_mem_placed hlink
  exact ⟨hsame ▸ haction, file, hfiles file hfile, hid⟩

theorem Linked.record (h : store.Linked) (step : BuildStep) : (store.record step).Linked := by
  have hinserted := h.insertAction step.kind step.label step.project
  have hrow : (store.insertAction step.kind step.label step.project).2.HasAction store.nextAction :=
    ⟨store.newRow step, List.mem_append_right _ (.head _), rfl⟩
  have hrow := (evolves_internFiles step.sources _).hasAction hrow
  have hlinked := (hinserted.internFiles step.sources).withSources
    (placed_good hrow (fun _ => mem_internFiles) 0)
  refine (hlinked.internFiles step.targets).withTargets
    (placed_good ?_ (fun _ => mem_internFiles) 0)
  exact (evolves_internFiles step.targets _).hasAction hrow

theorem Whole.record (h : store.Whole) (step : BuildStep) : (store.record step).Whole :=
  ⟨(evolves_record step store).consistent h.consistent, h.links.record step⟩

theorem Intact.record (h : store.Intact) (step : BuildStep) : (store.record step).Intact := by
  obtain ⟨_, _, _, _, hrecord, hevolves, -⟩ := record_spec step store
  refine h.of_linked hevolves (h.toLinked.record step) ?_ ?_ ?_ <;> rw [hrecord]

/-- The links of an action that is not there yet are none. -/
theorem Whole.links_ne (h : store.Whole) :
    (∀ link ∈ store.sources, link.action ≠ store.nextAction) ∧
      ∀ link ∈ store.targets, link.action ≠ store.nextAction := by
  have hne : ∀ action, store.HasAction action → action ≠ store.nextAction := by
    rintro action ⟨row, hrow, rfl⟩
    exact Int.ne_of_lt (h.consistent.actions.given row hrow)
  exact ⟨fun link hlink => hne _ (h.links.sources link hlink).1,
    fun link hlink => hne _ (h.links.targets link hlink).1⟩

/-- The new row holds the step. -/
theorem holds_record (h : store.Whole) (step : BuildStep) :
    (store.record step).Holds (store.newRow step) step := by
  obtain ⟨hsources, htargets⟩ := h.links_ne
  have hsound := (h.record step).consistent.files
  obtain ⟨inputs, outputs, files, nextFile, hrecord, -, hrows, hinputs, houtputs⟩ :=
    record_spec step store
  have hfiles : ∀ file ∈ inputs ++ outputs, file ∈ (store.record step).files := by
    rw [hrecord]
    exact hrows
  have hsourceLinks : linksOf (store.record step).sources store.nextAction =
      placed store.nextAction 0 inputs := by
    rw [hrecord]
    exact linksOf_append_placed hsources 0 inputs
  have htargetLinks : linksOf (store.record step).targets store.nextAction =
      placed store.nextAction 0 outputs := by
    rw [hrecord]
    exact linksOf_append_placed htargets 0 outputs
  refine ⟨rfl, rfl, rfl, ?_, ?_⟩
  · rw [sourcesOf, newRow, hsourceLinks, ← hinputs]
    exact havePaths_placed hsound (fun file hfile => hfiles file (List.mem_append_left _ hfile)) _ _
  · rw [targetsOf, newRow, htargetLinks, ← houtputs]
    exact havePaths_placed hsound (fun file hfile => hfiles file (List.mem_append_right _ hfile)) _ _

/-- Every other row holds what it held. -/
theorem Holds.record (hholds : store.Holds row other) (h : store.Whole) (hrow : row ∈ store.actions)
    (step : BuildStep) : (store.record step).Holds row other := by
  have hne : row.id ≠ store.nextAction := Int.ne_of_lt (h.consistent.actions.given row hrow)
  have hsound := (h.record step).consistent.files
  obtain ⟨inputs, outputs, files, nextFile, hrecord, hevolves, -⟩ := record_spec step store
  refine hholds.congr rfl ?_ ?_ fun id file hfile => hevolves.file?_eq_some hsound hfile
  · rw [hrecord]
    exact linksOf_append_placed_of_ne hne _ 0 inputs
  · rw [hrecord]
    exact linksOf_append_placed_of_ne hne _ 0 outputs

/-! ## Importing -/

/-- Record a step unless some row holds it. -/
def importStep (store : Store) (step : BuildStep) : Store :=
  if store.Knows step then store else store.record step

/-- Import steps one after the other. -/
def importSteps (store : Store) (steps : List BuildStep) : Store := steps.foldl importStep store

/-- How many of the steps are recorded, and how many are known when their turn comes. -/
def summarize (store : Store) : List BuildStep → BuildLog.ImportSummary
  | [] => {}
  | step :: rest =>
    let summary := (store.importStep step).summarize rest
    if store.Knows step then { summary with existing := summary.existing + 1 }
    else { summary with imported := summary.imported + 1 }

theorem importStep_of_knows (h : store.Knows step) : store.importStep step = store := if_pos h

theorem importStep_of_not_knows (h : ¬ store.Knows step) :
    store.importStep step = store.record step := if_neg h

theorem Whole.importStep (h : store.Whole) (step : BuildStep) : (store.importStep step).Whole := by
  unfold Store.importStep
  split
  · exact h
  · exact h.record step

theorem evolves_importStep (store : Store) (step : BuildStep) :
    Evolves store (store.importStep step) := by
  unfold importStep
  split
  · exact .refl store
  · exact evolves_record step store

theorem Knows.importStep (h : store.Knows other) (hwhole : store.Whole) (step : BuildStep) :
    (store.importStep step).Knows other := by
  obtain ⟨row, hrow, hholds⟩ := h
  by_cases hknown : store.Knows step
  · rw [importStep_of_knows hknown]
    exact ⟨row, hrow, hholds⟩
  · rw [importStep_of_not_knows hknown]
    refine ⟨row, ?_, hholds.record hwhole hrow step⟩
    rw [actions_record]
    exact List.mem_append_left _ hrow

/-- A step that was imported is known. -/
theorem knows_importStep (h : store.Whole) (step : BuildStep) :
    (store.importStep step).Knows step := by
  by_cases hknown : store.Knows step
  · rw [importStep_of_knows hknown]
    exact hknown
  · rw [importStep_of_not_knows hknown]
    refine ⟨store.newRow step, ?_, holds_record h step⟩
    rw [actions_record]
    exact List.mem_append_right _ (.head _)

theorem importSteps_append (store : Store) (first second : List BuildStep) :
    store.importSteps (first ++ second) = (store.importSteps first).importSteps second :=
  List.foldl_append

theorem summarize_append (store : Store) (first second : List BuildStep) :
    store.summarize (first ++ second) =
      ⟨(store.summarize first).imported + ((store.importSteps first).summarize second).imported,
        (store.summarize first).existing + ((store.importSteps first).summarize second).existing⟩ := by
  induction first generalizing store with
  | nil => simp [summarize, importSteps]
  | cons step rest ih =>
    simp only [List.cons_append, summarize, ih, importSteps, List.foldl_cons]
    by_cases hknown : store.Knows step
    · simp only [if_pos hknown, BuildLog.ImportSummary.mk.injEq, true_and]
      omega
    · simp only [if_neg hknown, BuildLog.ImportSummary.mk.injEq, and_true]
      omega

theorem total_summarize (store : Store) (steps : List BuildStep) :
    (store.summarize steps).imported + (store.summarize steps).existing = steps.length := by
  induction steps generalizing store with
  | nil => rfl
  | cons step rest ih =>
    have htotal := ih (store.importStep step)
    simp only [summarize, List.length_cons]
    split <;> dsimp only <;> omega

/-- Steps that are all known are only counted. -/
theorem importSteps_of_knows {steps : List BuildStep} (h : ∀ step ∈ steps, store.Knows step) :
    store.importSteps steps = store ∧ store.summarize steps = ⟨0, steps.length⟩ := by
  induction steps with
  | nil => exact ⟨rfl, rfl⟩
  | cons step rest ih =>
    have hstep := h step (.head _)
    obtain ⟨hstore, hsummary⟩ := ih fun other hother => h other (.tail _ hother)
    constructor
    · rw [importSteps, List.foldl_cons, importStep_of_knows hstep]
      exact hstore
    · rw [summarize, importStep_of_knows hstep, if_pos hstep, hsummary, List.length_cons]

theorem whole_importSteps (h : store.Whole) (steps : List BuildStep) :
    (store.importSteps steps).Whole ∧ Evolves store (store.importSteps steps) ∧
      (∀ step, store.Knows step → (store.importSteps steps).Knows step) ∧
      ∀ step ∈ steps, (store.importSteps steps).Knows step := by
  induction steps generalizing store with
  | nil => exact ⟨h, .refl store, fun _ hknown => hknown, by simp⟩
  | cons step rest ih =>
    obtain ⟨hwhole, hevolves, hold, hnew⟩ := ih (h.importStep step)
    refine ⟨hwhole, (evolves_importStep store step).trans hevolves,
      fun other hother => hold other (hother.importStep h step), fun other hother => ?_⟩
    rcases List.mem_cons.mp hother with rfl | hother
    · exact hold _ (knows_importStep h _)
    · exact hnew other hother

theorem Intact.importSteps (h : store.Intact) (steps : List BuildStep) :
    (store.importSteps steps).Intact := by
  induction steps generalizing store with
  | nil => exact h
  | cons step rest ih =>
    refine ih ?_
    by_cases hknown : store.Knows step
    · rw [importStep_of_knows hknown]
      exact h
    · rw [importStep_of_not_knows hknown]
      exact h.record step

/-- Rows that an import adds are outstanding. -/
theorem mem_importSteps {steps : List BuildStep} {row : ActionRow}
    (h : row ∈ (store.importSteps steps).actions) :
    row ∈ store.actions ∨ row.state = createdWord := by
  induction steps generalizing store with
  | nil => exact .inl h
  | cons step rest ih =>
    rcases ih h with hold | hnew
    · by_cases hknown : store.Knows step
      · rw [importStep_of_knows hknown] at hold
        exact .inl hold
      · rw [importStep_of_not_knows hknown, actions_record] at hold
        rcases List.mem_append.mp hold with hold | hnew
        · exact .inl hold
        · rw [List.mem_singleton.mp hnew]
          exact .inr rfl
    · exact .inr hnew

theorem repositories_importSteps (store : Store) (steps : List BuildStep) :
    (store.importSteps steps).repositories = store.repositories := by
  induction steps generalizing store with
  | nil => rfl
  | cons step rest ih =>
    refine (ih (store.importStep step)).trans ?_
    by_cases hknown : store.Knows step
    · rw [importStep_of_knows hknown]
    · obtain ⟨_, _, _, _, hrecord, -⟩ := record_spec step store
      rw [importStep_of_not_knows hknown, hrecord]

end Store

end SymbolAtlas
