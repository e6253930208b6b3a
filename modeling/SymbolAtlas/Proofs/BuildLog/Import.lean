import SymbolAtlas.Proofs.BuildLog.Steps
import SymbolAtlas.Proofs.Store.Scopes

/-!
# What an import does

- **Work that may fail** (`Tx.Fails`, `Tx.Grows`): when it fails, the scope around it takes back all
  that it has done (`Tx.Grows.run_transaction`).
- **Links** (`Appends`, `yields_linkPaths`, `fails_linkPaths`): paths are linked one after the
  other, unless there are more of them than places.
- **Imports** (`run_importActions`): an import either brings all of its steps into the tables, as
  `Store.importSteps` does, or leaves every table.
- **Many imports** (`Imported`, `imports_append_once`): the rows of actions are the first
  occurrences of the steps of all imports that were not refused.
-/

namespace SymbolAtlas

/-! ## Work that may fail -/

namespace Tx

variable {α β : Type} {store between : Store}

/-- On these tables the work fails. -/
def Fails (work : Tx α) (store : Store) : Prop :=
  ∀ ⦃db : Database⦄ ⦃depth : Nat⦄, db.Ready store depth →
    ∃ fault, (work.run.run db).1 = .error fault

theorem Fails.bind {work : Tx α} (h : Fails work store) (next : α → Tx β) :
    Fails (work >>= next) store := by
  intro db depth hdb
  obtain ⟨fault, hfault⟩ := h hdb
  refine ⟨fault, ?_⟩
  rw [run_run_bind]
  rcases hrun : work.run.run db with ⟨result, after⟩
  rw [hrun] at hfault
  rw [show result = .error fault from hfault]

theorem Yields.bind_fails {work : Tx α} {next : α → Tx β} {a : α} (h : Yields work store a between)
    (hnext : Fails (next a) between) : Fails (work >>= next) store := by
  intro db depth hdb
  obtain ⟨db', hrun, hdb'⟩ := h hdb
  rw [run_run_bind, hrun]
  exact hnext hdb'

theorem Yields.writeOr {change : Store → Except Fault (α × Store)} {a : α}
    (h : change store = .ok (a, between)) : Yields (writeOr change) store a between := by
  rintro db depth ⟨rfl, rfl, hvalid⟩
  exact ⟨_, run_writeOr hvalid h, rfl, rfl, hvalid⟩

theorem Fails.writeOr {change : Store → Except Fault (α × Store)} {fault : Fault}
    (h : change store = .error fault) : Fails (writeOr change) store := by
  rintro db depth ⟨rfl, rfl, hvalid⟩
  exact ⟨fault, by rw [run_writeOr_error hvalid h]⟩

/-- The work changes nothing but the tables, opens no scope, and lets the tables evolve, whether it
fails or not. -/
def Grows (work : Tx α) : Prop :=
  ∀ db, ∃ store invalidated, (work.run.run db).2 = { db with store, invalidated } ∧
    db.store.Evolves store

theorem Grows.pure (a : α) : Grows (pure a : Tx α) := fun db =>
  ⟨db.store, db.invalidated, rfl, .refl _⟩

theorem Grows.bind {work : Tx α} {next : α → Tx β} (h : Grows work)
    (hnext : ∀ a, Grows (next a)) : Grows (work >>= next) := by
  intro db
  obtain ⟨store, invalidated, hrun, hevolves⟩ := h db
  rw [run_run_bind]
  rcases hwork : work.run.run db with ⟨_ | a, db'⟩
  · exact ⟨store, invalidated, by rw [hwork] at hrun; exact hrun, hevolves⟩
  · rw [hwork] at hrun
    obtain rfl : db' = { db with store, invalidated } := hrun
    obtain ⟨store', invalidated', hrun', hevolves'⟩ := hnext a { db with store, invalidated }
    exact ⟨store', invalidated', hrun', hevolves.trans hevolves'⟩

theorem Grows.update {change : Store → α × Store}
    (h : ∀ store : Store, store.Evolves (change store).2) : Grows (update change) := by
  intro db
  cases hdb : db.refuses with
  | true => exact ⟨db.store, db.invalidated, by rw [run_update_of_refuses hdb], .refl _⟩
  | false => exact ⟨_, db.invalidated, by rw [run_update hdb], h db.store⟩

theorem Grows.read (query : Store → α) : Grows (read query) := by
  intro db
  refine ⟨db.store, db.invalidated, ?_, .refl _⟩
  cases hdb : db.refuses with
  | true => rw [run_read_of_refuses hdb]
  | false => rw [run_read hdb]

theorem Grows.writeOr {change : Store → Except Fault (α × Store)}
    (h : ∀ store a after, change store = .ok (a, after) → store.Evolves after) :
    Grows (writeOr change) := by
  intro db
  cases hdb : db.refuses with
  | true => exact ⟨db.store, db.invalidated, by rw [run_writeOr_of_refuses hdb], .refl _⟩
  | false =>
    cases hchange : change db.store with
    | ok answer =>
      exact ⟨answer.2, db.invalidated, by rw [run_writeOr hdb hchange],
        h db.store answer.1 _ hchange⟩
    | error fault =>
      refine ⟨db.store, fault.isStatement || db.invalidated, ?_, .refl _⟩
      rw [run_writeOr_error hdb hchange]
      cases fault.isStatement <;> rfl

/-- A scope that begins where none is open: work that succeeds is kept, and of work that fails only
identities remain that were given out. -/
theorem Grows.run_transaction {work : Tx α} (h : Grows work) {db : Database} (hdb : db.depth = 0) :
    ∃ after, (transaction work).run.run db = ((work.run.run db.enter).1, after) ∧ after.depth = 0 ∧
      db.store.Evolves after.store ∧
      ∀ fault, (work.run.run db.enter).1 = .error fault →
        ∃ nextAction nextFile, after.store = { db.store with nextAction, nextFile } := by
  have hentered := Database.enter_of_depth hdb
  obtain ⟨store, invalidated, hrun, hevolves⟩ := h db.enter
  rw [hentered] at hrun hevolves ⊢
  refine ⟨_, by rw [Tx.run_transaction, hentered, hrun], rfl, ?_, ?_⟩
  · dsimp only [Database.leave]
    split
    · exact hevolves.restoredTo
    · exact hevolves
  · intro fault hfault
    rw [hfault]
    exact ⟨_, _, rfl⟩

end Tx

namespace BuildLog

variable {store : Store} {action place : Int} {add : Int → Int → Store → Except Fault Store}
  {put : List Link → Store → Store}

/-! ## Links -/

/-- Links are added to a table that the table of files does not depend on, unless their place is out
of range. -/
structure Appends (action : Int) (add : Int → Int → Store → Except Fault Store)
    (put : List Link → Store → Store) : Prop where
  fits : ∀ (file place : Int) (store : Store), Store.ordinalFits place = true →
    add file place store = .ok (put [⟨action, file, place⟩] store)
  overflows : ∀ (file place : Int) (store : Store), Store.ordinalFits place = false →
    ∃ fault, add file place store = .error fault
  nil : ∀ store : Store, put [] store = store
  append : ∀ (links more : List Link) (store : Store),
    put (links ++ more) store = put more (put links store)
  internFile : ∀ (links : List Link) (path : String) (store : Store),
    (put links store).internFile path =
      ((store.internFile path).1, put links (store.internFile path).2)
  evolves : ∀ (links : List Link) (store : Store), store.Evolves (put links store)

theorem appends_addSource (action : Int) :
    Appends action (Store.addSource action) Store.withSources where
  fits file place store h := if_pos h
  overflows file place store h := ⟨.sourceNotAdded action, by simp [Store.addSource, h]⟩
  nil store := by simp [Store.withSources]
  append links more store := by simp [Store.withSources]
  internFile links path store := by
    have hsame : (store.withSources links).fileAt? path = store.fileAt? path := rfl
    unfold Store.internFile
    rw [hsame]
    split <;> rfl
  evolves links store := Store.evolves_references store _ _ _ _ _

theorem appends_addTarget (action : Int) :
    Appends action (Store.addTarget action) Store.withTargets where
  fits file place store h := if_pos h
  overflows file place store h := ⟨.targetNotAdded action, by simp [Store.addTarget, h]⟩
  nil store := by simp [Store.withTargets]
  append links more store := by simp [Store.withTargets]
  internFile links path store := by
    have hsame : (store.withTargets links).fileAt? path = store.fileAt? path := rfl
    unfold Store.internFile
    rw [hsame]
    split <;> rfl
  evolves links store := Store.evolves_references store _ _ _ _ _

theorem Appends.internFiles (h : Appends action add put) (links : List Link)
    (paths : List String) (store : Store) : (put links store).internFiles paths =
      ((store.internFiles paths).1, put links (store.internFiles paths).2) := by
  induction paths generalizing store with
  | nil => rfl
  | cons path paths ih => simp only [Store.internFiles, h.internFile, ih]

theorem ordinalFits_iff (hplace : 0 ≤ place) :
    Store.ordinalFits place = true ↔ place ≤ Store.ordinalMax := by
  unfold Store.ordinalFits Store.ordinalMax
  rw [Bool.and_eq_true, decide_eq_true_eq, decide_eq_true_eq]
  omega

theorem grows_linkPaths (h : Appends action add put) (place : Int) (paths : List String) :
    (linkPaths add place paths).Grows := by
  induction paths generalizing place with
  | nil => exact .pure ()
  | cons path paths ih =>
    refine (Tx.Grows.update fun store => Store.evolves_internFile path store).bind fun file => ?_
    refine (Tx.Grows.writeOr fun store a after hadd => ?_).bind fun _ => ih (place + 1)
    by_cases hfits : Store.ordinalFits place = true
    · rw [h.fits _ _ _ hfits] at hadd
      cases hadd
      exact h.evolves _ store
    · obtain ⟨fault, hfault⟩ := h.overflows file.id place store (by simpa using hfits)
      rw [hfault] at hadd
      cases hadd

/-- Paths that all have a place are linked in order. -/
theorem yields_linkPaths (h : Appends action add put) (paths : List String) (hplace : 0 ≤ place)
    (hfits : place + paths.length ≤ Store.ordinalMax + 1) (store : Store) :
    (linkPaths add place paths).Yields store ()
      (put (Store.placed action place (store.internFiles paths).1)
        (store.internFiles paths).2) := by
  induction paths generalizing place store with
  | nil =>
    rw [Store.internFiles, Store.placed, h.nil]
    exact .pure () store
  | cons path paths ih =>
    rw [List.length_cons] at hfits
    have hhere : Store.ordinalFits place = true := (ordinalFits_iff hplace).mpr (by omega)
    have hadd := h.fits (store.internFile path).1.id place (store.internFile path).2 hhere
    have hrest := ih (by omega : (0 : Int) ≤ place + 1) (by omega)
      (put [⟨action, (store.internFile path).1.id, place⟩] (store.internFile path).2)
    rw [h.internFiles] at hrest
    dsimp only at hrest
    rw [← h.append] at hrest
    refine (Tx.Yields.update (Store.internFile path) store).bind ?_
    exact (Tx.Yields.writeOr (by rw [hadd]; rfl)).bind hrest

/-- The first path that has no place is not linked. -/
theorem fails_linkPaths (h : Appends action add put) (paths : List String) (hplace : 0 ≤ place)
    (hstart : place ≤ Store.ordinalMax + 1)
    (hover : Store.ordinalMax + 1 < place + paths.length) (store : Store) :
    (linkPaths add place paths).Fails store := by
  induction paths generalizing place store with
  | nil =>
    rw [List.length_nil] at hover
    omega
  | cons path paths ih =>
    rw [List.length_cons] at hover
    refine (Tx.Yields.update (Store.internFile path) store).bind_fails ?_
    by_cases hhere : Store.ordinalFits place = true
    · have hadd := h.fits (store.internFile path).1.id place (store.internFile path).2 hhere
      have hle := (ordinalFits_iff hplace).mp hhere
      refine (Tx.Yields.writeOr (by rw [hadd]; rfl)).bind_fails ?_
      exact ih (by omega) (by omega) (by omega) _
    · obtain ⟨fault, hfault⟩ := h.overflows (store.internFile path).1.id place
        (store.internFile path).2 (by simpa using hhere)
      exact (Tx.Fails.writeOr (by rw [hfault]; rfl)).bind _

/-! ## Imports -/

theorem grows_importAction (project : String) (action : LogAction) :
    (importAction project action).Grows := by
  unfold importAction
  refine (Tx.Grows.read _).bind fun known => ?_
  split
  · exact .pure false
  · refine (Tx.Grows.update fun store => Store.evolves_insertAction _ _ _ store).bind fun added => ?_
    refine (grows_linkPaths (appends_addSource added.id) 0 _).bind fun _ => ?_
    exact (grows_linkPaths (appends_addTarget added.id) 0 _).bind fun _ => .pure true

/-- A step that is known or fits is imported. -/
theorem yields_importAction (project : String) (action : LogAction) (store : Store)
    (h : store.Knows (action.step project) ∨ (action.step project).fits = true) :
    (importAction project action).Yields store (!decide (store.Knows (action.step project)))
      (store.importStep (action.step project)) := by
  have hfound : (store.findIdentical? action.kind action.label project action.sources
      action.targets).isSome = true ↔ store.Knows (action.step project) :=
    store.isSome_findIdentical?_iff (action.step project)
  refine (Tx.Yields.read _ store).bind ?_
  by_cases hknown : store.Knows (action.step project)
  · rw [if_pos (hfound.mpr hknown), Store.importStep_of_knows hknown, decide_eq_true hknown]
    exact .pure false store
  · have hfits := h.resolve_left hknown
    simp only [BuildStep.fits, Bool.and_eq_true, decide_eq_true_eq] at hfits
    rw [if_neg (mt hfound.mp hknown), Store.importStep_of_not_knows hknown, decide_eq_false hknown]
    refine (Tx.Yields.update _ store).bind ?_
    refine (yields_linkPaths (appends_addSource _) _ (Int.le_refl 0) ?_ _).bind ?_
    · have hsources := hfits.1
      simpa [LogAction.step] using hsources
    refine (yields_linkPaths (appends_addTarget _) _ (Int.le_refl 0) ?_ _).bind ?_
    · have htargets := hfits.2
      simpa [LogAction.step] using htargets
    exact .pure true _

/-- A step that is not known and does not fit is refused. -/
theorem fails_importAction (project : String) (action : LogAction) (store : Store)
    (hknown : ¬ store.Knows (action.step project))
    (hfits : (action.step project).fits = false) :
    (importAction project action).Fails store := by
  have hfound : ¬ (store.findIdentical? action.kind action.label project action.sources
      action.targets).isSome = true :=
    mt (store.isSome_findIdentical?_iff (action.step project)).mp hknown
  have hpos : (0 : Int) ≤ Store.ordinalMax + 1 := by decide
  refine (Tx.Yields.read _ store).bind_fails ?_
  rw [if_neg hfound]
  refine (Tx.Yields.update _ store).bind_fails ?_
  by_cases hsources : (action.sources.length : Int) ≤ Store.ordinalMax + 1
  · have htargets : Store.ordinalMax + 1 < (action.targets.length : Int) := by
      simp only [BuildStep.fits, LogAction.step, hsources, decide_true, Bool.true_and] at hfits
      have hmany := of_decide_eq_false hfits
      omega
    refine (yields_linkPaths (appends_addSource _) _ (Int.le_refl 0) (by omega) _).bind_fails ?_
    exact (fails_linkPaths (appends_addTarget _) _ (Int.le_refl 0) hpos (by omega) _).bind _
  · exact (fails_linkPaths (appends_addSource _) _ (Int.le_refl 0) hpos (by omega) _).bind _

theorem grows_importEach (project : String) (actions : List LogAction) (summary : ImportSummary) :
    (importEach project actions summary).Grows := by
  induction actions generalizing summary with
  | nil => exact .pure summary
  | cons action actions ih =>
    refine (grows_importAction project action).bind fun added => ?_
    split
    · exact ih _
    · exact ih _

/-- Each step is known in its turn or fits. -/
def Admissible (store : Store) : List BuildStep → Prop
  | [] => True
  | step :: rest => (store.Knows step ∨ step.fits = true) ∧ Admissible (store.importStep step) rest

/-- Steps that are all known are not refused. -/
theorem admissible_of_knows {steps : List BuildStep} (h : ∀ step ∈ steps, store.Knows step) :
    Admissible store steps := by
  induction steps with
  | nil => trivial
  | cons step rest ih =>
    have hstep := h step (.head _)
    refine ⟨.inl hstep, ?_⟩
    rw [Store.importStep_of_knows hstep]
    exact ih fun other hother => h other (.tail _ hother)

theorem yields_importEach (project : String) (actions : List LogAction) (summary : ImportSummary)
    (h : Admissible store (actions.map (LogAction.step project))) :
    (importEach project actions summary).Yields store
      ⟨summary.imported + (store.summarize (actions.map (LogAction.step project))).imported,
        summary.existing + (store.summarize (actions.map (LogAction.step project))).existing⟩
      (store.importSteps (actions.map (LogAction.step project))) := by
  induction actions generalizing store summary with
  | nil => exact .pure summary store
  | cons action actions ih =>
    obtain ⟨hhere, hrest⟩ := h
    refine (yields_importAction project action store hhere).bind ?_
    by_cases hknown : store.Knows (action.step project)
    · have hnext := ih { summary with existing := summary.existing + 1 } hrest
      simp only [List.map_cons, Store.summarize, if_pos hknown]
      rw [decide_eq_true hknown]
      dsimp only at hnext
      rw [Nat.add_right_comm] at hnext
      exact hnext
    · have hnext := ih { summary with imported := summary.imported + 1 } hrest
      simp only [List.map_cons, Store.summarize, if_neg hknown]
      rw [decide_eq_false hknown]
      dsimp only at hnext
      rw [Nat.add_right_comm] at hnext
      exact hnext

theorem fails_importEach (project : String) (actions : List LogAction) (summary : ImportSummary)
    (h : ¬ Admissible store (actions.map (LogAction.step project))) :
    (importEach project actions summary).Fails store := by
  induction actions generalizing store summary with
  | nil => exact absurd trivial h
  | cons action actions ih =>
    by_cases hhere : store.Knows (action.step project) ∨ (action.step project).fits = true
    · have hrest := fun hrest => h ⟨hhere, hrest⟩
      refine (yields_importAction project action store hhere).bind_fails ?_
      split
      · exact ih _ hrest
      · exact ih _ hrest
    · obtain ⟨hknown, hfits⟩ := not_or.mp hhere
      exact (fails_importAction project action store hknown (by simpa using hfits)).bind _

/-- An import brings all of its steps into the tables, or leaves every table. -/
theorem run_importActions (project : String) (actions : List LogAction) {db : Database}
    (hdb : db.depth = 0) :
    ∃ after : Database, after.depth = 0 ∧
      (Admissible db.store (actions.map (LogAction.step project)) →
        (importActions project actions).run.run db =
          (.ok (db.store.summarize (actions.map (LogAction.step project))), after) ∧
        after.store = db.store.importSteps (actions.map (LogAction.step project))) ∧
      (¬ Admissible db.store (actions.map (LogAction.step project)) →
        (∃ fault, (importActions project actions).run.run db = (.error fault, after)) ∧
        db.store.Evolves after.store ∧
        ∃ nextAction nextFile, after.store = { db.store with nextAction, nextFile }) := by
  obtain ⟨after, hrun, hdepth, hevolves, hback⟩ :=
    (grows_importEach project actions {}).run_transaction hdb
  refine ⟨after, hdepth, fun hadmissible => ?_, fun hrefused => ?_⟩
  · have hyields := (yields_importEach project actions {} hadmissible).transaction
    obtain ⟨db', hrun', hready⟩ := hyields.run (Database.refuses_of_depth hdb)
    simp only [Nat.zero_add] at hrun'
    rw [importActions, hrun']
    have hsame : after = db' := congrArg Prod.snd (hrun.symm.trans hrun')
    exact ⟨by rw [hsame], by rw [hsame, hready.store]⟩
  · obtain ⟨fault, hfault⟩ := fails_importEach project actions {} hrefused
      (Database.Ready.ofDepth hdb).enter
    exact ⟨⟨fault, by rw [importActions, hrun, hfault]⟩, hevolves, hback fault hfault⟩

/-! ## Many imports -/

/-- The rows of actions hold these steps, in order, and are all outstanding. -/
structure Imported (store : Store) (steps : List BuildStep) : Prop where
  whole : store.Whole
  holds : List.Forall₂ store.Holds store.actions steps
  created : ∀ row ∈ store.actions, row.state = Store.createdWord
  fit : ∀ step ∈ steps, step.fits = true

namespace Imported

variable {given steps : List BuildStep} {step : BuildStep}

theorem exists_of_forall₂ {α β : Type} {R : α → β → Prop} {xs : List α} {ys : List β} {x : α}
    (h : List.Forall₂ R xs ys) (hx : x ∈ xs) : ∃ y ∈ ys, R x y := by
  induction h with
  | nil => cases hx
  | @cons _ y _ _ hfirst _ ih =>
    rcases List.mem_cons.mp hx with rfl | hx
    · exact ⟨y, .head _, hfirst⟩
    · obtain ⟨y', hy', hrel⟩ := ih hx
      exact ⟨y', .tail _ hy', hrel⟩

theorem knows_iff (h : Imported store steps) : store.Knows step ↔ step ∈ steps := by
  constructor
  · rintro ⟨row, hrow, hholds⟩
    obtain ⟨other, hother, hsame⟩ := exists_of_forall₂ h.holds hrow
    rw [hholds.eq hsame]
    exact hother
  · intro hstep
    exact exists_of_forall₂ (R := flip store.Holds) h.holds.flip hstep

theorem empty : Imported Database.empty.store [] where
  whole := ⟨(Store.evolves_setNote _ _ {}).consistent Store.consistent_empty,
    Store.intact_empty.toLinked.evolves (Store.evolves_setNote _ _ {}) rfl rfl⟩
  holds := .nil
  created := nofun
  fit := by simp

/-- A step that fits is recorded the first time that it is imported. -/
theorem importStep (h : Imported store given.eraseDups) (hfits : step.fits = true) :
    Imported (store.importStep step) (given ++ [step]).eraseDups := by
  rw [List.eraseDups_append]
  by_cases hgiven : step ∈ given
  · have hknown := h.knows_iff.mpr (List.mem_eraseDups.mpr hgiven)
    rw [Store.importStep_of_knows hknown]
    simpa [List.removeAll, hgiven] using h
  · have hunknown := mt h.knows_iff.mp (mt List.mem_eraseDups.mp hgiven)
    rw [Store.importStep_of_not_knows hunknown]
    have hnew : ([step].removeAll given).eraseDups = [step] := by
      simp [List.removeAll, hgiven, List.eraseDups_cons]
    rw [hnew]
    refine ⟨h.whole.record step, ?_, fun row hrow => ?_, fun other hother => ?_⟩
    · rw [Store.actions_record]
      refine List.rel_append ?_ (.cons (Store.holds_record h.whole step) .nil)
      have hrows := (List.forall₂_and_left _ _).mpr ⟨fun _ hrow => hrow, h.holds⟩
      exact hrows.imp fun row other hrow => hrow.2.record h.whole hrow.1 step
    · rw [Store.actions_record] at hrow
      rcases List.mem_append.mp hrow with hrow | hrow
      · exact h.created row hrow
      · rw [List.mem_singleton.mp hrow]
        rfl
    · rcases List.mem_append.mp hother with hother | hother
      · exact h.fit other hother
      · rw [List.mem_singleton.mp hother]
        exact hfits

theorem importSteps (h : Imported store given.eraseDups) (hfits : ∀ step ∈ steps, step.fits = true) :
    Imported (store.importSteps steps) (given ++ steps).eraseDups := by
  induction steps generalizing store given with
  | nil => simpa [Store.importSteps] using h
  | cons step rest ih =>
    have hstep := h.importStep (hfits step (.head _))
    have hrest := ih hstep fun other hother => hfits other (.tail _ hother)
    simpa [Store.importSteps] using hrest

/-- No step that does not fit is known, so imports are refused only for these. -/
theorem admissible_iff (h : Imported store given.eraseDups) :
    Admissible store steps ↔ ∀ step ∈ steps, step.fits = true := by
  induction steps generalizing store given with
  | nil => simp [Admissible]
  | cons step rest ih =>
    have hhere : store.Knows step ∨ step.fits = true ↔ step.fits = true := by
      rw [h.knows_iff, or_iff_right_iff_imp]
      exact h.fit step
    simp only [Admissible, hhere, List.forall_mem_cons]
    exact and_congr_right fun hfits => ih (h.importStep hfits)

/-- A refused import changes nothing that is imported. -/
theorem renumbered (h : Imported store steps) {after : Store} (hevolves : store.Evolves after)
    (hafter : ∃ nextAction nextFile, after = { store with nextAction, nextFile }) :
    Imported after steps := by
  obtain ⟨nextAction, nextFile, rfl⟩ := hafter
  refine ⟨h.whole.evolves hevolves rfl rfl, ?_, h.created, h.fit⟩
  exact h.holds.imp fun row step hholds =>
    ⟨hholds.project, hholds.kind, hholds.label, hholds.sources, hholds.targets⟩

end Imported

/-- The database after imports, each under its project; those that are refused leave the tables. -/
def importAll : List (String × List LogAction) → Database → Database
  | [], db => db
  | (project, actions) :: rest, db => importAll rest ((importActions project actions).run.run db).2

/-- Every path of every action can be given a place. -/
def allFit (project : String) (actions : List LogAction) : Bool :=
  (actions.map (LogAction.step project)).all BuildStep.fits

/-- The steps of all imports, but for those of imports that are refused. -/
def givenSteps (imports : List (String × List LogAction)) : List BuildStep :=
  imports.flatMap fun (project, actions) =>
    if allFit project actions then actions.map (LogAction.step project) else []

theorem forall_fits_iff {project : String} {actions : List LogAction} :
    (∀ step ∈ actions.map (LogAction.step project), step.fits = true) ↔
      allFit project actions = true := by
  rw [allFit, List.all_eq_true]

/-- One more import. -/
theorem Imported.run_importActions {given : List BuildStep} {db : Database}
    (h : Imported db.store given.eraseDups) (hdb : db.depth = 0) (project : String)
    (actions : List LogAction) :
    ∃ after : Database, after.depth = 0 ∧
      (allFit project actions = true →
        (importActions project actions).run.run db =
          (.ok (db.store.summarize (actions.map (LogAction.step project))), after) ∧
        after.store = db.store.importSteps (actions.map (LogAction.step project)) ∧
        Imported after.store (given ++ actions.map (LogAction.step project)).eraseDups) ∧
      (allFit project actions = false →
        (∃ fault, (importActions project actions).run.run db = (.error fault, after)) ∧
        (∃ nextAction nextFile, after.store = { db.store with nextAction, nextFile }) ∧
        Imported after.store given.eraseDups) := by
  obtain ⟨after, hdepth, haccepted, hrefused⟩ := BuildLog.run_importActions project actions hdb
  rw [h.admissible_iff, forall_fits_iff] at haccepted hrefused
  refine ⟨after, hdepth, fun hfits => ?_, fun hfits => ?_⟩
  · obtain ⟨hrun, hstore⟩ := haccepted hfits
    exact ⟨hrun, hstore, hstore ▸ h.importSteps (forall_fits_iff.mpr hfits)⟩
  · obtain ⟨hrun, hevolves, hafter⟩ := hrefused (by simp [hfits])
    exact ⟨hrun, hafter, h.renumbered hevolves hafter⟩

theorem Imported.importAll (imports : List (String × List LogAction)) {given : List BuildStep}
    {db : Database} (h : Imported db.store given.eraseDups) (hdb : db.depth = 0) :
    Imported (BuildLog.importAll imports db).store (given ++ givenSteps imports).eraseDups ∧
      (BuildLog.importAll imports db).depth = 0 := by
  induction imports generalizing db given with
  | nil =>
    rw [givenSteps, List.flatMap_nil, List.append_nil]
    exact ⟨h, hdb⟩
  | cons call rest ih =>
    obtain ⟨project, actions⟩ := call
    obtain ⟨after, hdepth, haccepted, hrefused⟩ := h.run_importActions hdb project actions
    simp only [BuildLog.importAll, givenSteps, List.flatMap_cons]
    by_cases hfits : allFit project actions = true
    · obtain ⟨hrun, -, himported⟩ := haccepted hfits
      rw [hrun, if_pos hfits, ← List.append_assoc]
      exact ih himported hdepth
    · obtain ⟨⟨fault, hrun⟩, -, himported⟩ := hrefused (by simpa using hfits)
      rw [hrun, if_neg hfits, List.nil_append]
      exact ih himported hdepth

/-- Any imports into a new database, and one more of any actions under any project.

The rows of actions, by their identities, are the first occurrences of the steps that were given:
each is outstanding, and its links are read back as the paths of its step. An import is refused
exactly if some action has more paths than there are places, and then leaves every table. Any other
counts each action once; repeated, it counts all as known and changes nothing; and it can be done in
two parts, with the same tables and the same counts. -/
theorem imports_append_once (imports : List (String × List LogAction)) :
    List.Forall₂ (importAll imports .empty).store.Holds (importAll imports .empty).store.actions
      (givenSteps imports).eraseDups ∧
    (importAll imports .empty).store.actions.Pairwise (fun first later => first.id < later.id) ∧
    (∀ row ∈ (importAll imports .empty).store.actions, row.state = Store.createdWord) ∧
    ∀ project first second,
      if allFit project (first ++ second) then
        ∃ whole part rest : Database, ∃ summary summary' : ImportSummary,
          (importActions project first).run.run (importAll imports .empty) = (.ok summary, part) ∧
          (importActions project second).run.run part = (.ok summary', rest) ∧
          (importActions project (first ++ second)).run.run (importAll imports .empty) =
            (.ok ⟨summary.imported + summary'.imported, summary.existing + summary'.existing⟩,
              whole) ∧
          whole.store = rest.store ∧
          summary.imported + summary.existing = first.length ∧
          ∃ again, (importActions project first).run.run part = (.ok ⟨0, first.length⟩, again) ∧
            again.store = part.store
      else
        ∃ fault after nextAction nextFile,
          (importActions project (first ++ second)).run.run (importAll imports .empty) =
            (.error fault, after) ∧
          after.store = { (importAll imports .empty).store with nextAction, nextFile } := by
  have hempty : Imported Database.empty.store ([] : List BuildStep).eraseDups := Imported.empty
  obtain ⟨himported, hdepth⟩ := hempty.importAll imports rfl
  rw [List.nil_append] at himported
  refine ⟨himported.holds, himported.whole.consistent.actions.ascending, himported.created,
    fun project first second => ?_⟩
  obtain ⟨whole, -, haccepted, hrefused⟩ :=
    himported.run_importActions hdepth project (first ++ second)
  by_cases hfits : allFit project (first ++ second) = true
  · rw [if_pos hfits]
    have hparts : allFit project first = true ∧ allFit project second = true := by
      simpa [allFit] using hfits
    obtain ⟨hrun, hwhole, -⟩ := haccepted hfits
    obtain ⟨part, hpart, hfirst, -⟩ := himported.run_importActions hdepth project first
    obtain ⟨hfirst, hpartStore, himported'⟩ := hfirst hparts.1
    obtain ⟨rest, -, hsecond, -⟩ := himported'.run_importActions hpart project second
    obtain ⟨hsecond, hrestStore, -⟩ := hsecond hparts.2
    obtain ⟨again, -, hagain, -⟩ := himported'.run_importActions hpart project first
    obtain ⟨hagain, hagainStore, -⟩ := hagain hparts.1
    -- every step of the first part is known now
    have hknown : ∀ step ∈ first.map (LogAction.step project), part.store.Knows step := by
      rw [hpartStore]
      exact (Store.whole_importSteps himported.whole _).2.2.2
    obtain ⟨hsame, hcounts⟩ := Store.importSteps_of_knows hknown
    refine ⟨whole, part, rest, _, _, hfirst, hsecond, ?_, ?_, ?_, again, ?_, ?_⟩
    · rw [hrun, List.map_append, Store.summarize_append, ← hpartStore]
    · rw [hwhole, hrestStore, hpartStore, List.map_append, Store.importSteps_append]
    · rw [Store.total_summarize, List.length_map]
    · rw [hagain, hcounts, List.length_map]
    · rw [hagainStore, hsame]
  · rw [if_neg hfits]
    obtain ⟨⟨fault, hrun⟩, ⟨nextAction, nextFile, hafter⟩, -⟩ := hrefused (by simpa using hfits)
    exact ⟨fault, whole, nextAction, nextFile, hrun, hafter⟩

end BuildLog

end SymbolAtlas
