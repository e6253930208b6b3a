import SymbolAtlas.Proofs.Dispatch.Accounting
import SymbolAtlas.Proofs.Dispatch.Indexing
import SymbolAtlas.Proofs.Dispatch.Plan

/-!
# A whole pass

A pass takes one task after the other until none is left. Between two tasks the collector may take
rounds, and others may do anything that leaves the build graph alone (`Bench.Meanwhile`). When the
pass is over, the collector is stopped.

- **Under way** (`Underway`): the actions that were outstanding at the start are split into those
  that were taken and those that are left. Those that were taken are moved to their final state, or
  a unit of theirs is held.
- **Every task** is the next of the actions that are left, and ends as the tables told at the start
  (`Underway.step`). So a pass does not fail, and is over when all of them were taken.
- **In the end** (`Settled`): `pass_settles` says what has become of the actions, and what was
  counted.
-/

namespace SymbolAtlas

/-! ## Passes -/

namespace Bench

/-- Others leave the build graph, the units, the counts and the cursor alone, and no invalidated
transaction open. -/
structure Undisturbed (before after : Bench) : Prop where
  valid : before.database.refuses = false → after.database.refuses = false
  actions : after.database.store.actions = before.database.store.actions
  graph : before.database.store.SameGraph after.database.store
  collector : after.collector = before.collector
  tally : after.tally = before.tally
  cursor : after.cursor = before.cursor

/-- What may go on beside a pass: rounds of the collector, and whatever leaves the build graph
alone. -/
inductive Meanwhile (bench : Bench) : Bench → Prop where
  | refl : Meanwhile bench bench
  | round {now : Bench} : Meanwhile bench now → Meanwhile bench now.poll
  | other {now after : Bench} : Meanwhile bench now → now.Undisturbed after → Meanwhile bench after

/-- A round of the collector leaves the cursor. -/
theorem cursor_poll (bench : Bench) : bench.poll.cursor = bench.cursor := by
  refine poll_keeps (P := fun _ b => b.cursor = bench.cursor) (fun _ _ _ _ h => h)
    (fun _ _ _ _ h => h) (fun work _ b h => ?_) bench rfl
  rcases b.pollUnit_cases work with hcase | ⟨-, hcase⟩
  · rw [hcase]
    exact h
  · rw [hcase]
    exact h

theorem Meanwhile.frame {before after : Bench} (h : before.Meanwhile after) :
    after.cursor = before.cursor ∧ after.collector.phase = before.collector.phase := by
  induction h with
  | refl => exact ⟨rfl, rfl⟩
  | round _ ih =>
    rw [cursor_poll, phase_poll]
    exact ih
  | other _ hother ih =>
    rw [hother.cursor, hother.collector]
    exact ih

theorem Meanwhile.trans {before now after : Bench} (h : before.Meanwhile now)
    (h' : now.Meanwhile after) : before.Meanwhile after := by
  induction h' with
  | refl => exact h
  | round _ ih => exact .round ih
  | other _ hother ih => exact .other ih hother

end Bench

/-- Take a task into account. -/
def Pass.advance (total sources : Nat) (dispatched : Dispatched) (pass : Pass) : Pass :=
  { pass with
    summary := pass.summary.add dispatched
    progress := pass.progress ++ [(pass.current + sources, total)] }

/-- A pass has got so far, with parsers that leave the build graph alone: what is known of it, its
tasks in order, and the bench. -/
inductive Passing (settings : DispatchSettings) (start : Bench) : Pass → List Int → Bench → Prop
    where
  | begin : Passing settings start {} [] { start with cursor := none }
  | task {pass : Pass} {tasks : List Int} {bench after : Bench} {sources : Nat}
      {dispatched : Dispatched} : Passing settings start pass tasks bench →
      (passStep settings).run.run bench = (.ok (some (sources, dispatched)), after) →
      bench.database.store.SameGraph after.database.store →
      Passing settings start
        (pass.advance start.database.store.outstandingSources sources dispatched)
        (tasks ++ after.cursor.toList) after
  | meanwhile {pass : Pass} {tasks : List Int} {bench after : Bench} :
      Passing settings start pass tasks bench → bench.Meanwhile after →
      Passing settings start pass tasks after

/-- A pass has found no task any more. -/
def Passed (settings : DispatchSettings) (start : Bench) (pass : Pass) (tasks : List Int)
    (after : Bench) : Prop :=
  ∃ bench, Passing settings start pass tasks bench ∧
    (passStep settings).run.run bench = (.ok none, after)

/-! ## Actions that were taken -/

variable {start bench : Bench} {done rest : List ActionRow} {held others : List Unfinished}
  {work : Unfinished} {n : Nat}

/-- Of the actions that were taken, some are moved and the others have a unit that is held. What
was counted, together with the results of those units, is so much more than at the start. -/
structure Ongoing (start : Bench) (done : List ActionRow) (n : Nat) (held : List Unfinished)
    (bench : Bench) : Prop where
  moves : ∃ moved, bench.database.store.actions =
      (start.database.store.moved start.database.store.verdict moved).actions ∧
    (moved ++ held.map Unfinished.action).Perm (done.map ActionRow.id)
  parsed : ∀ work ∈ held, ∃ row ∈ done, row.id = work.action ∧
    start.database.store.verdict row = .parsed
  counts : bench.tally.total + (held.map fun work => work.results.length).sum =
    start.tally.total + n
  tracks : Tracks held bench
  graph : start.database.store.SameGraph bench.database.store
  valid : bench.database.refuses = false

/-- To move the action of a row to the state that it ends in is one move more. -/
theorem Store.actions_moved_cons {store now after : Store} {moved : List Int} {row : ActionRow}
    (hsound : store.Sound) (hrow : row ∈ store.created)
    (hnow : now.actions = (store.moved store.verdict moved).actions)
    (hafter : after.actions = (now.moved (fun _ => store.verdict row) [row.id]).actions) :
    after.actions = (store.moved store.verdict (row.id :: moved)).actions := by
  have hmoved := @Store.moved_moved store [row.id] moved store.verdict
    (fun _ => store.verdict row) store.verdict_ne_created fun row' hrow' hid _ => by
      rw [hsound.eq_of_id hrow' (List.mem_of_mem_filter hrow) (List.mem_singleton.mp hid)]
  rw [hafter]
  show now.actions.map _ = _
  rw [hnow]
  exact congrArg Store.actions hmoved

namespace Ongoing

theorem perm {held' : List Unfinished} (h : Ongoing start done n held bench)
    (hperm : held.Perm held') : Ongoing start done n held' bench where
  moves := by
    obtain ⟨moved, hactions, hdone⟩ := h.moves
    exact ⟨moved, hactions, ((hperm.map _).append_left moved).symm.trans hdone⟩
  parsed work hwork := h.parsed work (hperm.mem_iff.mpr hwork)
  counts := by
    rw [← (hperm.map fun work => work.results.length).sum_nat]
    exact h.counts
  tracks := h.tracks.perm hperm
  graph := h.graph
  valid := h.valid

theorem nodup_held (h : Ongoing start done n held bench)
    (hsound : start.database.store.Sound)
    (hcreated : start.database.store.created = done ++ rest) :
    (held.map Unfinished.action).Nodup := by
  obtain ⟨moved, -, hperm⟩ := h.moves
  have hdone := (List.pairwise_append.mp (hcreated ▸ hsound.created)).1
  have hnodup : (done.map ActionRow.id).Nodup :=
    List.pairwise_map.mpr (hdone.imp fun hlt => Int.ne_of_lt hlt)
  exact (List.nodup_append.mp (hperm.nodup_iff.mpr hnodup)).2.1

/-- A unit is let go: its action is marked, and its results are counted. -/
theorem finished {after : Bench} (h : Ongoing start done n (work :: others) bench)
    (hsound : start.database.store.Sound)
    (hcreated : start.database.store.created = done ++ rest)
    (hstore : after.database.store = bench.database.store.marked [work.action])
    (htotal : after.tally.total = bench.tally.total + work.results.length)
    (hcollector : after.collector = bench.collector.release work.action)
    (hvalid : after.database.refuses = false) : Ongoing start done n others after := by
  obtain ⟨moved, hactions, hperm⟩ := h.moves
  obtain ⟨row, hrow, hid, hparsed⟩ := h.parsed work (by simp)
  have hrow' : row ∈ start.database.store.created := hcreated ▸ List.mem_append_left _ hrow
  refine ⟨⟨row.id :: moved, ?_, ?_⟩, ?_, ?_, ?_, ?_, hvalid⟩
  · refine Store.actions_moved_cons hsound hrow' hactions ?_
    rw [hstore, hparsed, hid]
  · rw [hid]
    exact List.perm_middle.symm.trans hperm
  · exact fun other hother => h.parsed other (.tail _ hother)
  · have hcounts := h.counts
    rw [List.map_cons, List.sum_cons] at hcounts
    omega
  · exact h.tracks.finished (h.nodup_held hsound hcreated) hcollector
  · rw [hstore]
    exact ⟨h.graph.sources, h.graph.targets, h.graph.present⟩

theorem pollUnit (h : Ongoing start done n (work :: others) bench)
    (hsound : start.database.store.Sound)
    (hcreated : start.database.store.created = done ++ rest) :
    Ongoing start done n ((bench.pollUnit work).1.toList ++ others) (bench.pollUnit work).2 := by
  have haction := (Unfinished.poll_spec (.refl bench.channels) work).1
  have hlength := Unfinished.poll_length bench.channels work
  have htracks := h.tracks.pollUnit (h.nodup_held hsound hcreated)
  rcases bench.pollUnit_cases work with hcase | ⟨hnone, hcase⟩
  · rw [hcase] at htracks ⊢
    refine ⟨?_, ?_, ?_, htracks, h.graph, h.valid⟩
    · simpa [haction] using h.moves
    · intro other hother
      rcases List.mem_cons.mp hother with rfl | hother
      · rw [haction]
        exact h.parsed work (by simp)
      · exact h.parsed other (.tail _ hother)
    · have hcounts := h.counts
      simp only [Option.toList_some, List.singleton_append, List.map_cons, List.sum_cons,
        Tally.total_recordAll] at hcounts ⊢
      omega
  · rw [hcase]
    have hvalid : ({ bench with
        tally := bench.tally.recordAll (work.poll bench.channels).2 } : Bench).database.refuses =
          false := h.valid
    refine h.finished hsound hcreated ?_ ?_ ?_ (Bench.frame_finish hvalid).1
    · rw [Bench.store_finish hvalid, haction]
    · rw [hnone, List.length_nil] at hlength
      rw [Bench.tally_finish, Tally.total_addPartials, Tally.total_recordAll]
      omega
    · rw [Bench.collector_finish, haction]

/-- A collector that stops has waited for a result of a unit. -/
theorem take {left : Unfinished} {found : Resolved}
    (h : Ongoing start done n (work :: others) bench)
    (htake : work.takeNext bench.channels = some (found, left)) :
    Ongoing start done n (left :: others)
      { bench with tally := bench.tally.record found.1 found.2 } := by
  obtain ⟨haction, -, -, -, -, hlength⟩ := Unfinished.takeNext_spec htake (.refl _)
  refine ⟨?_, ?_, ?_, h.tracks.advance haction, h.graph, h.valid⟩
  · simpa [haction] using h.moves
  · refine List.forall_mem_cons.mpr ⟨?_, fun other hother => h.parsed other (.tail _ hother)⟩
    rw [haction]
    exact h.parsed work (.head _)
  · have hcounts := h.counts
    simp only [List.map_cons, List.sum_cons, Tally.total_record] at hcounts ⊢
    omega

/-- A unit without a result that is missing is finished. -/
theorem finish (h : Ongoing start done n (work :: others) bench) (hnone : work.results = [])
    (hsound : start.database.store.Sound)
    (hcreated : start.database.store.created = done ++ rest) :
    Ongoing start done n others (bench.finish work) := by
  refine h.finished hsound hcreated (Bench.store_finish h.valid) ?_ Bench.collector_finish
    (Bench.frame_finish h.valid).1
  rw [Bench.tally_finish, Tally.total_addPartials, hnone, List.length_nil, Nat.add_zero]

/-- The units are kept in other lists. -/
theorem lists {collector : Collector} (h : Ongoing start done n held bench)
    (hin : collector.inFlight = bench.collector.inFlight) :
    Ongoing start done n held { bench with collector } :=
  ⟨h.moves, h.parsed, h.counts, fun a => hin ▸ h.tracks a, h.graph, h.valid⟩

theorem undisturbed {after : Bench} (h : Ongoing start done n held bench)
    (hafter : bench.Undisturbed after) : Ongoing start done n held after where
  moves := by rw [hafter.actions]; exact h.moves
  parsed := h.parsed
  counts := by rw [hafter.tally]; exact h.counts
  tracks a := by rw [hafter.collector]; exact h.tracks a
  graph := h.graph.trans hafter.graph
  valid := hafter.valid h.valid

theorem meanwhile {after : Bench} (h : Ongoing start done n bench.collector.units bench)
    (hsound : start.database.store.Sound)
    (hcreated : start.database.store.created = done ++ rest) (hafter : bench.Meanwhile after) :
    Ongoing start done n after.collector.units after := by
  induction hafter with
  | refl => exact h
  | round _ ih =>
    exact Bench.poll_keeps (P := Ongoing start done n) (fun _ _ _ hperm h => h.perm hperm)
      (fun _ _ _ hin h => h.lists hin) (fun _ _ _ h => h.pollUnit hsound hcreated) _ ih
  | other _ hother ih =>
    rw [hother.collector]
    exact ih.undisturbed hother

/-- All along while the collector stops, and others leave the build graph alone. -/
theorem stopping {now : Bench} (h : Ongoing start done n bench.collector.units bench)
    (hsound : start.database.store.Sound)
    (hcreated : start.database.store.created = done ++ rest)
    (hnow : Bench.Stopping Bench.Undisturbed bench now) :
    Ongoing start done n now.collector.units now :=
  (hnow.keeps (P := Ongoing start done n) (fun _ _ _ hin h => h.lists hin)
    (fun _ _ _ _ _ htake h => h.take htake)
    (fun _ _ _ hnone h => h.finish hnone hsound hcreated)
    (fun _ _ hother => ⟨hother.collector, fun _ h => h.undisturbed hother⟩) h).1

/-- When the collector has stopped, no unit is held. -/
theorem stops {final : Bench} (h : Ongoing start done n bench.collector.units bench)
    (hsound : start.database.store.Sound)
    (hcreated : start.database.store.created = done ++ rest)
    (hfinal : Bench.Stops Bench.Undisturbed bench final) : Ongoing start done n [] final := by
  have hongoing := h.stopping hsound hcreated hfinal.1
  rwa [hfinal.units_eq_nil fun _ _ hother => hother.collector] at hongoing

end Ongoing

/-! ## Passes under way -/

variable {settings : DispatchSettings} {pass : Pass} {tasks : List Int}

/-- How far a pass has got: the actions that were taken, and those that are left. -/
structure Underway (settings : DispatchSettings) (start : Bench) (done rest : List ActionRow)
    (pass : Pass) (tasks : List Int) (bench : Bench) : Prop where
  created : start.database.store.created = done ++ rest
  tasks : tasks = done.map ActionRow.id
  summary : pass.summary =
    (done.map (start.database.store.fate settings)).foldl PassSummary.add {}
  progress : pass.progress =
    Pass.runningTotals (done.map fun row => start.database.store.sourceCount row.id)
      start.database.store.outstandingSources
  fault : pass.fault = none
  cursor : bench.cursor = done.getLast?.map ActionRow.id
  ongoing : Ongoing start done pass.summary.outcomes bench.collector.units bench
  accepts : bench.collector.phase ≠ .stopped

namespace Underway

theorem begin (hidle : start.Idle) :
    Underway settings start [] start.database.store.created {} [] { start with cursor := none }
    where
  created := rfl
  tasks := rfl
  summary := rfl
  progress := rfl
  fault := rfl
  cursor := rfl
  ongoing := by
    rw [hidle.units]
    refine ⟨⟨[], ?_, .refl _⟩, by simp, rfl, fun a => ?_, .refl _, hidle.valid⟩
    · rw [Store.moved_nil]
    · simp [hidle.inFlight]
  accepts := hidle.accepts

theorem meanwhile {after : Bench} (h : Underway settings start done rest pass tasks bench)
    (hsound : start.database.store.Sound) (hafter : bench.Meanwhile after) :
    Underway settings start done rest pass tasks after := by
  obtain ⟨hcursor, hphase⟩ := hafter.frame
  exact ⟨h.created, h.tasks, h.summary, h.progress, h.fault, hcursor ▸ h.cursor,
    h.ongoing.meanwhile hsound h.created hafter, hphase ▸ h.accepts⟩

/-- A task was taken: what is known of the pass afterwards. -/
theorem advance {row : ActionRow} {after : Bench}
    (h : Underway settings start done (row :: rest) pass tasks bench)
    (hcursor : after.cursor = some row.id)
    (hongoing : Ongoing start (done ++ [row])
      (pass.summary.outcomes + (start.database.store.fate settings row).outcomes)
      after.collector.units after)
    (haccepts : after.collector.phase ≠ .stopped) :
    Underway settings start (done ++ [row]) rest
      (pass.advance start.database.store.outstandingSources
        (start.database.store.sourceCount row.id) (start.database.store.fate settings row))
      (tasks ++ after.cursor.toList) after where
  created := by rw [h.created, List.append_assoc]; rfl
  tasks := by rw [h.tasks, hcursor, List.map_append]; rfl
  summary := by
    rw [List.map_append, List.foldl_append, ← h.summary]
    rfl
  progress := by
    rw [List.map_append, List.map_singleton, Pass.runningTotals_concat, ← h.progress,
      Pass.advance, Pass.current_runningTotals h.progress]
  fault := h.fault
  cursor := by simp [hcursor]
  ongoing := by
    rw [Pass.advance, PassSummary.outcomes_add]
    exact hongoing
  accepts := haccepts

/-- The next task is that of the first action that is left. -/
theorem next {row : ActionRow} (h : Underway settings start done (row :: rest) pass tasks bench)
    (hsound : start.database.store.Sound) :
    ∃ action : BuildAction, action.id = row.id ∧ (action.kind = .link ↔ row.isLink = true) ∧
      bench.database.store.nextOutstanding bench.cursor = .ok (some action) ∧
      action.id ∉ bench.collector.inFlight := by
  have hmem : row ∈ start.database.store.created := by rw [h.created]; simp
  obtain ⟨hrow, hstate⟩ := List.mem_filter.mp hmem
  rw [decide_eq_true_eq] at hstate
  obtain ⟨kind, hkind⟩ := hsound.kinds row hrow hstate
  obtain ⟨moved, hactions, hperm⟩ := h.ongoing.moves
  have hread : row.read = .ok ⟨row.id, kind, .created, row.label, row.project⟩ := by
    have hcreated : Worded.parse? Store.createdWord = some ActionState.created := by decide
    rw [ActionRow.read, hkind, hstate, hcreated]
  have hnext : bench.database.store.nextRow? bench.cursor = some row := by
    rw [h.cursor]
    exact Store.nextRow?_moved hsound h.created
      (fun a ha => hperm.mem_iff.mp (List.mem_append_left _ ha)) hactions
  refine ⟨⟨row.id, kind, .created, row.label, row.project⟩, rfl, ?_, ?_, fun hin => ?_⟩
  · rw [ActionRow.isLink, hkind, beq_iff_eq, Option.some.injEq]
  · rw [Store.nextOutstanding_eq, hnext]
    show row.read.map some = _
    rw [hread]
    rfl
  · -- what is in flight was taken, and comes before
    have htaken : row.id ∈ done.map ActionRow.id :=
      hperm.mem_iff.mp (List.mem_append_right _ ((h.ongoing.tracks _).mp hin))
    obtain ⟨row', hrow', hid⟩ := List.mem_map.mp htaken
    have hlt := (List.pairwise_append.mp (h.created ▸ hsound.created)).2.2 row' hrow' row (by simp)
    omega

/-- The units that are held are still those of actions that were taken. -/
theorem parsed {row : ActionRow} (h : Underway settings start done (row :: rest) pass tasks bench) :
    ∀ work ∈ bench.collector.units, ∃ taken ∈ done ++ [row], taken.id = work.action ∧
      start.database.store.verdict taken = .parsed := by
  intro work hwork
  obtain ⟨taken, htaken, hid, hparsed⟩ := h.ongoing.parsed work hwork
  exact ⟨taken, List.mem_append_left _ htaken, hid, hparsed⟩

/-- The task was done at once. -/
theorem moved {row : ActionRow} {after : Bench}
    (h : Underway settings start done (row :: rest) pass tasks bench)
    (hsound : start.database.store.Sound) (outcome : Outcome)
    (hstore : after.database.store =
      bench.database.store.moved (fun _ => start.database.store.verdict row) [row.id])
    (hleaves : after.Leaves row.id (bench.tally.record none outcome) bench.collector) :
    Ongoing start (done ++ [row]) (pass.summary.outcomes + 1) after.collector.units after := by
  have hmem : row ∈ start.database.store.created := by rw [h.created]; simp
  obtain ⟨moved, hactions, hperm⟩ := h.ongoing.moves
  rw [hleaves.collector]
  refine ⟨⟨row.id :: moved, ?_, ?_⟩, h.parsed, ?_, ?_, ?_, hleaves.valid⟩
  · exact Store.actions_moved_cons hsound hmem hactions (congrArg Store.actions hstore)
  · rw [List.map_append, List.map_singleton]
    exact (hperm.cons row.id).trans (List.perm_append_singleton _ _).symm
  · have hcounts := h.ongoing.counts
    rw [hleaves.tally, Tally.total_record]
    omega
  · intro a
    rw [hleaves.collector]
    exact h.ongoing.tracks a
  · rw [hstore]
    exact ⟨h.ongoing.graph.sources, h.ongoing.graph.targets, h.ongoing.graph.present⟩

/-- The task was handed over, by parsers that left the build graph alone. -/
theorem queued {row : ActionRow} {after : Bench} {results : List PendingResult}
    (h : Underway settings start done (row :: rest) pass tasks bench)
    (hparsed : start.database.store.verdict row = .parsed)
    (hactions : after.database.store.actions = bench.database.store.actions)
    (hgraph : bench.database.store.SameGraph after.database.store)
    (hleaves : after.Leaves row.id bench.tally
      (bench.collector.queue { action := row.id, results })) :
    Ongoing start (done ++ [row]) (pass.summary.outcomes + results.length) after.collector.units
      after := by
  obtain ⟨moved, hmoved, hperm⟩ := h.ongoing.moves
  obtain ⟨hunits, hin, -⟩ := Collector.queue_spec h.accepts { action := row.id, results }
  rw [hleaves.collector, hunits]
  refine ⟨⟨moved, hactions.trans hmoved, ?_⟩, ?_, ?_, ?_, h.ongoing.graph.trans hgraph,
    hleaves.valid⟩
  · rw [List.map_append, List.map_append, ← List.append_assoc]
    exact hperm.append_right _
  · intro work hwork
    rcases List.mem_append.mp hwork with hwork | hwork
    · exact h.parsed work hwork
    · rw [List.mem_singleton.mp hwork]
      exact ⟨row, by simp, rfl, hparsed⟩
  · have hcounts := h.ongoing.counts
    rw [hleaves.tally, List.map_append, List.sum_append, List.map_singleton, List.sum_singleton]
    dsimp only
    omega
  · intro a
    rw [hleaves.collector]
    exact h.ongoing.tracks.add h.accepts { action := row.id, results } a

/-- One step of a pass takes the first action that is left, and does with it what the tables told at
the start. The pass is under way afterwards if the parsers left the build graph alone. -/
theorem step {row : ActionRow} (h : Underway settings start done (row :: rest) pass tasks bench)
    (hsound : start.database.store.Sound) (hanswers : settings.registry.Answers) :
    ∃ after, (passStep settings).run.run bench =
        (.ok (some (start.database.store.sourceCount row.id,
          start.database.store.fate settings row)), after) ∧
      (bench.database.store.SameGraph after.database.store →
        Underway settings start (done ++ [row]) rest
        (pass.advance start.database.store.outstandingSources
          (start.database.store.sourceCount row.id) (start.database.store.fate settings row))
        (tasks ++ after.cursor.toList) after) := by
  obtain ⟨action, hid, hlink, hnext, hfree⟩ := h.next hsound
  have hends := @passStep_of_next settings bench action h.ongoing.valid hnext hfree
  have hsources : (Task.of settings bench.database.store action).pairs.length =
      start.database.store.sourceCount row.id := by
    rw [Task.length_pairs_of, h.ongoing.graph.sourceCount, hid]
  have hlacks : ((Task.of settings bench.database.store action).pairs.any fun pair =>
      pair.source.isNone) = start.database.store.lacksSource row.id := by
    rw [Task.any_pairs_of, h.ongoing.graph.lacksSource, hid]
  rcases hrun : (passStep settings).run.run bench with ⟨result, after⟩
  rw [hrun] at hends
  cases hends with
  | linked hkind hstore hleaves hcalls =>
    have hisLink := hlink.mp hkind
    have hfate : start.database.store.fate settings row = .linked := by
      rw [Store.fate, if_pos hisLink]
    have hverdict : start.database.store.verdict row = .parsed := by
      rw [Store.verdict, hisLink]
      rfl
    refine ⟨after, by rw [hsources, hfate], fun _ => h.advance (hid ▸ hleaves.cursor) ?_ ?_⟩
    · rw [hfate]
      refine h.moved hsound .success ?_ (hid ▸ hleaves)
      rw [hverdict, ← hid]
      exact hstore
    · rw [hleaves.collector]
      exact h.accepts
  | skipped hkind hmissing hstore hleaves hcalls =>
    have hisLink : row.isLink = false := by
      rw [← Bool.not_eq_true, ← hlink]
      exact hkind
    rw [hlacks] at hmissing
    have hfate : start.database.store.fate settings row = .skipped := by
      simp [Store.fate, hisLink, hmissing]
    have hverdict : start.database.store.verdict row = .skipped := by
      simp [Store.verdict, hisLink, hmissing]
    refine ⟨after, by rw [hsources, hfate], fun _ => h.advance (hid ▸ hleaves.cursor) ?_ ?_⟩
    · rw [hfate]
      refine h.moved hsound .fail ?_ (hid ▸ hleaves)
      rw [hverdict, ← hid]
      exact hstore
    · rw [hleaves.collector]
      exact h.accepts
  | queued hkind hmissing hlength hstore hleaves hcalls =>
    have hisLink : row.isLink = false := by
      rw [← Bool.not_eq_true, ← hlink]
      exact hkind
    rw [hlacks] at hmissing
    have hcount := hlength hanswers
    rw [Task.resultCount_of, h.ongoing.graph.resultCount, hid] at hcount
    have hfate : start.database.store.fate settings row =
        .queued (start.database.store.resultCount settings row.id) := by
      simp [Store.fate, hisLink, hmissing]
    have hverdict : start.database.store.verdict row = .parsed := by
      simp [Store.verdict, hmissing]
    refine ⟨after, by rw [hsources, hfate, hcount],
      fun hgraph => h.advance (hid ▸ hleaves.cursor) ?_ ?_⟩
    · rw [hfate, ← hcount]
      refine h.queued hverdict (Registry.extends_acts hstore).actions hgraph ?_
      rw [← hid]
      exact hleaves
    · rw [hleaves.collector, (Collector.queue_spec h.accepts _).2.2]
      exact h.accepts
  | failed hcrash _ _ _ _ => exact absurd hanswers hcrash

/-- When no action is left, a pass finds no task. -/
theorem exhausted (h : Underway settings start done [] pass tasks bench)
    (hsound : start.database.store.Sound) :
    ((passStep settings).run.run bench).1 = .ok none ∧
      Ongoing start done pass.summary.outcomes
        ((passStep settings).run.run bench).2.collector.units
        ((passStep settings).run.run bench).2 := by
  obtain ⟨moved, hactions, hperm⟩ := h.ongoing.moves
  have hnext : bench.database.store.nextOutstanding bench.cursor = .ok none := by
    rw [Store.nextOutstanding_eq, h.cursor, Store.nextRow?_moved hsound h.created
      (fun a ha => hperm.mem_iff.mp (List.mem_append_left _ ha)) hactions]
    rfl
  obtain ⟨hresult, hunmoved⟩ := @passStep_of_none settings bench h.ongoing.valid hnext
  refine ⟨hresult, ?_⟩
  rw [hunmoved.collector]
  refine ⟨⟨moved, by rw [hunmoved.store]; exact hactions, hperm⟩, h.ongoing.parsed, ?_, ?_, ?_,
    hunmoved.valid h.ongoing.valid⟩
  · rw [hunmoved.tally]
    exact h.ongoing.counts
  · intro a
    rw [hunmoved.collector]
    exact h.ongoing.tracks a
  · rw [hunmoved.store]
    exact h.ongoing.graph

end Underway

/-- Every pass gets on in this way. -/
theorem Passing.underway (hpassing : Passing settings start pass tasks bench)
    (hsound : start.database.store.Sound) (hidle : start.Idle)
    (hanswers : settings.registry.Answers) :
    ∃ done rest, Underway settings start done rest pass tasks bench := by
  induction hpassing with
  | begin => exact ⟨_, _, .begin hidle⟩
  | meanwhile _ hmeanwhile ih =>
    obtain ⟨done, rest, hunderway⟩ := ih
    exact ⟨done, rest, hunderway.meanwhile hsound hmeanwhile⟩
  | task _ hrun hgraph ih =>
    obtain ⟨done, _ | ⟨row, rest⟩, hunderway⟩ := ih
    · have hover := (hunderway.exhausted hsound).1
      rw [hrun] at hover
      cases hover
    · obtain ⟨after, hstep, hafter⟩ := hunderway.step hsound hanswers
      rw [hrun] at hstep
      cases hstep
      exact ⟨_, _, hafter hgraph⟩

/-! ## The end of a pass -/

/-- What a pass over a store has done, when the collector is stopped after it. -/
structure Settled (settings : DispatchSettings) (store : Store) (tally : Tally) (pass : Pass)
    (tasks : List Int) (final : Bench) : Prop where
  /-- the pass did not fail -/
  fault : pass.fault = none
  /-- outstanding actions are skipped or parsed, and the others are left alone -/
  actions : final.database.store.actions = store.actions.map fun row =>
    if row.state = Store.createdWord then { row with state := Worded.word (store.verdict row) }
    else row
  sources : final.database.store.sources = store.sources
  targets : final.database.store.targets = store.targets
  inFlight : final.collector.inFlight = []
  /-- outstanding actions are taken in the order of their identities -/
  tasks : tasks = store.created.map ActionRow.id ∧ tasks.Pairwise (· < ·)
  taskCount : pass.summary.tasks = store.created.length
  links : pass.summary.links = store.created.countP ActionRow.isLink
  skipped : pass.summary.skipped =
    store.created.countP fun row => !row.isLink && store.lacksSource row.id
  dispatched : pass.summary.dispatched =
    ((store.created.filter fun row => !row.isLink && !store.lacksSource row.id).map fun row =>
      store.resultCount settings row.id).sum
  /-- every link, every skipped action and every result is counted once -/
  counts : final.tally.total =
    tally.total + (pass.summary.links + pass.summary.skipped + pass.summary.dispatched)
  /-- after each task, its sources are added to those so far -/
  progress : pass.progress =
    Pass.runningTotals (store.created.map fun row => store.sourceCount row.id)
      store.outstandingSources
  ascending : (pass.progress.map Prod.fst).Pairwise (· ≤ ·)
  complete : store.created ≠ [] →
    pass.progress.getLast? = some (store.outstandingSources, store.outstandingSources)

/-- When all actions were taken and no unit is held, everything is settled. -/
theorem Underway.settled {final : Bench} (h : Underway settings start done [] pass tasks bench)
    (hsound : start.database.store.Sound)
    (hfinal : Ongoing start done pass.summary.outcomes [] final) :
    Settled settings start.database.store start.tally pass tasks final := by
  have hdone : done = start.database.store.created := by rw [h.created, List.append_nil]
  obtain ⟨moved, hactions, hperm⟩ := hfinal.moves
  rw [List.map_nil, List.append_nil] at hperm
  have hsummary := h.summary
  rw [PassSummary.foldl_add, hdone] at hsummary
  refine ⟨h.fault, ?_, hfinal.graph.sources, hfinal.graph.targets, ?_, ?_, ?_, ?_, ?_, ?_, ?_, ?_,
    ?_, ?_⟩
  · rw [hactions, Store.moved]
    refine List.map_congr_left fun row hrow => ?_
    by_cases hstate : row.state = Store.createdWord
    · have hmem : row ∈ done := by simp [hdone, Store.created, hrow, hstate]
      rw [if_pos hstate, Store.movedRow,
        if_pos ⟨hperm.mem_iff.mpr (List.mem_map_of_mem hmem), hstate⟩]
    · rw [if_neg hstate, Store.movedRow, if_neg fun hm => hstate hm.2]
  · exact List.eq_nil_iff_forall_not_mem.mpr fun a ha =>
      List.not_mem_nil ((hfinal.tracks a).mp ha)
  · rw [h.tasks, hdone]
    exact ⟨rfl, List.pairwise_map.mpr hsound.created⟩
  · simp [hsummary]
  · simp [hsummary]
  · simp [hsummary]
  · simp [hsummary]
  · exact hfinal.counts
  · rw [h.progress, hdone]
  · rw [h.progress]
    exact Pass.runningTotals_ascending _ _
  · intro hsome
    rw [h.progress, hdone, Pass.getLast?_runningTotals (by simpa using hsome),
      ← Store.outstandingSources_eq]

/-! ## Passes with index jobs in the background -/

namespace Store

/-- The sources of actions are files that have, or had, a row. -/
def LinksKnown (store : Store) : Prop := ∀ link ∈ store.sources, link.file < store.nextFile

/-- Files that are added do not take the place of sources whose row is gone. -/
theorem Extends.sameGraph {before after : Store} (h : Extends before after)
    (hknown : before.LinksKnown) : SameGraph before after where
  sources := h.sources
  targets := h.targets
  present link hlink := by
    obtain ⟨new, hfiles, hnew⟩ := h.files
    have hnone : new.find? (fun file => file.id = link.file) = none := by
      refine List.find?_eq_none.mpr fun file hfile hid => ?_
      have hlt := hknown link hlink
      have hle := hnew file hfile
      rw [decide_eq_true_eq] at hid
      omega
    rw [file?, hfiles, List.find?_append, hnone, Option.or_none]
    rfl

theorem Extends.linksKnown {before after : Store} (h : Extends before after)
    (hknown : before.LinksKnown) : after.LinksKnown := by
  intro link hlink
  rw [h.sources] at hlink
  exact Int.lt_of_lt_of_le (hknown link hlink) h.nextFile

end Store

namespace Bench

theorem linksKnown_poll (hvalid : bench.database.refuses = false)
    (h : bench.database.store.LinksKnown) : bench.poll.database.store.LinksKnown := by
  refine (poll_keeps (P := fun _ b => b.database.refuses = false ∧ b.database.store.LinksKnown)
    (fun _ _ _ _ h => h) (fun _ _ _ _ h => h) (fun work _ b h => ?_) bench ⟨hvalid, h⟩).2
  rcases b.pollUnit_cases work with hcase | ⟨-, hcase⟩
  · rw [hcase]
    exact h
  · have hready : ({ b with
        tally := b.tally.recordAll (work.poll b.channels).2 } : Bench).database.refuses = false :=
      h.1
    rw [hcase]
    refine ⟨(frame_finish hready).1, ?_⟩
    rw [store_finish hready]
    exact h.2

/-- A step of a pass leaves the build graph alone if sources are known files. -/
theorem graph_passStep (h : bench.database.store.LinksKnown) :
    bench.database.store.SameGraph ((passStep settings).run.run bench).2.database.store ∧
      ((passStep settings).run.run bench).2.database.store.LinksKnown := by
  rcases passStep_cases settings bench with ⟨task, -, hends⟩ | ⟨-, hunmoved⟩
  · obtain ⟨state, actions, -, hextends⟩ := hends.extends
    have hmoved : (bench.database.store.moved (fun _ => state) actions).LinksKnown := h
    have hgraph := hextends.sameGraph hmoved
    exact ⟨⟨hgraph.sources, hgraph.targets, hgraph.present⟩, hextends.linksKnown hmoved⟩
  · rw [hunmoved.store]
    exact ⟨.refl _, h⟩

/-- What goes on in the background of a pass may go on beside it. -/
theorem meanwhile_settle (tree : FileTree) (hvalid : bench.database.refuses = false)
    (hknown : bench.database.store.LinksKnown) :
    bench.Meanwhile (bench.settle tree) ∧ (bench.settle tree).database.store.LinksKnown := by
  have hunseen := bench.unseen_runJobs Source.extract tree
  have hjobs : bench.Meanwhile (bench.runJobs Source.extract tree) :=
    .other .refl ⟨fun hdb => hunseen.refuses.trans hdb, hunseen.store.actions,
      hunseen.store.sameGraph hknown, hunseen.collector, hunseen.tally, hunseen.cursor⟩
  have hlinks := hunseen.store.linksKnown hknown
  dsimp only [settle]
  split
  · exact ⟨.round hjobs, linksKnown_poll (hunseen.refuses.trans hvalid) hlinks⟩
  · exact ⟨hjobs, hlinks⟩
  · exact ⟨hjobs, hlinks⟩
  · exact ⟨hjobs, hlinks⟩

end Bench

/-- A pass gets to its end: there are more steps than actions that are left. -/
theorem Underway.passWithin {done rest : List ActionRow} {pass : Pass} {tasks : List Int}
    {bench : Bench} {n : Nat} (h : Underway settings start done rest pass tasks bench)
    (hpassing : Passing settings start pass tasks bench) (hsound : start.database.store.Sound)
    (hanswers : settings.registry.Answers) (hknown : bench.database.store.LinksKnown)
    (tree : FileTree) (hn : rest.length < n) :
    ∃ tasks' ended,
      Passed settings start (passWithin settings tree start.database.store.outstandingSources n
        pass bench).1 tasks' ended ∧
      ended.Meanwhile (passWithin settings tree start.database.store.outstandingSources n
        pass bench).2 := by
  induction n generalizing done rest pass tasks bench with
  | zero => cases hn
  | succ n ih =>
    obtain ⟨hgraph, hlinks⟩ := @Bench.graph_passStep bench settings hknown
    simp only [SymbolAtlas.passWithin]
    cases rest with
    | nil =>
      obtain ⟨hover, hended⟩ := h.exhausted hsound
      rcases hrun : (passStep settings).run.run bench with ⟨result, after⟩
      rw [hrun] at hover hlinks hended
      cases hover
      exact ⟨tasks, after, ⟨bench, hpassing, hrun⟩,
        (Bench.meanwhile_settle tree hended.valid hlinks).1⟩
    | cons row rest =>
      obtain ⟨after, hrun, hafter⟩ := h.step hsound hanswers
      rw [hrun] at hgraph hlinks ⊢
      have hunderway := hafter hgraph
      obtain ⟨hsettle, hsettled⟩ := Bench.meanwhile_settle tree hunderway.ongoing.valid hlinks
      exact ih (hunderway.meanwhile hsound hsettle)
        ((hpassing.task hrun hgraph).meanwhile hsettle) hsettled (Nat.lt_of_succ_lt_succ hn)

/-- A whole pass over a sound store, with nothing in flight and parsers that answer and leave the
build graph alone.

Whatever goes on beside it, a pass that has found no task any more and is followed by a stop of the
collector has settled everything once the collector has stopped, whatever goes on beside that. The
collector comes to its end as soon as every channel is resolved or abandoned. On the way no step of
the pass fails, and there are at most as many tasks as outstanding actions, so that every pass gets
there. If sources are known files, the build graph is left alone by all parsers and by index jobs as
well, and a pass with them in the background is such a pass. -/
theorem pass_settles (hsound : start.database.store.Sound) (hidle : start.Idle)
    (hanswers : settings.registry.Answers) :
    (∀ pass tasks ended final, Passed settings start pass tasks ended → ended.Meanwhile final →
      ∀ stopped, Bench.Stops Bench.Undisturbed final stopped →
        Settled settings start.database.store start.tally pass tasks stopped) ∧
    (∀ final now, Bench.Stopping Bench.Undisturbed final now → now.channels.NoneWaiting →
      Bench.Stops Bench.Undisturbed final (now.stopWithin now.collector.stepsLeft)) ∧
    (∀ pass tasks now, Passing settings start pass tasks now →
      tasks.length ≤ start.database.store.created.length ∧
      ∃ taken, ((passStep settings).run.run now).1 = .ok taken) ∧
    ∀ tree, start.database.store.LinksKnown → ∃ tasks, ∀ final stopped,
      (runPass settings tree start).2.Meanwhile final →
      Bench.Stops Bench.Undisturbed final stopped →
      Settled settings start.database.store start.tally (runPass settings tree start).1 tasks
        stopped := by
  have hall : ∀ pass tasks ended final, Passed settings start pass tasks ended →
      ended.Meanwhile final → ∀ stopped, Bench.Stops Bench.Undisturbed final stopped →
      Settled settings start.database.store start.tally pass tasks stopped := by
    rintro pass tasks ended final ⟨bench, hpassing, hrun⟩ hmeanwhile stopped hstops
    obtain ⟨done, _ | ⟨row, rest⟩, hunderway⟩ := hpassing.underway hsound hidle hanswers
    · have hended := (hunderway.exhausted hsound).2
      rw [hrun] at hended
      exact hunderway.settled hsound
        ((hended.meanwhile hsound hunderway.created hmeanwhile).stops hsound hunderway.created
          hstops)
    · obtain ⟨after, hstep, -⟩ := hunderway.step hsound hanswers
      rw [hrun] at hstep
      cases hstep
  refine ⟨hall, fun final now hstopping hnone => hstopping.stops
      (fun _ _ hother => hother.collector) hnone, fun pass tasks now hpassing => ?_,
    fun tree hknown => ?_⟩
  · obtain ⟨done, rest, hunderway⟩ := hpassing.underway hsound hidle hanswers
    refine ⟨?_, ?_⟩
    · rw [hunderway.tasks, hunderway.created, List.length_map, List.length_append]
      exact Nat.le_add_right _ _
    · cases rest with
      | nil => exact ⟨_, (hunderway.exhausted hsound).1⟩
      | cons row rest =>
        obtain ⟨after, hstep, -⟩ := hunderway.step hsound hanswers
        exact ⟨_, by rw [hstep]⟩
  · have hlength : start.database.store.created.length <
        start.database.store.actions.length + 1 :=
      Nat.lt_succ_of_le (List.length_filter_le _ _)
    have hbegin : Underway settings start [] _ {} [] _ := .begin hidle
    obtain ⟨tasks, ended, hpassed, hended⟩ :=
      hbegin.passWithin .begin hsound hanswers hknown tree hlength
    exact ⟨tasks, fun final stopped hfinal => hall _ _ _ _ hpassed (hended.trans hfinal) stopped⟩

/-- A parser that is done at once. -/
def promptSettings : DispatchSettings where
  registry.parsers := [.plugin {
    name := "prompt"
    accepts := fun _ => true
    parse := fun view _ _ _ _ => (some (.ready .success), { memory := view.memory }) }]

/-- A link, an action with two sources, and one whose only source has no row any more. -/
def mixedStore : Store :=
  let store := (({} : Store).insertAction .link "ld" "p").2
  let store := (store.insertAction .compile "cc a.c b.c" "p").2
  let store := (store.insertAction .interpret "sh c.sh" "p").2
  { store with
    files := [⟨1, "a.c", some "c"⟩, ⟨2, "b.c", some "c"⟩]
    nextFile := 4
    sources := [⟨2, 1, 0⟩, ⟨3, 3, 0⟩, ⟨2, 2, 1⟩] }

def mixedBench : Bench where
  database := ⟨mixedStore, {}, 0, false⟩
  collector := { phase := .running }

theorem pass_settles_mixed :
    mixedStore.Sound ∧ mixedStore.LinksKnown ∧ mixedBench.Idle ∧
    promptSettings.registry.Answers ∧
    ∃ pass final stopped, runPass promptSettings ⟨.directory [], "/"⟩ mixedBench = (pass, final) ∧
      Bench.Stops Bench.Undisturbed final stopped ∧
      Settled promptSettings mixedStore {} pass [1, 2, 3] stopped ∧
      pass.summary.tasks = 3 ∧ pass.summary.links = 1 ∧ pass.summary.skipped = 1 ∧
      pass.summary.dispatched = 2 ∧ pass.progress = [(0, 3), (2, 3), (3, 3)] := by
  have hempty : ({} : Store).Sound := ⟨.nil, by simp⟩
  obtain ⟨hlink, hnext⟩ := hempty.insertAction (by simp) .link "ld" "p"
  obtain ⟨hcompile, hnext⟩ := hlink.insertAction hnext .compile "cc a.c b.c" "p"
  have hrecorded := (hcompile.insertAction hnext .interpret "sh c.sh" "p").1
  have hsound : mixedStore.Sound := ⟨hrecorded.ascending, hrecorded.kinds⟩
  have hknown : mixedStore.LinksKnown := by unfold Store.LinksKnown; decide
  have hidle : mixedBench.Idle := ⟨rfl, rfl, by decide, rfl⟩
  have hanswers : promptSettings.registry.Answers := by
    intro parser hparser
    obtain rfl := List.mem_singleton.mp (List.mem_of_mem_filter hparser)
    exact ⟨by simp, by simp⟩
  obtain ⟨-, hends, -, hpass⟩ := @pass_settles mixedBench promptSettings hsound hidle hanswers
  obtain ⟨tasks, hfinal⟩ := hpass ⟨.directory [], "/"⟩ hknown
  rcases hrun : runPass promptSettings ⟨.directory [], "/"⟩ mixedBench with ⟨pass, final⟩
  rw [hrun] at hfinal
  -- while the collector stops, whoever still produces goes away
  have hdropped : Bench.Stopping Bench.Undisturbed final final.beginStop.dropProducers :=
    .meanwhile .begin ⟨id, rfl, .refl _, rfl, rfl, rfl⟩
  have hstops := hends final _ hdropped (Channels.noneWaiting_dropAll _)
  have hsettled := hfinal final _ .refl hstops
  have htasks : tasks = [1, 2, 3] := hsettled.tasks.1.trans (by decide)
  exact ⟨hsound, hknown, hidle, hanswers, pass, final, _, rfl, hstops, htasks ▸ hsettled,
    hsettled.taskCount.trans (by decide), hsettled.links.trans (by decide),
    hsettled.skipped.trans (by decide), hsettled.dispatched.trans (by decide),
    hsettled.progress.trans (by decide)⟩

end SymbolAtlas
