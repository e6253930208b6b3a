import SymbolAtlas.Dispatch.Bench
import SymbolAtlas.Proofs.Dispatch.Tally
import SymbolAtlas.Proofs.Outcome.Handle
import SymbolAtlas.Proofs.Store.Database

/-!
# Units of work

What happens to a unit between its hand-over and its end, and to the bench meanwhile.

- **Outcomes** (`Unfinished.outcomes`): what the results of a unit come to. A poll takes some of
  them and leaves the others (`Unfinished.poll_spec`), and neither what the unit comes to nor
  whether it ends as partial (`Unfinished.endsPartial`) depends on when it is polled.
- **Moves** (`Store.moved`): the store with some of its outstanding actions moved to a final state.
  Finishing a unit moves its action to parsed and does nothing else to the store (`store_finish`).
- **Conclusions** (`Bench.conclude`): to process a unit counts what its results come to and finishes
  it, once they are all there (`Bench.process_eq`).
- **Rounds** (`poll_keeps`): a property of the units that are held and of the bench, for which the
  order of the units does not matter, holds after a round of the collector if polling one unit keeps
  it.
-/

namespace SymbolAtlas

/-! ## Outcomes -/

/-- What a result counts as in the end, with its language. -/
def PendingResult.outcome (channels : Channels) (result : PendingResult) : Resolved :=
  (result.language, Unfinished.countedAs (result.handle.value channels))

namespace Unfinished

variable {channels later : Channels} {work : Unfinished}

/-- What the results of a unit come to. -/
def outcomes (channels : Channels) (work : Unfinished) : List Resolved :=
  work.results.map (PendingResult.outcome channels)

/-- All results of a unit are there. -/
def resolved (channels : Channels) (work : Unfinished) : Bool :=
  work.results.all fun result => result.handle.resolved channels

/-- In the end, the unit has both successes and failures. -/
def endsPartial (channels : Channels) (work : Unfinished) : Bool :=
  0 < work.succeeded + (work.outcomes channels).countP (fun r => r.2 = .success) &&
    0 < work.failed + (work.outcomes channels).countP (fun r => r.2 = .fail)

/-- From the time when all results are there, what they come to does not change. -/
theorem outcomes_eq_of_resolved (hl : channels.Leads later) (hr : work.resolved channels = true) :
    work.outcomes later = work.outcomes channels := by
  refine List.map_congr_left fun result hresult => ?_
  have := List.all_eq_true.mp hr result hresult
  rw [PendingResult.outcome, PendingResult.outcome, Handle.value_eq_of_resolved hl _ this]

theorem resolved_of_leads (hl : channels.Leads later) (hr : work.resolved channels = true) :
    work.resolved later = true := by
  refine List.all_eq_true.mpr fun result hresult => ?_
  exact Handle.resolved_of_leads hl _ (List.all_eq_true.mp hr result hresult)

theorem resolved_of_noneWaiting (hnone : channels.NoneWaiting) (work : Unfinished) :
    work.resolved channels = true :=
  List.all_eq_true.mpr fun _ _ => Handle.resolved_of_noneWaiting hnone _

theorem endsPartial_eq_of_outcomes (h : work.outcomes later = work.outcomes channels) :
    work.endsPartial later = work.endsPartial channels := by
  rw [endsPartial, endsPartial, h]

/-- Of the results that are asked, those that answer give what they come to in the end, and the
others stand for themselves. -/
theorem askAll_spec (hl : channels.Leads later) (results : List PendingResult) :
    (results.map (PendingResult.outcome later)).Perm
        ((askAll channels results).2 ++
          (askAll channels results).1.map (PendingResult.outcome later)) ∧
      ((askAll channels results).1.all fun result => result.handle.resolved later) =
        (results.all fun result => result.handle.resolved later) := by
  induction results with
  | nil => exact ⟨.refl _, rfl⟩
  | cons result rest ih =>
    obtain ⟨hperm, hresolved⟩ := ih
    simp only [askAll, List.map_cons, List.all_cons]
    rcases hpoll : result.handle.poll channels with ⟨handle, _ | answer⟩
    · obtain ⟨-, hstands⟩ := Handle.poll_pending_spec hpoll
      have hsame : PendingResult.outcome later { result with handle } =
          PendingResult.outcome later result := by
        rw [PendingResult.outcome, PendingResult.outcome, hstands.value later hl]
      simp only [List.map_cons, List.all_cons, hsame, hstands.resolved later hl, hresolved]
      exact ⟨(hperm.cons _).trans List.perm_middle.symm, trivial⟩
    · obtain ⟨hres, hvalue⟩ := Handle.poll_done_spec hpoll
      have hsame : PendingResult.outcome later result = (result.language, countedAs answer) := by
        rw [PendingResult.outcome, Handle.value_eq_of_resolved hl _ hres, hvalue]
      rw [hsame, Handle.resolved_of_leads hl _ hres, hresolved]
      exact ⟨hperm.cons _, by simp⟩

/-- Outcomes only add to what a unit has counted. -/
theorem foldl_note (outcomes : List Resolved) (work : Unfinished) :
    (outcomes.map Prod.snd).foldl note work =
      { work with
        succeeded := work.succeeded + outcomes.countP fun r => r.2 = .success
        failed := work.failed + outcomes.countP fun r => r.2 = .fail } := by
  induction outcomes generalizing work with
  | nil => rfl
  | cons first rest ih =>
    obtain ⟨language, outcome⟩ := first
    rw [List.map_cons, List.foldl_cons, ih]
    cases outcome <;> simp [note, Nat.add_assoc, Nat.add_comm 1]

/-- What a poll leaves of a unit, and what it takes. -/
theorem poll_spec (hl : channels.Leads later) (work : Unfinished) :
    (work.poll channels).1.action = work.action ∧
    (work.outcomes later).Perm
      ((work.poll channels).2 ++ (work.poll channels).1.outcomes later) ∧
    (work.poll channels).1.endsPartial later = work.endsPartial later ∧
    (work.poll channels).1.resolved later = work.resolved later := by
  obtain ⟨hperm, hresolved⟩ := askAll_spec hl work.results
  simp only [poll, foldl_note]
  refine ⟨trivial, hperm, ?_, hresolved⟩
  -- what was counted in the poll and what is left for later add up
  simp only [endsPartial, outcomes, hperm.countP_eq, List.countP_append, Nat.add_assoc]

theorem poll_length (channels : Channels) (work : Unfinished) :
    (work.poll channels).2.length + (work.poll channels).1.results.length =
      work.results.length := by
  have hperm := (poll_spec (.refl channels) work).2.1.length_eq
  simpa [outcomes] using hperm.symm

/-- The unit with all of its results taken. -/
def drained (channels : Channels) (work : Unfinished) : Unfinished :=
  ((work.outcomes channels).map Prod.snd).foldl note { work with results := [] }

@[simp] theorem action_drained : (work.drained channels).action = work.action := by
  simp only [drained, foldl_note]

theorem isPartial_drained : (work.drained channels).isPartial = work.endsPartial channels := by
  simp only [drained, foldl_note]
  rfl

/-- To wait for all results of a unit takes what they come to, and blocks until all are there. -/
theorem drain_eq (channels : Channels) (work : Unfinished) :
    work.drain channels =
      if work.resolved channels then some (work.drained channels, work.outcomes channels)
      else none := by
  have hall : ∀ results : List PendingResult,
      (results.mapM fun result => (result.handle.wait channels).map fun found =>
        (result.language, countedAs found)) =
      if results.all fun result => result.handle.resolved channels then
        some (results.map (PendingResult.outcome channels)) else none := by
    intro results
    induction results with
    | nil => rfl
    | cons result rest ih =>
      rw [List.mapM_cons, ih, Handle.wait_eq, List.all_cons]
      cases result.handle.resolved channels <;>
        cases rest.all fun result => result.handle.resolved channels <;> rfl
  unfold drain
  rw [hall, ← resolved]
  cases work.resolved channels <;> rfl

/-- To wait for the first result of a unit takes what it comes to, and leaves the others. -/
theorem takeNext_spec {found : Resolved} {left : Unfinished}
    (h : work.takeNext channels = some (found, left)) (hl : channels.Leads later) :
    left.action = work.action ∧ work.outcomes later = found :: left.outcomes later ∧
      left.drained later = work.drained later ∧
      left.endsPartial later = work.endsPartial later ∧
      left.resolved later = work.resolved later ∧
      work.results.length = left.results.length + 1 := by
  unfold takeNext at h
  cases hresults : work.results with
  | nil => simp [hresults] at h
  | cons result rest =>
    rw [hresults] at h
    dsimp only at h
    rw [Handle.wait_eq] at h
    cases hres : result.handle.resolved channels with
    | false => simp [hres] at h
    | true =>
      rw [hres, if_pos rfl, Option.map_some, Option.some.injEq, Prod.mk.injEq] at h
      obtain ⟨rfl, rfl⟩ := h
      have hsame : PendingResult.outcome later result =
          (result.language, countedAs (result.handle.value channels)) := by
        rw [PendingResult.outcome, Handle.value_eq_of_resolved hl _ hres]
      have houtcomes : work.outcomes later =
          (result.language, countedAs (result.handle.value channels)) ::
            rest.map (PendingResult.outcome later) := by
        rw [outcomes, hresults, List.map_cons, hsame]
      have hleft : ∀ outcome, ({ work with results := rest }.note outcome).results = rest ∧
          ({ work with results := rest }.note outcome).action = work.action := by
        intro outcome
        cases outcome <;> exact ⟨rfl, rfl⟩
      have hdrained : ({ work with results := rest }.note
          (countedAs (result.handle.value channels))).drained later = work.drained later := by
        rw [drained, drained, houtcomes, outcomes, (hleft _).1, List.map_cons, List.foldl_cons]
        cases countedAs (result.handle.value channels) <;> rfl
      refine ⟨(hleft _).2, ?_, hdrained, ?_, ?_, ?_⟩
      · rw [houtcomes, outcomes, (hleft _).1]
      · rw [← isPartial_drained, hdrained, isPartial_drained]
      · rw [resolved, resolved, (hleft _).1, hresults, List.all_cons,
          Handle.resolved_of_leads hl _ hres, Bool.true_and]
      · rw [(hleft _).1, List.length_cons]

/-- It blocks just as long as the first result is not there. -/
theorem takeNext_eq_none_iff :
    work.takeNext channels = none ↔
      ∀ result ∈ work.results.head?, result.handle.resolved channels = false := by
  unfold takeNext
  cases work.results with
  | nil => simp
  | cons result rest => simp [Handle.wait_eq]

end Unfinished

/-! ## Moves -/

namespace Store

variable {store : Store} {actions actions' : List Int} {verdict verdict' : ActionRow → ActionState}

/-- The row of an outstanding action, moved to the state that the verdict gives if it is one of the
given actions. -/
def movedRow (verdict : ActionRow → ActionState) (actions : List Int) (row : ActionRow) :
    ActionRow :=
  if row.id ∈ actions ∧ row.state = createdWord then
    { row with state := Worded.word (verdict row) }
  else row

/-- The store with those of the given actions moved that are outstanding. -/
def moved (verdict : ActionRow → ActionState) (actions : List Int) (store : Store) : Store :=
  { store with actions := store.actions.map (movedRow verdict actions) }

/-- The store with those of the given actions parsed that are outstanding. -/
abbrev marked (actions : List Int) (store : Store) : Store :=
  store.moved (fun _ => .parsed) actions

@[simp] theorem id_movedRow (verdict : ActionRow → ActionState) (actions : List Int)
    (row : ActionRow) : (movedRow verdict actions row).id = row.id := by
  unfold movedRow
  split <;> rfl

theorem moved_nil (store : Store) : store.moved verdict [] = store := by
  have hrow : movedRow verdict [] = id := funext fun row => by simp [movedRow]
  simp [moved, hrow]

theorem word_ne_createdWord {state : ActionState} (h : state ≠ .created) :
    Worded.word state ≠ createdWord := by
  revert h
  cases state <;> decide

/-- Moves one after the other are one move, if the second verdict is that of the first. -/
theorem moved_moved (hfinal : ∀ row, verdict row ≠ .created)
    (hsame : ∀ row ∈ store.actions, row.id ∈ actions → row.state = createdWord →
      verdict' row = verdict row) :
    (store.moved verdict actions').moved verdict' actions =
      store.moved verdict (actions ++ actions') := by
  simp only [moved, List.map_map]
  congr 1
  refine List.map_congr_left fun row hrow => ?_
  have hword := word_ne_createdWord (hfinal row)
  have hsame := hsame row hrow
  simp only [Function.comp_apply, movedRow, List.mem_append]
  by_cases hstate : row.state = createdWord
  · by_cases hmem : row.id ∈ actions'
    · simp [hstate, hmem, hword]
    · by_cases hmem' : row.id ∈ actions
      · simp [hstate, hmem, hmem', hsame hmem' hstate]
      · simp [hmem, hmem']
  · simp [hstate]

/-- Only the members of the list matter. -/
theorem moved_congr (h : ∀ a, a ∈ actions ↔ a ∈ actions') :
    store.moved verdict actions = store.moved verdict actions' := by
  have hrow : movedRow verdict actions = movedRow verdict actions' := funext fun row => by
    simp only [movedRow, h]
  rw [moved, moved, hrow]

/-- The row of an action is the moved one. -/
theorem actionRow?_moved (store : Store) (verdict : ActionRow → ActionState)
    (actions : List Int) (id : Int) :
    (store.moved verdict actions).actionRow? id =
      (store.actionRow? id).map (movedRow verdict actions) := by
  simp only [actionRow?, moved, List.find?_map]
  congr 2
  funext row
  simp

theorem setState_eq {state : ActionState} (h : state ≠ .created) (action : Int) (store : Store) :
    store.setState action state =
      .ok (store.actions.any fun row => row.id = action && row.state = createdWord,
        store.moved (fun _ => state) [action]) := by
  have hallows : ActionState.created.allows state = true := by
    cases state <;> first | rfl | exact absurd rfl h
  simp [setState, moved, movedRow, hallows]

end Store

/-! ## Finishing units -/

/-- The counts once all results of a unit are in. -/
def Tally.settle (channels : Channels) (tally : Tally) (work : Unfinished) : Tally :=
  (tally.recordAll (work.outcomes channels)).addPartials
    (if work.endsPartial channels then 1 else 0)

namespace Tally

theorem settle_comm (channels : Channels) (tally : Tally) (first second : Unfinished) :
    (tally.settle channels first).settle channels second =
      (tally.settle channels second).settle channels first := by
  simp only [settle, recordAll_addPartials, addPartials_addPartials, ← recordAll_append]
  rw [recordAll_perm List.perm_append_comm, Nat.add_comm]

/-- The order in which units are settled does not matter. -/
theorem foldl_settle_perm {units units' : List Unfinished} (h : units.Perm units')
    (channels : Channels) (tally : Tally) :
    units.foldl (settle channels) tally = units'.foldl (settle channels) tally :=
  h.foldl_eq' (fun first _ second _ tally => settle_comm channels tally first second) tally

/-- Settling units counts every outcome once, and every unit that ends as partial. -/
theorem foldl_settle (channels : Channels) (units : List Unfinished) (tally : Tally) :
    units.foldl (settle channels) tally =
      (tally.recordAll (units.flatMap (Unfinished.outcomes channels))).addPartials
        (units.countP (Unfinished.endsPartial channels)) := by
  induction units generalizing tally with
  | nil => rfl
  | cons work rest ih =>
    rw [List.foldl_cons, ih, settle, recordAll_addPartials, addPartials_addPartials,
      ← recordAll_append, List.flatMap_cons, List.countP_cons, Nat.add_comm]

/-- A poll counts some of the outcomes of a unit, and leaves the others. -/
theorem settle_poll {channels later : Channels} (hl : channels.Leads later) (tally : Tally)
    (work : Unfinished) :
    (tally.recordAll (work.poll channels).2).settle later (work.poll channels).1 =
      tally.settle later work := by
  obtain ⟨-, hperm, hpartial, -⟩ := Unfinished.poll_spec hl work
  rw [settle, settle, hpartial, ← recordAll_append, recordAll_perm hperm]

end Tally

namespace Bench

variable {bench : Bench} {work : Unfinished} {action : Int}

/-- Marking an action changes its row only, in whatever scope. -/
theorem database_mark (hdb : bench.database.refuses = false) :
    (bench.mark action).database =
      { store := bench.database.store.marked [action]
        saved := bench.database.enter.saved
        depth := bench.database.depth
        invalidated := false } := by
  have hchange := @Store.setState_eq .parsed (by decide) action bench.database.enter.store
  have hdb' : bench.database.enter.refuses = false := by rw [Database.refuses_enter, hdb]
  simp only [mark, Tx.run_transaction, Tx.run_writeOr hdb' hchange]
  simp [Database.leave, Database.enter, Except.isOk, Except.toBool, hdb]

@[simp] theorem database_finish (bench : Bench) (work : Unfinished) :
    (bench.finish work).database = (bench.mark work.action).database := by
  unfold finish
  split <;> rfl

theorem store_finish (hdb : bench.database.refuses = false) :
    (bench.finish work).database.store = bench.database.store.marked [work.action] := by
  rw [database_finish, database_mark hdb]

/-- Finishing a unit leaves the open scopes as they are. -/
theorem frame_finish (hdb : bench.database.refuses = false) :
    (bench.finish work).database.refuses = false ∧
      (bench.finish work).database.depth = bench.database.depth := by
  rw [database_finish, database_mark hdb]
  exact ⟨by simp [Database.refuses], rfl⟩

@[simp] theorem tally_finish :
    (bench.finish work).tally =
      bench.tally.addPartials (if work.isPartial then 1 else 0) := by
  simp only [finish, mark, release]
  split <;> rfl

@[simp] theorem collector_finish :
    (bench.finish work).collector = bench.collector.release work.action := rfl

@[simp] theorem channels_finish : (bench.finish work).channels = bench.channels := rfl

/-- With all results counted before, finishing a unit settles it. -/
theorem tally_finish_of_results (h : work.results = []) (channels : Channels) :
    (bench.finish work).tally = bench.tally.settle channels work := by
  have houtcomes : work.outcomes channels = [] := by rw [Unfinished.outcomes, h, List.map_nil]
  rw [tally_finish, Tally.settle, Unfinished.endsPartial, houtcomes]
  rfl

/-- All results of a unit are counted, and the unit is finished. -/
def conclude (work : Unfinished) (bench : Bench) : Bench :=
  ({ bench with tally := bench.tally.recordAll (work.outcomes bench.channels) }).finish
    (work.drained bench.channels)

/-- To process a unit concludes it, and blocks until all of its results are there. -/
theorem process_eq (work : Unfinished) (bench : Bench) :
    bench.process work =
      if work.resolved bench.channels then some (bench.conclude work) else none := by
  rw [process, Unfinished.drain_eq]
  cases work.resolved bench.channels <;> rfl

theorem store_conclude (hdb : bench.database.refuses = false) :
    (bench.conclude work).database.store = bench.database.store.marked [work.action] := by
  rw [← @Unfinished.action_drained bench.channels work]
  exact @store_finish { bench with tally := _ } _ hdb

@[simp] theorem tally_conclude :
    (bench.conclude work).tally = bench.tally.settle bench.channels work := by
  rw [Tally.settle, ← Unfinished.isPartial_drained]
  exact tally_finish

@[simp] theorem collector_conclude :
    (bench.conclude work).collector = bench.collector.release work.action := by
  rw [conclude, collector_finish, Unfinished.action_drained]

@[simp] theorem channels_conclude : (bench.conclude work).channels = bench.channels := rfl

/-- A poll of a unit leaves the unit waiting, or it was the last one and the unit is finished. -/
theorem pollUnit_cases (bench : Bench) (work : Unfinished) :
    (bench.pollUnit work =
      (some (work.poll bench.channels).1,
        { bench with tally := bench.tally.recordAll (work.poll bench.channels).2 })) ∨
    ((work.poll bench.channels).1.results = [] ∧
      bench.pollUnit work =
        (none, ({ bench with
          tally := bench.tally.recordAll (work.poll bench.channels).2 }).finish
            (work.poll bench.channels).1)) := by
  simp only [pollUnit]
  split
  · rename_i h
    exact .inr ⟨by simpa [Unfinished.isComplete] using h, rfl⟩
  · exact .inl rfl

@[simp] theorem channels_pollUnit :
    (bench.pollUnit work).2.channels = bench.channels := by
  rcases bench.pollUnit_cases work with hcase | ⟨-, hcase⟩
  · rw [hcase]
  · rw [hcase, channels_finish]

/-! ## Rounds of the collector -/

end Bench

/-- The units that are handed over and not finished. -/
def Collector.units (collector : Collector) : List Unfinished :=
  collector.working ++ collector.queued

/-- A collector that is not stopped takes a unit that is handed over. -/
theorem Collector.queue_spec {collector : Collector} (haccepts : collector.phase ≠ .stopped)
    (work : Unfinished) :
    (collector.queue work).units = collector.units ++ [work] ∧
    (collector.queue work).inFlight = Ascending.insert work.action collector.inFlight ∧
    (collector.queue work).phase = collector.phase := by
  unfold queue units
  cases hphase : collector.phase with
  | fresh => simp
  | running => simp
  | stopping => simp
  | stopped => exact absurd hphase haccepts

namespace Bench

section

variable {P : List Unfinished → Bench → Prop}
  (hperm : ∀ units units' bench, units.Perm units' → P units bench → P units' bench)
  (hlists : ∀ units bench collector, collector.inFlight = bench.collector.inFlight →
    P units bench → P units { bench with collector })
  (hpoll : ∀ work others bench, P (work :: others) bench →
    P ((bench.pollUnit work).1.toList ++ others) (bench.pollUnit work).2)

include hperm hpoll in
/-- Polling units one after the other keeps what polling one of them keeps. -/
theorem pollUnits_keeps (units others : List Unfinished) (bench : Bench)
    (h : P (units ++ others) bench) :
    P ((pollUnits units bench).1 ++ others) (pollUnits units bench).2 := by
  induction units generalizing others bench with
  | nil => exact h
  | cons work rest ih =>
    have hrest := ih ((bench.pollUnit work).1.toList ++ others) (bench.pollUnit work).2
      (hperm _ _ _ (List.perm_append_comm_assoc ..) (hpoll _ _ _ h))
    have hall := hperm _ _ _ (List.perm_append_comm_assoc ..) hrest
    rwa [← List.append_assoc] at hall

/-- Polling units leaves the units that were handed over meanwhile, and the phase. -/
theorem collector_pollUnits (units : List Unfinished) (bench : Bench) :
    (pollUnits units bench).2.collector.queued = bench.collector.queued ∧
    (pollUnits units bench).2.collector.phase = bench.collector.phase := by
  refine pollUnits_keeps (P := fun _ b => b.collector.queued = bench.collector.queued ∧
    b.collector.phase = bench.collector.phase) (fun _ _ _ _ h => h) (fun work _ b h => ?_)
    units [] bench ⟨rfl, rfl⟩
  rcases b.pollUnit_cases work with hcase | ⟨-, hcase⟩
  · rw [hcase]
    exact h
  · rw [hcase, collector_finish]
    exact h

include hperm hlists hpoll in
/-- A round of the collector keeps what polling one unit keeps. -/
theorem poll_keeps (bench : Bench) (h : P bench.collector.units bench) :
    P bench.poll.collector.units bench.poll := by
  have hreceived := hlists _ bench bench.collector.receive rfl h
  have hpolled := pollUnits_keeps hperm hpoll bench.collector.receive.working []
    { bench with collector := bench.collector.receive } (by rwa [List.append_nil])
  have hqueued := (collector_pollUnits bench.collector.receive.working
    { bench with collector := bench.collector.receive }).1
  simp only [poll, Collector.units, hqueued]
  exact hlists _ _ _ rfl hpolled

end

@[simp] theorem phase_poll (bench : Bench) :
    bench.poll.collector.phase = bench.collector.phase := by
  simp only [poll]
  exact (collector_pollUnits _ _).2

end Bench

end SymbolAtlas
