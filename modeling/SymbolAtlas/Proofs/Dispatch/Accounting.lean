import SymbolAtlas.Proofs.Dispatch.Stopping

/-!
# The accounts of the collector

Units are handed over, producers send or go away, the collector takes its rounds, and other units
are processed on the spot, in any order (`Bench.Event`, `Bench.Runs`). Then the collector is
stopped: it waits for one result after the other, while producers go on (`Bench.Stopping`).

- **The ledger** (`Ledger`): what was counted so far, together with what the units that are held
  will still bring, is every result of every unit once. The actions that are marked are those of
  the units that are not held any more.
- **The watch** (`Watched`): a unit that is not held any more has all of its results.
- **Each event** keeps both (`Runs.accounted`), and so does each step of the end
  (`Accounted.stopping`), whichever way a unit is finished. So the counts in the end are the
  outcomes of all results (`collector_accounts`).
-/

namespace SymbolAtlas

/-! ## Events -/

namespace Bench

/-- Something that happens around the collector. -/
inductive Event where
  /-- a unit is handed over -/
  | queue (work : Unfinished)
  /-- the producer of a channel sends -/
  | send (channel : Nat) (outcome : Outcome)
  /-- the producer of a channel goes away -/
  | drop (channel : Nat)
  /-- the collector takes a round -/
  | round
  /-- a unit is processed on the spot -/
  | process (work : Unfinished)

namespace Event

/-- What an event does; none as long as it blocks. -/
def apply : Event → Bench → Option Bench
  | .queue work, bench => some { bench with collector := bench.collector.queue work }
  | .send channel outcome, bench =>
    some { bench with channels := bench.channels.send channel outcome }
  | .drop channel, bench => some { bench with channels := bench.channels.drop channel }
  | .round, bench => some bench.poll
  | .process work, bench => bench.process work

/-- The unit that an event brings. -/
def unit? : Event → Option Unfinished
  | .queue work | .process work => some work
  | .send _ _ | .drop _ | .round => none

end Event

/-- The units that events bring, in order. -/
def unitsOf (events : List Event) : List Unfinished := events.filterMap Event.unit?

/-- The bench gets from the first state to the second by the events, one after the other. -/
inductive Runs (start : Bench) : List Event → Bench → Prop where
  | start : Runs start [] start
  | step {events : List Event} {bench after : Bench} {event : Event} :
      Runs start events bench → event.apply bench = some after →
      Runs start (events ++ [event]) after

/-- Nothing is in flight, units can be handed over, and the database takes statements. -/
structure Idle (bench : Bench) : Prop where
  units : bench.collector.units = []
  inFlight : bench.collector.inFlight = []
  accepts : bench.collector.phase ≠ .stopped
  valid : bench.database.refuses = false

end Bench

/-! ## The ledger -/

variable {start bench : Bench} {units held others : List Unfinished} {work : Unfinished}
  {later : Channels}

/-- What was counted and what is held make up all units, and the actions of those that are not
held are marked. -/
structure Ledger (start : Bench) (units : List Unfinished) (later : Channels)
    (held : List Unfinished) (bench : Bench) : Prop where
  counts : held.foldl (Tally.settle later) bench.tally =
    units.foldl (Tally.settle later) start.tally
  marks : ∃ done, bench.database.store = start.database.store.marked done ∧
    (done ++ held.map Unfinished.action).Perm (units.map Unfinished.action)
  valid : bench.database.refuses = false

/-- The actions in flight are those of the units that are held. -/
def Tracks (held : List Unfinished) (bench : Bench) : Prop :=
  ∀ a, a ∈ bench.collector.inFlight ↔ a ∈ held.map Unfinished.action

namespace Ledger

theorem nodup_held (h : Ledger start units later held bench)
    (hdistinct : (units.map Unfinished.action).Nodup) : (held.map Unfinished.action).Nodup := by
  obtain ⟨done, -, hperm⟩ := h.marks
  exact (List.nodup_append.mp (hperm.nodup_iff.mpr hdistinct)).2.1

theorem perm {held' : List Unfinished} (h : Ledger start units later held bench)
    (hperm : held.Perm held') : Ledger start units later held' bench where
  counts := by rw [← Tally.foldl_settle_perm hperm]; exact h.counts
  marks := by
    obtain ⟨done, hstore, hdone⟩ := h.marks
    exact ⟨done, hstore, ((hperm.map _).append_left done).symm.trans hdone⟩
  valid := h.valid

/-- A unit is taken in. -/
theorem add (h : Ledger start units later held bench) (work : Unfinished) :
    Ledger start (units ++ [work]) later (held ++ [work]) bench where
  counts := by
    rw [List.foldl_append, List.foldl_append, h.counts]
  marks := by
    obtain ⟨done, hstore, hdone⟩ := h.marks
    refine ⟨done, hstore, ?_⟩
    rw [List.map_append, List.map_append, ← List.append_assoc]
    exact hdone.append_right _
  valid := h.valid

/-- A unit is let go: its action is marked, and its outcomes are counted. -/
theorem finished (h : Ledger start units later (work :: others) bench) {after : Bench}
    (hstore : after.database.store = bench.database.store.marked [work.action])
    (hvalid : after.database.refuses = false)
    (hcounts : others.foldl (Tally.settle later) after.tally =
      (work :: others).foldl (Tally.settle later) bench.tally) :
    Ledger start units later others after where
  counts := hcounts.trans h.counts
  marks := by
    obtain ⟨done, hbefore, hdone⟩ := h.marks
    refine ⟨[work.action] ++ done, ?_, List.perm_middle.symm.trans hdone⟩
    rw [hstore, hbefore]
    exact Store.moved_moved (fun _ => by decide) fun _ _ _ _ => rfl
  valid := hvalid

/-- Some results of a unit are counted, and the others are left. -/
theorem advance (h : Ledger start units later (work :: others) bench) {left : Unfinished}
    {tally : Tally} (haction : left.action = work.action)
    (hsettle : tally.settle later left = bench.tally.settle later work) :
    Ledger start units later (left :: others) { bench with tally } where
  counts := by
    rw [← h.counts, List.foldl_cons, List.foldl_cons, hsettle]
  marks := by
    obtain ⟨done, hstore, hdone⟩ := h.marks
    exact ⟨done, hstore, by simpa [haction] using hdone⟩
  valid := h.valid

/-- A unit whose results are all counted is finished. -/
theorem finish (h : Ledger start units later (work :: others) bench) (hnone : work.results = []) :
    Ledger start units later others (bench.finish work) := by
  refine h.finished (Bench.store_finish h.valid) (Bench.frame_finish h.valid).1 ?_
  rw [Bench.tally_finish_of_results hnone later, List.foldl_cons]

theorem pollUnit (h : Ledger start units later (work :: others) bench)
    (hl : bench.channels.Leads later) :
    Ledger start units later ((bench.pollUnit work).1.toList ++ others)
      (bench.pollUnit work).2 := by
  have hpolled := h.advance (Unfinished.poll_spec hl work).1 (Tally.settle_poll hl bench.tally work)
  rcases bench.pollUnit_cases work with hcase | ⟨hnone, hcase⟩
  · rw [hcase]
    exact hpolled
  · rw [hcase]
    exact hpolled.finish hnone

/-- The first result of a unit is taken. -/
theorem take (h : Ledger start units later (work :: others) bench)
    (hl : bench.channels.Leads later) {found : Resolved} {left : Unfinished}
    (htake : work.takeNext bench.channels = some (found, left)) :
    Ledger start units later (left :: others)
      { bench with tally := bench.tally.record found.1 found.2 } := by
  obtain ⟨haction, houtcomes, -, hpartial, -⟩ := Unfinished.takeNext_spec htake hl
  refine h.advance haction ?_
  rw [Tally.settle, Tally.settle, houtcomes, hpartial]
  rfl

theorem conclude (h : Ledger start units later (work :: others) bench)
    (hsame : work.outcomes later = work.outcomes bench.channels) :
    Ledger start units later others (bench.conclude work) := by
  refine h.finished (Bench.store_conclude h.valid) (Bench.frame_finish h.valid).1 ?_
  rw [Bench.tally_conclude, List.foldl_cons, Tally.settle, Tally.settle, hsame,
    Unfinished.endsPartial_eq_of_outcomes hsame]

end Ledger

/-! ## Actions in flight -/

namespace Tracks

theorem perm {held' : List Unfinished} (h : Tracks held bench) (hperm : held.Perm held') :
    Tracks held' bench :=
  fun a => (h a).trans (hperm.map _).mem_iff

theorem add (h : Tracks held bench) (haccepts : bench.collector.phase ≠ .stopped)
    (work : Unfinished) :
    Tracks (held ++ [work]) { bench with collector := bench.collector.queue work } := by
  intro a
  obtain ⟨-, hqueue, -⟩ := Collector.queue_spec haccepts work
  simp [hqueue, h a, or_comm]

theorem finished (h : Tracks (work :: others) bench)
    (hnodup : ((work :: others).map Unfinished.action).Nodup) {after : Bench}
    (hcollector : after.collector = bench.collector.release work.action) :
    Tracks others after := by
  rw [List.map_cons, List.nodup_cons] at hnodup
  intro a
  rw [hcollector, Collector.release, List.mem_filter, h a, List.map_cons, List.mem_cons,
    decide_eq_true_eq]
  constructor
  · rintro ⟨rfl | ha, hne⟩
    · exact absurd rfl hne
    · exact ha
  · intro ha
    refine ⟨.inr ha, ?_⟩
    rintro rfl
    exact hnodup.1 ha

/-- Nothing changes for the units that are held when another action is released. -/
theorem release (h : Tracks held bench) {after : Bench} {action : Int}
    (hnot : action ∉ held.map Unfinished.action)
    (hcollector : after.collector = bench.collector.release action) : Tracks held after := by
  intro a
  rw [hcollector, Collector.release, List.mem_filter, h a, decide_eq_true_eq]
  refine ⟨fun ha => ha.1, fun ha => ⟨ha, ?_⟩⟩
  rintro rfl
  exact hnot ha

/-- What is left of a unit is in flight as the unit was. -/
theorem advance (h : Tracks (work :: others) bench) {left : Unfinished} {tally : Tally}
    (haction : left.action = work.action) : Tracks (left :: others) { bench with tally } := by
  intro a
  simpa [haction] using h a

theorem pollUnit (h : Tracks (work :: others) bench)
    (hnodup : ((work :: others).map Unfinished.action).Nodup) :
    Tracks ((bench.pollUnit work).1.toList ++ others) (bench.pollUnit work).2 := by
  have haction := (Unfinished.poll_spec (.refl bench.channels) work).1
  rcases bench.pollUnit_cases work with hcase | ⟨-, hcase⟩
  · rw [hcase]
    exact h.advance haction
  · rw [hcase]
    exact h.finished hnodup (by rw [Bench.collector_finish, haction])

end Tracks

/-! ## The watch -/

variable {channels : Channels}

/-- A unit that is held stands for the one that was handed over, and one that is not held any more
has all of its results. -/
structure Watched (units : List Unfinished) (channels : Channels) (held : List Unfinished) :
    Prop where
  stands : ∀ work ∈ held, ∃ unit ∈ units, unit.action = work.action ∧
    ∀ later, channels.Leads later → unit.resolved later = work.resolved later
  finished : ∀ unit ∈ units, unit.action ∉ held.map Unfinished.action →
    unit.resolved channels = true

namespace Watched

theorem perm {held' : List Unfinished} (h : Watched units channels held)
    (hperm : held.Perm held') : Watched units channels held' where
  stands work hwork := h.stands work (hperm.mem_iff.mpr hwork)
  finished unit hunit hnot := h.finished unit hunit fun hmem =>
    hnot ((hperm.map _).mem_iff.mp hmem)

/-- Producers go on. -/
theorem leads (h : Watched units channels held) (hl : channels.Leads later) :
    Watched units later held where
  stands work hwork := by
    obtain ⟨unit, hunit, haction, hstands⟩ := h.stands work hwork
    exact ⟨unit, hunit, haction, fun last hlast => hstands last (hl.trans hlast)⟩
  finished unit hunit hnot := Unfinished.resolved_of_leads hl (h.finished unit hunit hnot)

theorem add (h : Watched units channels held) (work : Unfinished) :
    Watched (units ++ [work]) channels (held ++ [work]) where
  stands other hother := by
    rcases List.mem_append.mp hother with hother | hother
    · obtain ⟨unit, hunit, hstands⟩ := h.stands other hother
      exact ⟨unit, List.mem_append_left _ hunit, hstands⟩
    · rw [List.mem_singleton.mp hother]
      exact ⟨work, by simp, rfl, fun _ _ => rfl⟩
  finished unit hunit hnot := by
    rw [List.map_append, List.mem_append, not_or] at hnot
    rcases List.mem_append.mp hunit with hunit | hunit
    · exact h.finished unit hunit hnot.1
    · rw [List.mem_singleton.mp hunit] at hnot
      exact absurd (by simp) hnot.2

/-- A unit with all of its results is let go. -/
theorem remove (h : Watched units channels (work :: others))
    (hdistinct : (units.map Unfinished.action).Nodup) (hr : work.resolved channels = true) :
    Watched units channels others where
  stands other hother := h.stands other (.tail _ hother)
  finished unit hunit hnot := by
    obtain ⟨stood, hstood, haction, hstands⟩ := h.stands work (.head _)
    by_cases hsame : unit.action = work.action
    · rw [← haction] at hsame
      rw [List.inj_on_of_nodup_map hdistinct hunit hstood hsame]
      exact (hstands channels (.refl _)).trans hr
    · refine h.finished unit hunit ?_
      rw [List.map_cons, List.mem_cons, not_or]
      exact ⟨hsame, hnot⟩

/-- What is left of a unit has all of its results just when the unit has. -/
theorem advance (h : Watched units channels (work :: others)) {left : Unfinished}
    (haction : left.action = work.action)
    (hresolved : ∀ later, channels.Leads later → left.resolved later = work.resolved later) :
    Watched units channels (left :: others) where
  stands other hother := by
    rcases List.mem_cons.mp hother with rfl | hother
    · obtain ⟨unit, hunit, hsame, hstands⟩ := h.stands work (.head _)
      exact ⟨unit, hunit, hsame.trans haction.symm, fun later hl =>
        (hstands later hl).trans (hresolved later hl).symm⟩
    · exact h.stands other (.tail _ hother)
  finished unit hunit hnot := h.finished unit hunit (by simpa [haction] using hnot)

theorem pollUnit (h : Watched units bench.channels (work :: others))
    (hdistinct : (units.map Unfinished.action).Nodup) :
    Watched units bench.channels ((bench.pollUnit work).1.toList ++ others) := by
  have hspec := fun {later} (hl : bench.channels.Leads later) => Unfinished.poll_spec hl work
  rcases bench.pollUnit_cases work with hcase | ⟨hnone, hcase⟩
  · rw [hcase]
    exact h.advance (hspec (.refl _)).1 fun later hl => (hspec hl).2.2.2
  · rw [hcase]
    refine h.remove hdistinct ?_
    rw [← (hspec (.refl _)).2.2.2, Unfinished.resolved, hnone]
    rfl

end Watched

/-! ## Runs -/

/-- The accounts after some units have been taken in. -/
structure Accounted (start : Bench) (units : List Unfinished) (bench : Bench) : Prop where
  ledger : ∀ later, bench.channels.Leads later →
    Ledger start units later bench.collector.units bench
  tracks : Tracks bench.collector.units bench
  watched : Watched units bench.channels bench.collector.units

namespace Accounted

theorem of_idle (hidle : start.Idle) : Accounted start [] start where
  ledger later _ := by
    rw [hidle.units]
    exact ⟨rfl, ⟨[], (Store.moved_nil _).symm, .refl _⟩, hidle.valid⟩
  tracks a := by simp [hidle.units, hidle.inFlight]
  watched := by
    rw [hidle.units]
    exact ⟨by simp, by simp⟩

theorem queue (h : Accounted start units bench) (haccepts : bench.collector.phase ≠ .stopped)
    (work : Unfinished) :
    Accounted start (units ++ [work])
      { bench with collector := bench.collector.queue work } := by
  obtain ⟨hunits, -, -⟩ := Collector.queue_spec haccepts work
  refine ⟨fun later hl => ?_, ?_, ?_⟩
  · rw [hunits]
    obtain ⟨hcounts, hmarks, hvalid⟩ := (h.ledger later hl).add work
    exact ⟨hcounts, hmarks, hvalid⟩
  · rw [hunits]
    exact h.tracks.add haccepts work
  · rw [hunits]
    exact h.watched.add work

/-- Producers go on. -/
theorem leads (h : Accounted start units bench) (hl : bench.channels.Leads channels) :
    Accounted start units { bench with channels } where
  ledger later hlater := by
    obtain ⟨hcounts, hmarks, hvalid⟩ := h.ledger later (hl.trans hlater)
    exact ⟨hcounts, hmarks, hvalid⟩
  tracks := h.tracks
  watched := h.watched.leads hl

theorem round (h : Accounted start units bench)
    (hdistinct : (units.map Unfinished.action).Nodup) : Accounted start units bench.poll := by
  -- one invariant for all units that are held; its parts need each other
  have hkeeps : ∀ later, bench.channels.Leads later →
      Ledger start units later bench.poll.collector.units bench.poll ∧
      Tracks bench.poll.collector.units bench.poll ∧
      Watched units bench.poll.channels bench.poll.collector.units ∧
      bench.poll.channels = bench.channels := by
    intro later hl
    refine Bench.poll_keeps (P := fun held b => Ledger start units later held b ∧
      Tracks held b ∧ Watched units b.channels held ∧ b.channels = bench.channels)
      ?_ ?_ ?_ bench ⟨h.ledger later hl, h.tracks, h.watched, rfl⟩
    · rintro held held' b hperm ⟨hledger, htracks, hwatched, hchannels⟩
      exact ⟨hledger.perm hperm, htracks.perm hperm, hwatched.perm hperm, hchannels⟩
    · rintro held b collector hin ⟨⟨hcounts, hmarks, hvalid⟩, htracks, hwatched, hchannels⟩
      exact ⟨⟨hcounts, hmarks, hvalid⟩, fun a => hin ▸ htracks a, hwatched, hchannels⟩
    · rintro work others b ⟨hledger, htracks, hwatched, hchannels⟩
      rw [Bench.channels_pollUnit]
      exact ⟨hledger.pollUnit (hchannels ▸ hl), htracks.pollUnit (hledger.nodup_held hdistinct),
        hwatched.pollUnit hdistinct, hchannels⟩
  obtain ⟨-, htracks, hwatched, hchannels⟩ := hkeeps bench.channels (.refl _)
  exact ⟨fun later hl => (hkeeps later (hchannels ▸ hl)).1, htracks, hwatched⟩

theorem conclude (h : Accounted start units bench)
    (hdistinct : ((units ++ [work]).map Unfinished.action).Nodup)
    (hr : work.resolved bench.channels = true) :
    Accounted start (units ++ [work]) (bench.conclude work) := by
  have hunits : (bench.conclude work).collector.units = bench.collector.units := by
    rw [Bench.collector_conclude]
    rfl
  refine ⟨fun later hl => ?_, ?_, ?_⟩
  · rw [Bench.channels_conclude] at hl
    rw [hunits]
    exact (((h.ledger later hl).add work).perm List.perm_append_comm).conclude
      (Unfinished.outcomes_eq_of_resolved hl hr)
  · have hheld := ((h.ledger _ (.refl _)).add work).nodup_held hdistinct
    rw [List.map_append, List.nodup_append] at hheld
    rw [hunits]
    refine h.tracks.release (fun hmem => ?_) Bench.collector_conclude
    exact hheld.2.2 _ hmem _ (by simp) rfl
  · rw [hunits, Bench.channels_conclude]
    exact ((h.watched.add work).perm List.perm_append_comm).remove hdistinct hr

end Accounted

/-- Every run keeps the accounts, and leaves the collector as it was. -/
theorem Bench.Runs.accounted {events : List Event} (hruns : Runs start events bench)
    (hidle : start.Idle) (hdistinct : ((unitsOf events).map Unfinished.action).Nodup) :
    Accounted start (unitsOf events) bench ∧
      bench.collector.phase = start.collector.phase := by
  induction hruns with
  | start => exact ⟨.of_idle hidle, rfl⟩
  | @step events bench after event _ happly ih =>
    have hunits : unitsOf (events ++ [event]) = unitsOf events ++ event.unit?.toList := by
      rw [unitsOf, unitsOf, List.filterMap_append]
      cases h : event.unit? <;> simp [h]
    rw [hunits] at hdistinct ⊢
    obtain ⟨ih, hphase⟩ := ih (hdistinct.sublist ((List.sublist_append_left _ _).map _))
    cases event with
    | queue work =>
      cases happly
      have haccepts : bench.collector.phase ≠ .stopped := hphase ▸ hidle.accepts
      exact ⟨ih.queue haccepts work, (Collector.queue_spec haccepts work).2.2.trans hphase⟩
    | send channel outcome =>
      cases happly
      rw [Event.unit?, Option.toList_none, List.append_nil]
      exact ⟨ih.leads (Channels.leads_send _ channel outcome), hphase⟩
    | drop channel =>
      cases happly
      rw [Event.unit?, Option.toList_none, List.append_nil]
      exact ⟨ih.leads (Channels.leads_drop _ channel), hphase⟩
    | round =>
      cases happly
      rw [Event.unit?, Option.toList_none, List.append_nil] at hdistinct ⊢
      exact ⟨ih.round hdistinct, (phase_poll bench).trans hphase⟩
    | process work =>
      rw [Event.apply, process_eq] at happly
      split at happly
      next hr =>
        cases happly
        refine ⟨ih.conclude hdistinct hr, ?_⟩
        rw [collector_conclude]
        exact hphase
      next => cases happly

/-- While the collector stops, it keeps the accounts. -/
theorem Accounted.stopping {now : Bench} (h : Accounted start units bench)
    (hdistinct : (units.map Unfinished.action).Nodup)
    (hnow : Bench.Stopping Bench.Produces bench now) : Accounted start units now := by
  have hkept := (hnow.keeps (P := fun held b =>
    (∀ later, b.channels.Leads later → Ledger start units later held b) ∧ Tracks held b ∧
      Watched units b.channels held) ?_ ?_ ?_ ?_ ⟨h.ledger, h.tracks, h.watched⟩).1
  · exact ⟨hkept.1, hkept.2.1, hkept.2.2⟩
  · rintro held b collector hin ⟨hledger, htracks, hwatched⟩
    refine ⟨fun later hl => ?_, fun a => hin ▸ htracks a, hwatched⟩
    obtain ⟨hcounts, hmarks, hvalid⟩ := hledger later hl
    exact ⟨hcounts, hmarks, hvalid⟩
  · rintro work others b found left htake ⟨hledger, htracks, hwatched⟩
    have hspec := fun {later} (hl : b.channels.Leads later) => Unfinished.takeNext_spec htake hl
    exact ⟨fun later hl => (hledger later hl).take hl htake,
      htracks.advance (hspec (.refl _)).1,
      hwatched.advance (hspec (.refl _)).1 fun later hl => (hspec hl).2.2.2.2.1⟩
  · rintro work others b hnone ⟨hledger, htracks, hwatched⟩
    refine ⟨fun later hl => (hledger later hl).finish hnone,
      htracks.finished ((hledger _ (.refl _)).nodup_held hdistinct) Bench.collector_finish, ?_⟩
    refine hwatched.remove hdistinct ?_
    rw [Unfinished.resolved, hnone]
    rfl
  · rintro b after ⟨channels, hchannels, rfl⟩
    refine ⟨rfl, fun held h => ⟨fun later hl => ?_, h.2.1, h.2.2.leads hchannels⟩⟩
    obtain ⟨hcounts, hmarks, hvalid⟩ := h.1 later (hchannels.trans hl)
    exact ⟨hcounts, hmarks, hvalid⟩

/-- Some results of the unit succeed and some fail. -/
def Unfinished.isMixed (channels : Channels) (work : Unfinished) : Bool :=
  (work.outcomes channels).any (fun r => r.2 = .success) &&
    (work.outcomes channels).any fun r => r.2 = .fail

/-- A unit that nothing was counted for before ends as partial if its results are mixed. -/
theorem Unfinished.endsPartial_eq_isMixed (h : work.succeeded = 0 ∧ work.failed = 0)
    (channels : Channels) : work.endsPartial channels = work.isMixed channels := by
  have hpos : ∀ p : Resolved → Bool,
      decide (0 < (work.outcomes channels).countP p) = (work.outcomes channels).any p := by
    intro p
    rw [Bool.eq_iff_iff, decide_eq_true_eq, List.countP_pos_iff, List.any_eq_true]
  rw [endsPartial, isMixed, h.1, h.2, Nat.zero_add, Nat.zero_add, hpos, hpos]

/-- While the row of an action is outstanding, it changes only by a mark. -/
theorem Store.mem_of_state_ne {store : Store} {done : List Int} {id : Int}
    {before after : ActionRow} (hbefore : store.actionRow? id = some before)
    (hcreated : before.state = createdWord)
    (hafter : (store.marked done).actionRow? id = some after) (hne : after.state ≠ createdWord) :
    id ∈ done := by
  have hid : before.id = id := by simpa using List.find?_some hbefore
  rw [actionRow?_moved, hbefore, Option.map_some, Option.some.injEq, movedRow] at hafter
  by_contra hnot
  rw [if_neg (by rw [hid]; exact fun h => hnot h.1)] at hafter
  exact hne (hafter ▸ hcreated)

/-- The row of an outstanding action that is marked is parsed. -/
theorem Store.actionRow?_marked_of_mem {store : Store} {done : List Int} {id : Int}
    {row : ActionRow} (hrow : store.actionRow? id = some row) (hcreated : row.state = createdWord)
    (hmem : id ∈ done) :
    (store.marked done).actionRow? id =
      some { row with state := Worded.word ActionState.parsed } := by
  have hid : row.id = id := by simpa using List.find?_some hrow
  rw [actionRow?_moved, hrow, Option.map_some, movedRow, if_pos ⟨by rwa [hid], hcreated⟩]

/-- An action that is not in flight, or whose row is not outstanding any more, has all of its
results. -/
theorem Accounted.resolved_of_released (h : Accounted start units bench)
    (hdistinct : (units.map Unfinished.action).Nodup) (hwork : work ∈ units)
    (hcreated : ∃ row, start.database.store.actionRow? work.action = some row ∧
      row.state = Store.createdWord)
    (hreleased : work.action ∉ bench.collector.inFlight ∨
      ∃ row, bench.database.store.actionRow? work.action = some row ∧
        row.state ≠ Store.createdWord) :
    work.resolved bench.channels = true := by
  refine h.watched.finished work hwork fun hheld => ?_
  rcases hreleased with hfree | ⟨after, hafter, hne⟩
  · exact hfree ((h.tracks work.action).mpr hheld)
  · obtain ⟨before, hbefore, hstate⟩ := hcreated
    obtain ⟨done, hstore, hperm⟩ := (h.ledger _ (.refl _)).marks
    rw [hstore] at hafter
    have hdone := Store.mem_of_state_ne hbefore hstate hafter hne
    exact (List.nodup_append.mp (hperm.nodup_iff.mpr hdistinct)).2.2 _ hdone _ hheld rfl

/-- What was counted, together with the results that are held, is what all results come to. -/
theorem Accounted.counts (h : Accounted start units bench)
    (hfresh : ∀ work ∈ units, work.succeeded = 0 ∧ work.failed = 0)
    (hl : bench.channels.Leads later) :
    (bench.tally.recordAll (bench.collector.units.flatMap (Unfinished.outcomes later))).addPartials
        (bench.collector.units.countP (Unfinished.endsPartial later)) =
      (start.tally.recordAll (units.flatMap (Unfinished.outcomes later))).addPartials
        (units.countP (Unfinished.isMixed later)) := by
  have hcounts := (h.ledger later hl).counts
  rw [Tally.foldl_settle, Tally.foldl_settle] at hcounts
  rw [hcounts, List.countP_congr fun work hwork => by
    rw [Unfinished.endsPartial_eq_isMixed (hfresh work hwork)]]

/-- The rows and the counts when nothing is held any more. -/
theorem Accounted.of_units_eq_nil (h : Accounted start units bench)
    (hnone : bench.collector.units = [])
    (hfresh : ∀ work ∈ units, work.succeeded = 0 ∧ work.failed = 0) :
    bench.collector.inFlight = [] ∧
    bench.database.store = start.database.store.marked (units.map Unfinished.action) ∧
    bench.tally =
      (start.tally.recordAll (units.flatMap (Unfinished.outcomes bench.channels))).addPartials
        (units.countP (Unfinished.isMixed bench.channels)) := by
  refine ⟨List.eq_nil_iff_forall_not_mem.mpr fun a ha => ?_, ?_, ?_⟩
  · have hheld := (h.tracks a).mp ha
    rw [hnone] at hheld
    exact List.not_mem_nil hheld
  · obtain ⟨done, hstore, hperm⟩ := (h.ledger _ (.refl _)).marks
    rw [hnone, List.map_nil, List.append_nil] at hperm
    exact hstore.trans (Store.moved_congr fun a => hperm.mem_iff)
  · have hcounts := h.counts hfresh (.refl _)
    rw [hnone] at hcounts
    exact hcounts

namespace Bench

/-- The accounts of a collector. Units of different outstanding actions come in, with all that goes
on around the collector in any order, and then the collector is stopped while producers go on.

At any time, before and after it begins to stop, an action that is marked or not in flight has all
of its results, and what was counted is, with what the units that are held still bring, every result
of every unit once. A collector that stops gets on unless it waits for a result of a unit that is
still missing; and it comes to its end if none is.

When it has stopped, nothing is in flight, every action is parsed, each result was counted once with
its own language and outcome, and each unit with mixed results as partial: so any other run with the
same units and outcomes ends with the same counts and the same rows. -/
theorem collector_accounts {now : Bench} {events : List Event} (hidle : start.Idle)
    (hruns : Runs start events now)
    (hfresh : ∀ unit ∈ unitsOf events, unit.succeeded = 0 ∧ unit.failed = 0)
    (hdistinct : ((unitsOf events).map Unfinished.action).Nodup)
    (hcreated : ∀ unit ∈ unitsOf events, ∃ row,
      start.database.store.actionRow? unit.action = some row ∧ row.state = Store.createdWord) :
    (∀ mid, mid = now ∨ Stopping Produces now mid →
      (∀ unit ∈ unitsOf events,
        (unit.action ∉ mid.collector.inFlight ∨
          ∃ row, mid.database.store.actionRow? unit.action = some row ∧
            row.state ≠ Store.createdWord) →
        unit.resolved mid.channels = true) ∧
      ∀ later, mid.channels.Leads later →
        (mid.tally.recordAll (mid.collector.units.flatMap (Unfinished.outcomes later))).addPartials
            (mid.collector.units.countP (Unfinished.endsPartial later)) =
          (start.tally.recordAll ((unitsOf events).flatMap (Unfinished.outcomes later))).addPartials
            ((unitsOf events).countP (Unfinished.isMixed later))) ∧
    (∀ mid, Stopping Produces now mid → mid.collector.phase = .stopped ∨
      (∃ after, mid.stopStep = some after ∧ (after.collector.phase = .stopped ∨
        after.collector.stepsLeft < mid.collector.stepsLeft)) ∨
      ∃ unit ∈ unitsOf events, unit.resolved mid.channels = false) ∧
    ((∀ unit ∈ unitsOf events, unit.resolved now.channels = true) →
      Stops Produces now now.stop) ∧
    ∀ final, Stops Produces now final →
      final.collector.inFlight = [] ∧ final.collector.units = [] ∧
      (∀ unit ∈ unitsOf events, ∃ row,
        final.database.store.actionRow? unit.action = some row ∧
          row.state = Worded.word ActionState.parsed) ∧
      final.database.store =
        start.database.store.marked ((unitsOf events).map Unfinished.action) ∧
      final.tally =
        (start.tally.recordAll
          ((unitsOf events).flatMap (Unfinished.outcomes final.channels))).addPartials
            ((unitsOf events).countP (Unfinished.isMixed final.channels)) ∧
      ∀ events' now' final', Runs start events' now' → Stops Produces now' final' →
        (unitsOf events').Perm (unitsOf events) →
        (∀ unit ∈ unitsOf events,
          unit.outcomes final'.channels = unit.outcomes final.channels) →
        final'.tally = final.tally ∧ final'.database.store = final.database.store := by
  obtain ⟨haccounted, -⟩ := hruns.accounted hidle hdistinct
  have hmid : ∀ mid, mid = now ∨ Stopping Produces now mid →
      Accounted start (unitsOf events) mid := by
    rintro mid (rfl | hstopping)
    · exact haccounted
    · exact haccounted.stopping hdistinct hstopping
  refine ⟨fun mid hreached => ⟨fun unit hunit => (hmid mid hreached).resolved_of_released hdistinct
    hunit (hcreated unit hunit), fun later hl => (hmid mid hreached).counts hfresh hl⟩,
    fun mid hstopping => ?_, fun hresolved => ⟨stopping_stop _ now, ?_⟩, fun final hstops => ?_⟩
  · rcases (hstopping.phase fun _ _ ⟨_, _, hafter⟩ => hafter ▸ rfl).2 with hphase | ⟨hphase, -⟩
    · right
      rcases stopStep_progress hphase with ⟨after, hstep⟩ | ⟨work, hwork, result, hresult, hmissing⟩
      · exact .inl ⟨after, hstep, (stepsLeft_stopStep hstep).imp_right fun h => by omega⟩
      · -- the unit stands for one that was handed over
        have hheld := List.mem_append_left mid.collector.queued (List.mem_of_mem_head? hwork)
        obtain ⟨unit, hunit, -, hstands⟩ := (hmid mid (.inr hstopping)).watched.stands work hheld
        refine .inr ⟨unit, hunit, (hstands _ (.refl _)).trans ?_⟩
        exact List.all_eq_false.mpr ⟨result, List.mem_of_mem_head? hresult, by simp [hmissing]⟩
    · exact .inl hphase
  · refine phase_stop fun work hwork => ?_
    obtain ⟨unit, hunit, -, hstands⟩ := haccounted.watched.stands work hwork
    exact (hstands _ (.refl _)).symm.trans (hresolved unit hunit)
  · have hfinal := hmid final (.inr hstops.1)
    have hnone := hstops.units_eq_nil fun _ _ => Produces.collector
    obtain ⟨hfree, hstore, htally⟩ := hfinal.of_units_eq_nil hnone hfresh
    refine ⟨hfree, hnone, fun unit hunit => ?_, hstore, htally,
      fun events' now' final' hruns' hstops' hperm hsame => ?_⟩
    · obtain ⟨row, hrow, hstate⟩ := hcreated unit hunit
      rw [hstore]
      exact ⟨_, Store.actionRow?_marked_of_mem hrow hstate (List.mem_map_of_mem hunit), rfl⟩
    · have hdistinct' := (hperm.map Unfinished.action).nodup_iff.mpr hdistinct
      have hfinal' := (hruns'.accounted hidle hdistinct').1.stopping hdistinct' hstops'.1
      obtain ⟨-, hstore', htally'⟩ := hfinal'.of_units_eq_nil
        (hstops'.units_eq_nil fun _ _ => Produces.collector)
        fun unit hunit => hfresh unit (hperm.mem_iff.mp hunit)
      have houtcomes : (unitsOf events').flatMap (Unfinished.outcomes final'.channels) =
          (unitsOf events').flatMap (Unfinished.outcomes final.channels) :=
        List.flatMap_congr fun unit hunit => hsame unit (hperm.mem_iff.mp hunit)
      have hmixed : (unitsOf events').countP (Unfinished.isMixed final'.channels) =
          (unitsOf events').countP (Unfinished.isMixed final.channels) :=
        List.countP_congr fun unit hunit => by
          rw [Unfinished.isMixed, Unfinished.isMixed, hsame unit (hperm.mem_iff.mp hunit)]
      rw [htally', htally, hstore', hstore, houtcomes, hmixed, hperm.countP_eq,
        Tally.recordAll_perm (hperm.flatMap_right _)]
      exact ⟨rfl, Store.moved_congr fun a => (hperm.map Unfinished.action).mem_iff⟩

/-- Two outstanding actions, and a channel whose producer is still there. -/
def pairBench : Bench where
  database := ⟨{ actions := [⟨1, "compile", "created", "cc a.c b.c", "p"⟩,
    ⟨2, "compile", "created", "cc c.c", "p"⟩] }, {}, 0, false⟩
  channels := [.waiting]

/-- A unit with a result that is there and one that comes later. -/
def lateUnit : Unfinished :=
  { action := 1, results := [⟨.ready .fail, some "c"⟩, ⟨.pending 0, some "cpp"⟩] }

/-- A unit whose result is there. -/
def promptUnit : Unfinished := { action := 2, results := [⟨.ready .success, some "c"⟩] }

/-- A round of the collector, and then another unit. -/
def pairEvents : List Event := [.queue lateUnit, .round, .process promptUnit]

/-- The bench after these. -/
def pairMet : Bench := ({ pairBench with
  collector := pairBench.collector.queue lateUnit }.poll).conclude promptUnit

/-- The last result is missing when the collector begins to stop, and comes only then. -/
theorem collector_accounts_pair :
    pairBench.Idle ∧ ((unitsOf pairEvents).map Unfinished.action).Nodup ∧
    (∀ unit ∈ unitsOf pairEvents, unit.succeeded = 0 ∧ unit.failed = 0) ∧
    (∀ unit ∈ unitsOf pairEvents, ∃ row,
      pairBench.database.store.actionRow? unit.action = some row ∧
        row.state = Store.createdWord) ∧
    Runs pairBench pairEvents pairMet ∧ pairMet.beginStop.stopStep = none ∧
    ∃ final, Stops Produces pairMet final ∧ final.collector.inFlight = [] ∧
      final.database.store = pairBench.database.store.marked [1, 2] ∧
      final.tally = (pairBench.tally.recordAll
        [(some "c", .fail), (some "cpp", .success), (some "c", .success)]).addPartials 1 := by
  have hidle : pairBench.Idle := ⟨rfl, rfl, by decide, rfl⟩
  have hdistinct : ((unitsOf pairEvents).map Unfinished.action).Nodup := by decide
  have hfresh : ∀ unit ∈ unitsOf pairEvents, unit.succeeded = 0 ∧ unit.failed = 0 := by
    simp [unitsOf, pairEvents, Event.unit?, lateUnit, promptUnit]
  have hcreated : ∀ unit ∈ unitsOf pairEvents, ∃ row,
      pairBench.database.store.actionRow? unit.action = some row ∧
        row.state = Store.createdWord := by
    simp only [unitsOf, pairEvents, Event.unit?, List.filterMap_cons, List.filterMap_nil,
      List.forall_mem_cons, List.not_mem_nil, false_implies, implies_true, and_true]
    exact ⟨⟨_, rfl, rfl⟩, ⟨_, rfl, rfl⟩⟩
  have hruns : Runs pairBench pairEvents pairMet :=
    @Runs.step _ _ _ _ (.process promptUnit) (@Runs.step _ _ _ _ .round
      (@Runs.step _ _ _ _ (.queue lateUnit) .start rfl) rfl) rfl
  -- the producer sends while the collector waits: a result, the end of its unit, and the end
  let sent : Bench := { pairMet.beginStop with channels := [.sent .success] }
  have hsent : Stopping Produces pairMet sent :=
    .meanwhile .begin ⟨[.sent .success], Channels.leads_send [.waiting] 0 .success, rfl⟩
  have hstops : Stops Produces pairMet (sent.stopWithin 3) := ⟨stopping_stopWithin 3 hsent, rfl⟩
  obtain ⟨-, -, -, hend⟩ := collector_accounts hidle hruns hfresh hdistinct hcreated
  obtain ⟨hfree, -, -, hstore, htally, -⟩ := hend _ hstops
  exact ⟨hidle, hdistinct, hfresh, hcreated, hruns, rfl, _, hstops, hfree, hstore, htally⟩

end Bench

end SymbolAtlas
