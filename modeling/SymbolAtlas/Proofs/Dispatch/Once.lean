import Mathlib
import SymbolAtlas.Proofs.Dispatch.Accounting
import SymbolAtlas.Proofs.Dispatch.Indexing
import SymbolAtlas.Proofs.Dispatch.Step

/-!
# One dispatch for an action

Passes take their steps while the collector works, in any order. To finish a unit takes the
collector two steps, and others may come in between: it marks the action in the store, and later
releases it.

- **In between** (`Interim`): the bench, the units that have all of their results, the actions that
  are marked and not released, and what the steps of passes did with parsers (`Attempt`).
- **The guard** (`Interim.Guarded`): an action that was given to parsers is in flight or not
  outstanding. Marking comes before releasing, so at no time is it neither.
- **Every order** keeps the guard (`Reaches.guarded`), and so no action is given to parsers after
  the step that handed it over (`dispatched_at_most_once`).
-/

namespace SymbolAtlas

/-! ## Interleavings -/

/-- A step of a pass as it looks from outside. -/
structure Attempt where
  result : Except Fault (Option (Nat × Dispatched))
  /-- the last action that the scheduler has looked at -/
  cursor : Option Int
  /-- the calls to plugins -/
  calls : List Call

namespace Attempt

/-- The action that was handed to the collector, if one was. -/
def queued (attempt : Attempt) : Option Int :=
  match attempt.result with
  | .ok (some (_, .queued _)) => attempt.cursor
  | _ => none

/-- The step failed and was undone. -/
def failed (attempt : Attempt) : Bool := !attempt.result.isOk

/-- The actions that were given to parsers. -/
def actions (attempt : Attempt) : List Int :=
  attempt.queued.toList ++ attempt.calls.filterMap Call.action?

/-- A step by its result and by the bench before and after. -/
def of (before after : Bench) (result : Except Fault (Option (Nat × Dispatched))) : Attempt :=
  ⟨result, after.cursor, after.calls.drop before.calls.length⟩

theorem failed_of_queued {attempt : Attempt} {action : Int} (h : attempt.queued = some action) :
    attempt.failed = false := by
  unfold queued at h
  split at h
  · rename_i hresult
    rw [failed, hresult]
    rfl
  · cases h

variable {before after : Bench} {action : Int}

/-- A step for an action gives no other action to parsers. -/
theorem eq_of_mem_actions (hcursor : after.cursor = some action)
    (hcalls : before.CallsFor action after)
    (result : Except Fault (Option (Nat × Dispatched))) :
    (∀ a ∈ (of before after result).actions, a = action) ∧
      after.calls = before.calls ++ (of before after result).calls := by
  obtain ⟨new, hnew, haction⟩ := hcalls
  have hdrop : (of before after result).calls = new := by
    show after.calls.drop before.calls.length = new
    rw [hnew, List.drop_left]
  refine ⟨fun a ha => ?_, by rw [hdrop, hnew]⟩
  rw [actions, hdrop, List.mem_append, List.mem_filterMap] at ha
  rcases ha with ha | ⟨call, hcall, ha⟩
  · unfold queued at ha
    split at ha
    · change a ∈ after.cursor.toList at ha
      rw [hcursor] at ha
      simpa using ha
    · cases ha
  · rw [haction call hcall] at ha
    exact (Option.some.inj ha).symm

/-- A step that calls nobody and hands nothing over gives nothing to parsers. -/
theorem actions_eq_nil {result : Except Fault (Option (Nat × Dispatched))}
    (hcalls : after.calls = before.calls)
    (hresult : ∀ sources n, result ≠ .ok (some (sources, .queued n))) :
    (of before after result).actions = [] ∧ (of before after result).calls = [] := by
  have hdrop : (of before after result).calls = [] := by
    show after.calls.drop before.calls.length = []
    rw [hcalls, List.drop_length]
  refine ⟨?_, hdrop⟩
  rw [actions, hdrop, queued]
  split
  · rename_i hqueued
    exact absurd hqueued (hresult _ _)
  · rfl

end Attempt

/-- The collector polls these units. -/
def Bench.hold (working : List Unfinished) (bench : Bench) : Bench :=
  { bench with collector := { bench.collector with working } }

/-- A bench while passes run and the collector works. -/
structure Interim where
  bench : Bench
  /-- units that have all of their results, and whose actions are not marked yet -/
  complete : List Unfinished := []
  /-- actions that are marked and not released yet -/
  marked : List Int := []
  /-- what the steps of passes did, in order -/
  attempts : List Attempt := []

namespace Interim

/-- The units that are not finished. -/
def outstanding (s : Interim) : List Unfinished := s.bench.collector.units ++ s.complete

/-- The actions that are to be in flight. -/
def held (s : Interim) : List Int := s.outstanding.map Unfinished.action ++ s.marked

/-- A step of a pass whose scheduler has looked as far as the cursor. -/
def dispatch (settings : DispatchSettings) (cursor : Option Int) (s : Interim) : Interim :=
  let (result, after) := (passStep settings).run.run { s.bench with cursor }
  { s with bench := after, attempts := s.attempts ++ [.of s.bench after result] }

/-- Take the results of a unit that are there, and put it back if some are missing. -/
def look (before : List Unfinished) (work : Unfinished) (behind : List Unfinished)
    (s : Interim) : Interim :=
  let (work, resolved) := work.poll s.bench.channels
  let bench := { s.bench with tally := s.bench.tally.recordAll resolved }
  if work.isComplete then
    { s with bench := bench.hold (before ++ behind), complete := s.complete ++ [work] }
  else { s with bench := bench.hold (before ++ work :: behind) }

/-- Mark the action of a unit with all its results. -/
def mark (before : List Unfinished) (work : Unfinished) (behind : List Unfinished)
    (s : Interim) : Interim :=
  let tally := if work.isPartial then s.bench.tally.recordPartial else s.bench.tally
  { s with
    bench := ({ s.bench with tally }).mark work.action
    complete := before ++ behind
    marked := s.marked ++ [work.action] }

/-- Release an action that is marked. -/
def release (before : List Int) (action : Int) (behind : List Int) (s : Interim) : Interim :=
  { s with bench := s.bench.release action, marked := before ++ behind }

end Interim

/-- Something else goes on: producers send or go away, index jobs run, the collector starts. No
invalidated transaction stays open. -/
structure Bench.Aside (before after : Bench) : Prop where
  valid : after.database.refuses = false
  actions : after.database.store.actions = before.database.store.actions
  queued : after.collector.queued = before.collector.queued
  working : after.collector.working = before.collector.working
  inFlight : after.collector.inFlight = before.collector.inFlight
  accepts : after.collector.phase ≠ .stopped
  calls : after.calls = before.calls

namespace Interim

/-- One step of a scheduler, of the collector or of anybody else. -/
inductive Step : Interim → Interim → Prop where
  | dispatch (s : Interim) (settings : DispatchSettings) (cursor : Option Int) :
      Step s (s.dispatch settings cursor)
  | receive (s : Interim) :
      Step s { s with bench := { s.bench with collector := s.bench.collector.receive } }
  | look {s : Interim} {before behind : List Unfinished} {work : Unfinished} :
      s.bench.collector.working = before ++ work :: behind → Step s (s.look before work behind)
  | mark {s : Interim} {before behind : List Unfinished} {work : Unfinished} :
      s.complete = before ++ work :: behind → Step s (s.mark before work behind)
  | release {s : Interim} {before behind : List Int} {action : Int} :
      s.marked = before ++ action :: behind → Step s (s.release before action behind)
  | aside {s : Interim} {after : Bench} : s.bench.Aside after → Step s { s with bench := after }

/-- Steps lead from a bench to an interim state. -/
inductive Reaches (start : Bench) : Interim → Prop where
  | start : Reaches start { bench := start }
  | step {s s' : Interim} : Reaches start s → Step s s' → Reaches start s'

/-! ## The guard -/

variable {start : Bench} {s : Interim}

/-- Actions that were given to parsers cannot be dispatched again. -/
structure Guarded (start : Bench) (s : Interim) : Prop where
  nodup : s.held.Nodup
  inFlight : ∀ a ∈ s.held, a ∈ s.bench.collector.inFlight
  marked : ∀ a ∈ s.marked, ¬s.bench.database.store.Outstanding a
  settled : ∀ attempt ∈ s.attempts, attempt.failed = false → ∀ a ∈ attempt.actions,
    a ∈ s.bench.collector.inFlight ∨ ¬s.bench.database.store.Outstanding a
  once : s.attempts.Pairwise fun first later =>
    first.failed = false → ∀ a ∈ first.actions, a ∉ later.actions
  single : ∀ attempt ∈ s.attempts, ∃ a, ∀ b ∈ attempt.actions, b = a
  calls : s.bench.calls = start.calls ++ s.attempts.flatMap Attempt.calls
  accepts : s.bench.collector.phase ≠ .stopped
  valid : s.bench.database.refuses = false

end Interim

theorem Store.Outstanding.of_moved {store : Store} {verdict : ActionRow → ActionState}
    {actions : List Int} {action : Int} (hfinal : ∀ row, verdict row ≠ .created)
    (h : (store.moved verdict actions).Outstanding action) :
    store.Outstanding action ∧ action ∉ actions := by
  obtain ⟨moved, hmem, hid, hstate⟩ := h
  obtain ⟨row, hrow, rfl⟩ := List.mem_map.mp hmem
  rw [Store.id_movedRow] at hid
  rw [Store.movedRow] at hstate
  split at hstate
  · exact absurd hstate (Store.word_ne_createdWord (hfinal row))
  · rename_i hnot
    refine ⟨⟨row, hrow, hid, hstate⟩, fun hin => hnot ⟨?_, hstate⟩⟩
    rwa [hid]

namespace Interim.Guarded

variable {start : Bench} {s s' : Interim}

theorem of_idle (hidle : start.Idle) : Guarded start { bench := start } where
  nodup := by simp [held, outstanding, hidle.units]
  inFlight := by simp [held, outstanding, hidle.units]
  marked := by simp
  settled := by simp
  once := .nil
  single := by simp
  calls := by simp
  accepts := hidle.accepts
  valid := hidle.valid

/-- Steps of others: the actions that are held are the same, and no action comes back. -/
theorem step (h : Guarded start s) (hheld : s'.held.Perm s.held)
    (hmarked : ∀ a ∈ s'.marked, a ∈ s.marked ∨ ¬s'.bench.database.store.Outstanding a)
    (hstore : ∀ a, s'.bench.database.store.Outstanding a → s.bench.database.store.Outstanding a)
    (hinFlight : s'.bench.collector.inFlight = s.bench.collector.inFlight)
    (hattempts : s'.attempts = s.attempts) (hcalls : s'.bench.calls = s.bench.calls)
    (haccepts : s'.bench.collector.phase ≠ .stopped)
    (hvalid : s'.bench.database.refuses = false) : Guarded start s' where
  nodup := hheld.nodup_iff.mpr h.nodup
  inFlight a ha := by
    rw [hinFlight]
    exact h.inFlight a (hheld.mem_iff.mp ha)
  marked a ha hout := (hmarked a ha).elim (fun hm => h.marked a hm (hstore a hout)) (· hout)
  settled attempt hattempt hfailed a ha := by
    rw [hinFlight]
    exact (h.settled attempt (hattempts ▸ hattempt) hfailed a ha).imp_right
      fun hnot hout => hnot (hstore a hout)
  once := hattempts ▸ h.once
  single := hattempts ▸ h.single
  calls := by rw [hcalls, hattempts, h.calls]
  accepts := haccepts
  valid := hvalid

theorem receive (h : Guarded start s) :
    Guarded start { s with bench := { s.bench with collector := s.bench.collector.receive } } := by
  refine h.step ?_ (fun a ha => .inl ha) (fun _ h => h) rfl rfl rfl h.accepts h.valid
  simp [held, outstanding, Collector.units, Collector.receive]

theorem aside {after : Bench} (h : Guarded start s) (ha : s.bench.Aside after) :
    Guarded start { s with bench := after } := by
  refine h.step ?_ (fun a ha => .inl ha) (fun a hout => ?_) ha.inFlight rfl ha.calls ha.accepts
    ha.valid
  · simp [held, outstanding, Collector.units, ha.queued, ha.working]
  · simpa [Store.Outstanding, ha.actions] using hout

theorem look {before behind : List Unfinished} {work : Unfinished} (h : Guarded start s)
    (hworking : s.bench.collector.working = before ++ work :: behind) :
    Guarded start (s.look before work behind) := by
  have haction := (Unfinished.poll_spec (.refl s.bench.channels) work).1
  simp only [Interim.look]
  split
  · refine h.step ?_ (fun a ha => .inl ha) (fun _ h => h) rfl rfl rfl h.accepts h.valid
    rw [List.perm_iff_count]
    intro a
    simp only [held, outstanding, Collector.units, Bench.hold, hworking, List.map_append,
      List.map_cons, List.map_nil, List.count_append, List.count_cons, List.count_nil, haction]
    omega
  · refine h.step ?_ (fun a ha => .inl ha) (fun _ h => h) rfl rfl rfl h.accepts h.valid
    simp [held, outstanding, Collector.units, hworking, haction, Bench.hold]

theorem mark {before behind : List Unfinished} {work : Unfinished} (h : Guarded start s)
    (hcomplete : s.complete = before ++ work :: behind) :
    Guarded start (s.mark before work behind) := by
  have hdatabase := fun tally => @Bench.database_mark { s.bench with tally } work.action h.valid
  have hmoved : ∀ a, (s.mark before work behind).bench.database.store.Outstanding a →
      s.bench.database.store.Outstanding a ∧ a ∉ [work.action] := by
    intro a hout
    simp only [Interim.mark, hdatabase] at hout
    exact Store.Outstanding.of_moved (fun _ => by decide) hout
  refine h.step ?_ (fun a ha => ?_) (fun a hout => (hmoved a hout).1) rfl rfl rfl h.accepts ?_
  · rw [List.perm_iff_count]
    intro a
    have hmarked : (s.mark before work behind).held =
        (s.bench.collector.units ++ (before ++ behind)).map Unfinished.action ++
          (s.marked ++ [work.action]) := rfl
    rw [hmarked]
    simp only [held, outstanding, hcomplete, List.map_append, List.map_cons,
      List.count_append, List.count_cons, List.count_nil]
    omega
  · rcases List.mem_append.mp ha with ha | ha
    · exact .inl ha
    · exact .inr fun hout => (hmoved a hout).2 ha
  · simp only [Interim.mark, hdatabase]
    simp [Database.refuses]

theorem release {before behind : List Int} {action : Int} (h : Guarded start s)
    (hmarked : s.marked = before ++ action :: behind) :
    Guarded start (s.release before action behind) := by
  have hperm : (action :: (s.release before action behind).held).Perm s.held := by
    rw [List.perm_iff_count]
    intro a
    simp only [held, outstanding, Interim.release, Bench.release, Collector.release,
      Collector.units, hmarked, List.count_append, List.count_cons]
    omega
  have hnodup := List.nodup_cons.mp (hperm.nodup_iff.mpr h.nodup)
  have hin : ∀ a, a ∈ (s.release before action behind).bench.collector.inFlight ↔
      a ∈ s.bench.collector.inFlight ∧ a ≠ action := by
    intro a
    simp [Interim.release, Bench.release, Collector.release]
  have hgone : ¬s.bench.database.store.Outstanding action :=
    h.marked action (by rw [hmarked]; simp)
  refine ⟨hnodup.2, fun a ha => (hin a).mpr ⟨?_, ?_⟩, fun a ha => ?_, ?_, h.once, h.single,
    h.calls, h.accepts, h.valid⟩
  · exact h.inFlight a (hperm.mem_iff.mp (.tail _ ha))
  · rintro rfl
    exact hnodup.1 ha
  · refine h.marked a ?_
    rw [hmarked]
    exact (List.mem_append.mp ha).elim (List.mem_append_left _) fun ha =>
      List.mem_append_right _ (.tail _ ha)
  · intro attempt hattempt hfailed a ha
    by_cases hsame : a = action
    · rw [hsame]
      exact .inr hgone
    · exact (h.settled attempt hattempt hfailed a ha).imp_left fun hflight =>
        (hin a).mpr ⟨hflight, hsame⟩

/-- A step of a pass gave some actions to parsers that were outstanding and not in flight. -/
theorem attempt {after : Bench} {attempt : Attempt} (h : Guarded start s)
    (hnodup : ({ s with bench := after } : Interim).held.Nodup)
    (hheld : ∀ a ∈ ({ s with bench := after } : Interim).held, a ∈ after.collector.inFlight)
    (hinFlight : ∀ a ∈ s.bench.collector.inFlight, a ∈ after.collector.inFlight)
    (hstore : ∀ a, after.database.store.Outstanding a → s.bench.database.store.Outstanding a)
    (hfree : ∀ a ∈ attempt.actions,
      a ∉ s.bench.collector.inFlight ∧ s.bench.database.store.Outstanding a)
    (hqueued : attempt.failed = false → ∀ a ∈ attempt.actions, a ∈ after.collector.inFlight)
    (hsingle : ∃ a, ∀ b ∈ attempt.actions, b = a)
    (hcalls : after.calls = s.bench.calls ++ attempt.calls)
    (haccepts : after.collector.phase ≠ .stopped) (hvalid : after.database.refuses = false) :
    Guarded start { s with bench := after, attempts := s.attempts ++ [attempt] } where
  nodup := hnodup
  inFlight := hheld
  marked a ha hout := h.marked a ha (hstore a hout)
  settled earlier hearlier hfailed a ha := by
    rcases List.mem_append.mp hearlier with hearlier | hearlier
    · exact (h.settled earlier hearlier hfailed a ha).imp (hinFlight a)
        fun hnot hout => hnot (hstore a hout)
    · rw [List.mem_singleton.mp hearlier] at hfailed ha
      exact .inl (hqueued hfailed a ha)
  once := by
    refine List.pairwise_append.mpr ⟨h.once, List.pairwise_singleton _ _, ?_⟩
    intro earlier hearlier later hlater hfailed a ha hagain
    rw [List.mem_singleton.mp hlater] at hagain
    obtain ⟨hnot, hout⟩ := hfree a hagain
    exact (h.settled earlier hearlier hfailed a ha).elim hnot (· hout)
  single earlier hearlier := by
    rcases List.mem_append.mp hearlier with hearlier | hearlier
    · exact h.single earlier hearlier
    · rw [List.mem_singleton.mp hearlier]
      exact hsingle
  calls := by simp [hcalls, h.calls]
  accepts := haccepts
  valid := hvalid

/-- A step that leaves the units gives no action to parsers, unless it fails. -/
theorem attempt_rest {after : Bench} {attempt : Attempt} (h : Guarded start s)
    (hcollector : after.collector = s.bench.collector)
    (hstore : ∀ a, after.database.store.Outstanding a → s.bench.database.store.Outstanding a)
    (hfree : ∀ a ∈ attempt.actions,
      a ∉ s.bench.collector.inFlight ∧ s.bench.database.store.Outstanding a)
    (hnone : attempt.failed = false → attempt.actions = [])
    (hsingle : ∃ a, ∀ b ∈ attempt.actions, b = a)
    (hcalls : after.calls = s.bench.calls ++ attempt.calls)
    (hvalid : after.database.refuses = false) :
    Guarded start { s with bench := after, attempts := s.attempts ++ [attempt] } := by
  have hsame : ({ s with bench := after } : Interim).held = s.held := by
    simp [held, outstanding, hcollector]
  refine h.attempt ?_ ?_ ?_ hstore hfree (fun hfailed a ha => ?_) hsingle hcalls ?_ hvalid
  · exact hsame ▸ h.nodup
  · rw [hsame, hcollector]
    exact h.inFlight
  · rw [hcollector]
    exact fun _ ha => ha
  · rw [hnone hfailed] at ha
    cases ha
  · rw [hcollector]
    exact h.accepts

/-- A step that leaves the units and the calls. -/
theorem attempt_silent {after : Bench} {result : Except Fault (Option (Nat × Dispatched))}
    (h : Guarded start s) (hcollector : after.collector = s.bench.collector)
    (hstore : ∀ a, after.database.store.Outstanding a → s.bench.database.store.Outstanding a)
    (hcalls : after.calls = s.bench.calls) (hvalid : after.database.refuses = false)
    (hresult : ∀ sources n, result ≠ .ok (some (sources, .queued n))) :
    Guarded start
      { s with bench := after, attempts := s.attempts ++ [.of s.bench after result] } := by
  obtain ⟨hactions, hnone⟩ := Attempt.actions_eq_nil hcalls hresult
  refine h.attempt_rest hcollector hstore ?_ (fun _ => hactions) ⟨0, ?_⟩ ?_ hvalid
  · simp [hactions]
  · simp [hactions]
  · rw [hnone, hcalls, List.append_nil]

theorem attempt_queued {after : Bench} {work : Unfinished} {sources n : Nat}
    (h : Guarded start s) (hcollector : after.collector = s.bench.collector.queue work)
    (hstore : ∀ a, after.database.store.Outstanding a → s.bench.database.store.Outstanding a)
    (hvalid : after.database.refuses = false)
    (hfree : work.action ∉ s.bench.collector.inFlight)
    (houtstanding : s.bench.database.store.Outstanding work.action)
    (hcursor : after.cursor = some work.action) (hcalls : s.bench.CallsFor work.action after) :
    Guarded start
      { s with
        bench := after
        attempts := s.attempts ++ [.of s.bench after (.ok (some (sources, .queued n)))] } := by
  obtain ⟨honly, hnew⟩ := Attempt.eq_of_mem_actions hcursor hcalls (.ok (some (sources, .queued n)))
  obtain ⟨hunits, hin, hphase⟩ := Collector.queue_spec h.accepts work
  rw [← hcollector] at hunits hin hphase
  have hheld : ({ s with bench := after } : Interim).held.Perm (work.action :: s.held) := by
    rw [List.perm_iff_count]
    intro a
    simp only [held, outstanding, hunits, List.map_append, List.map_cons, List.map_nil,
      List.count_append, List.count_cons, List.count_nil]
    omega
  refine h.attempt ?_ (fun a ha => ?_) (fun a ha => ?_) hstore (fun a ha => ?_)
    (fun _ a ha => ?_) ⟨_, honly⟩ hnew (hphase ▸ h.accepts) hvalid
  · rw [hheld.nodup_iff, List.nodup_cons]
    exact ⟨fun hmem => hfree (h.inFlight _ hmem), h.nodup⟩
  · rw [hin, Ascending.mem_insert]
    exact (List.mem_cons.mp (hheld.mem_iff.mp ha)).imp_right (h.inFlight a)
  · rw [hin, Ascending.mem_insert]
    exact .inr ha
  · rw [honly a ha]
    exact ⟨hfree, houtstanding⟩
  · rw [hin, Ascending.mem_insert]
    exact .inl (honly a ha)

theorem dispatch (h : Guarded start s) (settings : DispatchSettings) (cursor : Option Int) :
    Guarded start (s.dispatch settings cursor) := by
  have hcases := passStep_cases settings { s.bench with cursor }
  simp only [Interim.dispatch]
  rcases hrun : (passStep settings).run.run { s.bench with cursor } with ⟨result, after⟩
  rw [hrun] at hcases
  rcases hcases with ⟨task, hoffered, hends⟩ | ⟨hnone, hunmoved⟩
  · have hactions : ∀ a, after.database.store.Outstanding a →
        s.bench.database.store.Outstanding a := by
      intro a hout
      obtain ⟨state, actions, hfinal, hextends⟩ := hends.extends
      rw [Store.Outstanding, hextends.actions] at hout
      exact (Store.Outstanding.of_moved (fun _ => hfinal) hout).1
    cases hends with
    | linked hkind hstore hleaves hcalls =>
      exact h.attempt_silent hleaves.collector hactions hcalls hleaves.valid (by simp)
    | skipped hkind hsources hstore hleaves hcalls =>
      exact h.attempt_silent hleaves.collector hactions hcalls hleaves.valid (by simp)
    | queued hkind hsources hlength hstore hleaves hcalls =>
      exact h.attempt_queued hleaves.collector hactions hleaves.valid hoffered.free
        hoffered.outstanding hleaves.cursor hcalls
    | failed hanswers hrecorded hstore hleaves hcalls =>
      obtain ⟨honly, hnew⟩ := Attempt.eq_of_mem_actions hleaves.cursor hcalls (.error _)
      refine h.attempt_rest hleaves.collector hactions (fun a ha => ?_)
        (fun hfailed => by cases hfailed) ⟨_, honly⟩ hnew hleaves.valid
      rw [honly a ha]
      exact ⟨hoffered.free, hoffered.outstanding⟩
  · exact h.attempt_silent hunmoved.collector (fun a hout => hunmoved.store ▸ hout) hunmoved.calls
      (hunmoved.valid h.valid) fun sources n => hnone (sources, .queued n)

end Interim.Guarded

open Interim in
/-- Every interleaving keeps the guard. -/
theorem Interim.Reaches.guarded {start : Bench} {s : Interim} (hreaches : Reaches start s)
    (hidle : start.Idle) : Guarded start s := by
  induction hreaches with
  | start => exact .of_idle hidle
  | step _ hstep ih =>
    cases hstep with
    | dispatch settings cursor => exact ih.dispatch settings cursor
    | receive => exact ih.receive
    | look hworking => exact ih.look hworking
    | mark hcomplete => exact ih.mark hcomplete
    | release hmarked => exact ih.release hmarked
    | aside haside => exact ih.aside haside

/-! ## Rounds and whole passes -/

namespace Bench

/-- What a poll does to a unit does not depend on the others. -/
theorem pollUnit_hold (working : List Unfinished) (work : Unfinished) (bench : Bench) :
    (bench.hold working).pollUnit work =
      ((bench.pollUnit work).1, (bench.pollUnit work).2.hold working) := by
  cases hcomplete : (work.poll bench.channels).1.isComplete <;>
    simp only [pollUnit, hold, hcomplete] <;> rfl

theorem pollUnits_hold (working units : List Unfinished) (bench : Bench) :
    (bench.hold working).pollUnits units =
      ((bench.pollUnits units).1, (bench.pollUnits units).2.hold working) := by
  induction units generalizing bench with
  | nil => rfl
  | cons work rest ih => simp only [pollUnits, pollUnit_hold, ih]

end Bench

namespace Interim.Reaches

variable {start : Bench} {s : Interim}

theorem pollUnit {waiting rest : List Unfinished} {work : Unfinished} (h : Reaches start s)
    (hworking : s.bench.collector.working = waiting ++ work :: rest) :
    Reaches start { s with
      bench := (s.bench.pollUnit work).2.hold
        (waiting ++ (s.bench.pollUnit work).1.toList ++ rest) } := by
  have hlook := h.step (.look hworking)
  simp only [look] at hlook
  simp only [Bench.pollUnit]
  cases hcomplete : (work.poll s.bench.channels).1.isComplete with
  | true =>
    rw [hcomplete, if_pos rfl] at hlook
    have hreleased := (hlook.step (.mark rfl)).step (.release rfl)
    simp only [mark, release, List.append_nil] at hreleased
    rw [if_pos rfl, Option.toList_none, List.append_nil]
    exact hreleased
  | false =>
    rw [hcomplete] at hlook
    simpa using hlook

/-- A round of the collector is made of such steps. -/
theorem poll (h : Reaches start s) : Reaches start { s with bench := s.bench.poll } := by
  have hunits : ∀ (units waiting : List Unfinished) (s : Interim), Reaches start s →
      s.bench.collector.working = waiting ++ units →
      Reaches start { s with
        bench := (s.bench.pollUnits units).2.hold (waiting ++ (s.bench.pollUnits units).1) } := by
    intro units
    induction units with
    | nil =>
      intro waiting s h hworking
      rw [List.append_nil] at hworking
      simp only [Bench.pollUnits, Bench.hold, List.append_nil, ← hworking]
      exact h
    | cons work rest ih =>
      intro waiting s h hworking
      have hrest := ih _ _ (h.pollUnit hworking) rfl
      simp only [Bench.pollUnits_hold] at hrest
      simp only [Bench.pollUnits, ← List.append_assoc]
      exact hrest
  exact hunits _ [] _ (h.step (.receive s)) rfl

theorem settle (h : Reaches start s) (hidle : start.Idle) (tree : FileTree) :
    Reaches start { s with bench := s.bench.settle tree } := by
  have hunseen := s.bench.unseen_runJobs Source.extract tree
  have haccepts := (h.guarded hidle).accepts
  have haside : s.bench.Aside (s.bench.runJobs Source.extract tree) :=
    ⟨hunseen.refuses.trans (h.guarded hidle).valid, hunseen.store.actions,
      by rw [hunseen.collector], by rw [hunseen.collector], by rw [hunseen.collector],
      by rwa [hunseen.collector], hunseen.calls⟩
  have hjobs := h.step (.aside haside)
  dsimp only [Bench.settle]
  split
  · exact hjobs.poll
  · exact hjobs
  · exact hjobs
  · exact hjobs

/-- A whole pass, with what goes on in the background, is made of such steps. -/
theorem runPass (h : Reaches start s) (hidle : start.Idle) (settings : DispatchSettings)
    (tree : FileTree) :
    ∃ attempts, Reaches start { s with
      bench := (runPass settings tree s.bench).2, attempts := s.attempts ++ attempts } := by
  have hwithin : ∀ (total n : Nat) (pass : Pass) (s : Interim), Reaches start s →
      ∃ attempts, Reaches start { s with
        bench := (passWithin settings tree total n pass s.bench).2
        attempts := s.attempts ++ attempts } := by
    intro total n
    induction n with
    | zero => exact fun pass s h => ⟨[], by simpa [passWithin] using h⟩
    | succ n ih =>
      intro pass s h
      have hstep := (h.step (.dispatch s settings s.bench.cursor)).settle hidle tree
      have hbench : { s.bench with cursor := s.bench.cursor } = s.bench := rfl
      simp only [Interim.dispatch, hbench] at hstep
      simp only [passWithin]
      rcases hrun : (passStep settings).run.run s.bench with ⟨result, after⟩
      rw [hrun] at hstep
      rcases result with fault | _ | ⟨sources, dispatched⟩
      · exact ⟨_, hstep⟩
      · exact ⟨_, hstep⟩
      · obtain ⟨attempts, hrest⟩ := ih _ _ hstep
        simp only [List.append_assoc] at hrest
        exact ⟨_, hrest⟩
  have hbegin : Reaches start { s with bench := { s.bench with cursor := none } } :=
    h.step (.aside ⟨(h.guarded hidle).valid, rfl, rfl, rfl, rfl, (h.guarded hidle).accepts, rfl⟩)
  exact hwithin _ _ _ _ hbegin

end Interim.Reaches

/-- Passes, the collector and others take their steps in any order, none of them stopping the
collector. At any time an action has at most one unit that is not finished, and it is in flight. No
action is handed over twice: once a step has given an action to parsers and has not failed, no later
step gives it to them again. A step gives one action at most, and all calls come from steps. Rounds
of the collector and whole passes are made of such steps. -/
theorem dispatched_at_most_once {start : Bench} {s : Interim} (hidle : start.Idle)
    (hreaches : Interim.Reaches start s) :
    (s.outstanding.map Unfinished.action).Nodup ∧
    (∀ work ∈ s.outstanding, work.action ∈ s.bench.collector.inFlight) ∧
    (s.attempts.filterMap Attempt.queued).Nodup ∧
    (s.attempts.Pairwise fun first later =>
      first.failed = false → ∀ a ∈ first.actions, a ∉ later.actions) ∧
    (∀ attempt ∈ s.attempts, ∃ a, ∀ b ∈ attempt.actions, b = a) ∧
    s.bench.calls = start.calls ++ s.attempts.flatMap Attempt.calls ∧
    Interim.Reaches start { s with bench := s.bench.poll } ∧
    ∀ settings tree, ∃ attempts, Interim.Reaches start { s with
      bench := (runPass settings tree s.bench).2, attempts := s.attempts ++ attempts } := by
  have hguarded := hreaches.guarded hidle
  refine ⟨(List.nodup_append.mp hguarded.nodup).1, fun work hwork => ?_, ?_, hguarded.once,
    hguarded.single, hguarded.calls, hreaches.poll, hreaches.runPass hidle⟩
  · exact hguarded.inFlight _ (List.mem_append_left _ (List.mem_map_of_mem hwork))
  · refine List.pairwise_filterMap.mpr (hguarded.once.imp fun honce a ha b hb hsame => ?_)
    refine honce (Attempt.failed_of_queued ha) a ?_ ?_
    · simp [Attempt.actions, ha]
    · simp [Attempt.actions, hb, hsame]

/-- A parser whose results come later. -/
def lateSettings : DispatchSettings where
  registry.parsers := [.plugin {
    name := "late"
    accepts := fun _ => true
    parse := fun view _ _ _ _ => (some .channel, { memory := view.memory }) }]

/-- One outstanding action with one source. -/
def soloBench : Bench where
  database := ⟨{ actions := [⟨1, "compile", "created", "cc a.c", "p"⟩]
                 files := [⟨1, "a.c", some "c"⟩]
                 sources := [⟨1, 1, 0⟩] }, {}, 0, false⟩

/-- The action is dispatched, and a second pass finds it in flight. Then its result comes, it is
marked, a third pass finds it marked before it is released, and a fourth one afterwards. -/
def soloInterim : Interim :=
  let s := ({ bench := soloBench } : Interim).dispatch lateSettings none
  let s := s.dispatch lateSettings none
  let s := { s with bench := { s.bench with channels := s.bench.channels.send 0 .success } }
  let s := { s with bench := { s.bench with collector := s.bench.collector.receive } }
  let s := s.look [] { action := 1, results := [⟨.pending 0, some "c"⟩] } []
  let s := s.mark [] { action := 1, results := [], succeeded := 1 } []
  let s := (s.dispatch lateSettings none).release [] 1 []
  s.dispatch lateSettings none

theorem dispatched_at_most_once_solo :
    soloBench.Idle ∧ Interim.Reaches soloBench soloInterim ∧
    soloInterim.attempts.map Attempt.queued = [some 1, none, none, none] ∧
    (soloInterim.attempts.filterMap Attempt.queued).Nodup ∧
    soloInterim.bench.calls = soloBench.calls ++ soloInterim.attempts.flatMap Attempt.calls ∧
    soloInterim.bench.calls.length = 1 := by
  have hidle : soloBench.Idle := ⟨rfl, rfl, by decide, rfl⟩
  have hsent : ∀ s : Interim, s.bench.database.refuses = false →
      s.bench.collector.phase ≠ .stopped →
      s.bench.Aside { s.bench with channels := s.bench.channels.send 0 .success } :=
    fun _ hvalid haccepts => ⟨hvalid, rfl, rfl, rfl, rfl, haccepts, rfl⟩
  have hreaches : Interim.Reaches soloBench soloInterim := by
    have hdispatched := (@Interim.Reaches.start soloBench).step (.dispatch _ lateSettings none)
    have hagain := hdispatched.step (.dispatch _ lateSettings none)
    have hreceived := (hagain.step (.aside (hsent _ (by decide +kernel) (by decide +kernel)))).step
      (.receive _)
    have hlooked := @Interim.Reaches.step _ _ _ hreceived (@Interim.Step.look _ [] []
      { action := 1, results := [⟨.pending 0, some "c"⟩] } (by cbv))
    have hmarked := @Interim.Reaches.step _ _ _ hlooked (@Interim.Step.mark _ [] []
      { action := 1, results := [], succeeded := 1 } (by cbv))
    have hreleased := (hmarked.step (.dispatch _ lateSettings none)).step
      (@Interim.Step.release _ [] [] 1 (by cbv))
    exact hreleased.step (.dispatch _ lateSettings none)
  obtain ⟨-, -, honce, -, -, hcalls, -⟩ := dispatched_at_most_once hidle hreaches
  exact ⟨hidle, hreaches, by decide +kernel, honce, hcalls, by decide +kernel⟩

end SymbolAtlas
