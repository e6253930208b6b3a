import SymbolAtlas.Proofs.Dispatch.Units

/-!
# A collector that stops

A collector that stops waits for one result after the other. Between two of its steps, producers may
send or go away, and what else goes on may go on.

- **Courses** (`Bench.Stopping`, `Bench.Stops`): the steps of a collector that stops, with whatever
  happens between them; a property that taking a result and finishing a unit keep holds all along
  (`Stopping.keeps`).
- **Progress** (`stopStep_cases`, `stepsLeft_stopStep`): a step is possible, or blocks since the
  next result is not there, and every step leaves less to do. So the collector stops at once if no
  result is missing (`phase_stop`).
- **In the end** (`Stopping.eq_stopped`): if only producers did something meanwhile, it is as if all
  that they did had been done before and every unit had then been concluded (`Bench.stopped`).
-/

namespace SymbolAtlas

theorem Collector.stopped_eq {collector : Collector} (hphase : collector.phase = .stopped)
    (hqueued : collector.queued = []) (hworking : collector.working = []) :
    { collector with phase := .stopped, queued := [], working := [] } = collector := by
  obtain ⟨phase, queued, working, inFlight⟩ := collector
  cases hphase
  cases hqueued
  cases hworking
  rfl

namespace Bench

variable {bench now after : Bench} {work : Unfinished} {rest : List Unfinished}

/-! ## Steps -/

/-- What a step of a collector that stops comes to. -/
theorem stopStep_cases (h : bench.stopStep = some after) :
    bench.collector.phase = .stopping ∧
    ((∃ work rest, bench.collector.working = work :: rest ∧ work.results = [] ∧
      after = ({ bench with collector := { bench.collector with working := rest } }).finish work) ∨
    (∃ work rest found left, bench.collector.working = work :: rest ∧
      work.takeNext bench.channels = some (found, left) ∧
      after = { bench with
        tally := bench.tally.record found.1 found.2
        collector := { bench.collector with working := left :: rest } }) ∨
    (bench.collector.working = [] ∧
      after = { bench with
        collector := { bench.collector with phase := .stopped, queued := [] } })) := by
  unfold stopStep at h
  split at h
  next work rest hphase hworking =>
    refine ⟨hphase, ?_⟩
    split at h
    next hcomplete =>
      refine .inl ⟨work, rest, hworking, ?_, (Option.some.inj h).symm⟩
      simpa [Unfinished.isComplete] using hcomplete
    next =>
      obtain ⟨⟨found, left⟩, htake, hafter⟩ := Option.map_eq_some_iff.mp h
      exact .inr (.inl ⟨work, rest, found, left, hworking, htake, hafter.symm⟩)
  next hphase hworking => exact ⟨hphase, .inr (.inr ⟨hworking, (Option.some.inj h).symm⟩)⟩
  all_goals cases h

/-- A collector that stops takes a step, or waits for a result that is not there. -/
theorem stopStep_progress (hphase : bench.collector.phase = .stopping) :
    (∃ after, bench.stopStep = some after) ∨
    ∃ work ∈ bench.collector.working.head?, ∃ result ∈ work.results.head?,
      result.handle.resolved bench.channels = false := by
  unfold stopStep
  rw [hphase]
  cases bench.collector.working with
  | nil => exact .inl ⟨_, rfl⟩
  | cons work rest =>
    dsimp only
    cases hresults : work.results with
    | nil => exact .inl ⟨_, if_pos (by simp [Unfinished.isComplete, hresults])⟩
    | cons result results =>
      rw [if_neg (by simp [Unfinished.isComplete, hresults])]
      cases htake : work.takeNext bench.channels with
      | some found => exact .inl ⟨_, rfl⟩
      | none =>
        have hblocked := Unfinished.takeNext_eq_none_iff.mp htake
        rw [hresults] at hblocked
        exact .inr ⟨work, rfl, result, by rw [hresults]; rfl, hblocked result rfl⟩

/-- Every step leaves less to do. -/
theorem stepsLeft_stopStep (h : bench.stopStep = some after) :
    after.collector.phase = .stopped ∨
      after.collector.phase = .stopping ∧
        after.collector.stepsLeft + 1 = bench.collector.stepsLeft := by
  obtain ⟨hphase, ⟨work, rest, hworking, hnone, rfl⟩ | ⟨work, rest, found, left, hworking, htake, rfl⟩ |
    ⟨-, rfl⟩⟩ := stopStep_cases h
  · refine .inr ⟨hphase, ?_⟩
    simp only [collector_finish, Collector.release, Collector.stepsLeft, hworking,
      List.flatMap_cons, List.length_append, List.length_cons, hnone, List.length_nil]
    omega
  · refine .inr ⟨hphase, ?_⟩
    have hlength := (Unfinished.takeNext_spec htake (.refl _)).2.2.2.2.2
    simp only [Collector.stepsLeft, hworking, List.flatMap_cons, List.length_append,
      List.length_cons, hlength]
    omega
  · exact .inl rfl

/-! ## Courses -/

/-- The collector of a bench stops, and between its steps other things happen. -/
inductive Stopping (other : Bench → Bench → Prop) (bench : Bench) : Bench → Prop where
  | begin : Stopping other bench bench.beginStop
  | step {now after : Bench} : Stopping other bench now → now.stopStep = some after →
      Stopping other bench after
  | meanwhile {now after : Bench} : Stopping other bench now → other now after →
      Stopping other bench after

/-- The collector of a bench has stopped. -/
def Stops (other : Bench → Bench → Prop) (bench final : Bench) : Prop :=
  Stopping other bench final ∧ final.collector.phase = .stopped

section

variable {other : Bench → Bench → Prop} {P : List Unfinished → Bench → Prop}
  (hlists : ∀ units bench collector, collector.inFlight = bench.collector.inFlight →
    P units bench → P units { bench with collector })
  (htake : ∀ work others bench found left, work.takeNext bench.channels = some (found, left) →
    P (work :: others) bench →
    P (left :: others) { bench with tally := bench.tally.record found.1 found.2 })
  (hfinish : ∀ work others bench, work.results = [] → P (work :: others) bench →
    P others (bench.finish work))

include hlists htake hfinish in
theorem stopStep_keeps (h : now.stopStep = some after) (hqueued : now.collector.queued = [])
    (hnow : P now.collector.units now) :
    P after.collector.units after ∧ after.collector.queued = [] := by
  obtain ⟨-, ⟨work, rest, hworking, hnone, rfl⟩ | ⟨work, rest, found, left, hworking, hfound, rfl⟩ |
    ⟨hworking, rfl⟩⟩ := stopStep_cases h
  · rw [Collector.units, hworking, hqueued, List.append_nil] at hnow
    refine ⟨?_, hqueued⟩
    have hfinished := hfinish work rest _ hnone (hlists _ now
      { now.collector with working := rest } rfl hnow)
    simpa [Collector.units, Collector.release, hqueued] using hfinished
  · rw [Collector.units, hworking, hqueued, List.append_nil] at hnow
    refine ⟨?_, hqueued⟩
    have htaken := hlists _ { now with tally := now.tally.record found.1 found.2 }
      { now.collector with working := left :: rest } rfl
      (htake work rest now found left hfound hnow)
    simpa [Collector.units, hqueued] using htaken
  · rw [Collector.units, hworking, hqueued] at hnow
    refine ⟨?_, rfl⟩
    simpa [Collector.units, hworking] using
      hlists _ now { now.collector with phase := .stopped, queued := [] } rfl hnow

include hlists htake hfinish in
/-- What taking a result, finishing a unit and all that happens meanwhile keep holds all along. -/
theorem Stopping.keeps (hother : ∀ now after, other now after →
      after.collector = now.collector ∧ ∀ units, P units now → P units after)
    (h : Stopping other bench now) (hbench : P bench.collector.units bench) :
    P now.collector.units now ∧ now.collector.queued = [] := by
  induction h with
  | begin =>
    refine ⟨?_, rfl⟩
    simpa [beginStop, Collector.receive, Collector.units] using
      hlists _ bench bench.beginStop.collector rfl hbench
  | step _ hstep ih => exact stopStep_keeps hlists htake hfinish hstep ih.2 ih.1
  | meanwhile _ hmeanwhile ih =>
    obtain ⟨hcollector, hkept⟩ := hother _ _ hmeanwhile
    rw [hcollector]
    exact ⟨hkept _ ih.1, ih.2⟩

end

/-- A collector is stopped when it has no unit any more, and not before. -/
theorem Stopping.phase {other : Bench → Bench → Prop}
    (hother : ∀ now after, other now after → after.collector = now.collector)
    (h : Stopping other bench now) :
    now.collector.queued = [] ∧ (now.collector.phase = .stopping ∨
      now.collector.phase = .stopped ∧ now.collector.working = []) := by
  induction h with
  | begin => exact ⟨rfl, .inl rfl⟩
  | step _ hstep ih =>
    obtain ⟨hphase, ⟨work, rest, -, -, rfl⟩ | ⟨work, rest, found, left, -, -, rfl⟩ | ⟨hnone, rfl⟩⟩ :=
      stopStep_cases hstep
    · exact ⟨ih.1, .inl hphase⟩
    · exact ⟨ih.1, .inl hphase⟩
    · exact ⟨rfl, .inr ⟨rfl, hnone⟩⟩
  | meanwhile _ hmeanwhile ih =>
    rw [hother _ _ hmeanwhile]
    exact ih

/-- Nothing is held once the collector has stopped. -/
theorem Stops.units_eq_nil {other : Bench → Bench → Prop} {final : Bench}
    (h : Stops other bench final)
    (hother : ∀ now after, other now after → after.collector = now.collector) :
    final.collector.units = [] := by
  obtain ⟨hqueued, hphase | ⟨-, hworking⟩⟩ := h.1.phase hother
  · rw [h.2] at hphase
    cases hphase
  · rw [Collector.units, hworking, hqueued]
    rfl

/-! ## The end of a course -/

/-- Producers send, or go away. -/
def Produces (before after : Bench) : Prop :=
  ∃ channels, before.channels.Leads channels ∧ after = { before with channels }

theorem Produces.collector {before after : Bench} (h : Produces before after) :
    after.collector = before.collector := by
  obtain ⟨_, -, rfl⟩ := h
  rfl

/-- Units are concluded, one after the other. -/
def concludeAll (units : List Unfinished) (bench : Bench) : Bench :=
  units.foldl (fun bench work => bench.conclude work) bench

/-- The bench with its collector stopped, where every unit is concluded as the channels are now. -/
def stopped (bench : Bench) : Bench :=
  concludeAll bench.collector.units
    { bench with
      collector := { bench.collector with phase := .stopped, queued := [], working := [] } }

/-- What a collector that stops has done and what is left for it make up all that it had to do. -/
theorem Stopping.stopped_eq {later : Channels} (h : Stopping Produces bench now)
    (hl : now.channels.Leads later) :
    ({ now with channels := later } : Bench).stopped =
      ({ bench with channels := later } : Bench).stopped := by
  induction h with
  | begin => simp [stopped, beginStop, Collector.receive, Collector.units]
  | @step now after hnow hstep ih =>
    have hqueued := (hnow.phase fun _ _ => Produces.collector).1
    obtain ⟨-, ⟨work, rest, hworking, hnone, rfl⟩ | ⟨work, rest, found, left, hworking, htake, rfl⟩ |
      ⟨hworking, rfl⟩⟩ := stopStep_cases hstep
    · rw [← ih hl]
      have hdrained : work.drained later = work := by
        rw [Unfinished.drained, Unfinished.outcomes, hnone]
        exact congrArg (fun results => ({ work with results } : Unfinished)) hnone.symm
      have houtcomes : work.outcomes later = [] := by rw [Unfinished.outcomes, hnone]; rfl
      simp only [stopped, Collector.units, collector_finish, Collector.release, hworking, hqueued,
        List.append_nil, concludeAll, List.foldl_cons, conclude, hdrained, houtcomes]
      rfl
    · rw [← ih hl]
      obtain ⟨-, houtcomes, hdrained, -⟩ := Unfinished.takeNext_spec htake hl
      simp only [stopped, Collector.units, hworking, hqueued, List.append_nil, concludeAll,
        List.foldl_cons, conclude, houtcomes, hdrained]
      rfl
    · rw [← ih hl]
      simp [stopped, Collector.units, hworking, hqueued]
  | meanwhile _ hmeanwhile ih =>
    obtain ⟨channels, hchannels, rfl⟩ := hmeanwhile
    exact ih (hchannels.trans hl)

/-- When the collector has stopped, it is as if all that producers did meanwhile had been done
before and every unit had then been concluded. -/
theorem Stops.eq_stopped (h : Stops Produces bench now) :
    now = ({ bench with channels := now.channels } : Bench).stopped := by
  obtain ⟨hstopping, hphase⟩ := h
  obtain ⟨hqueued, hstopped | ⟨-, hworking⟩⟩ :=
    hstopping.phase fun _ _ => Produces.collector
  · rw [hphase] at hstopped
    cases hstopped
  · rw [← hstopping.stopped_eq (.refl _)]
    simp only [stopped, Collector.units, hworking, hqueued, List.append_nil, concludeAll,
      List.foldl_nil, Collector.stopped_eq hphase hqueued hworking]

/-! ## Stopping at once -/

theorem stopping_stopWithin {other : Bench → Bench → Prop} (n : Nat)
    (h : Stopping other bench now) : Stopping other bench (now.stopWithin n) := by
  induction n generalizing now with
  | zero => exact h
  | succ n ih =>
    rw [stopWithin]
    cases hstep : now.stopStep with
    | none => exact h
    | some after => exact ih (h.step hstep)

/-- To stop the collector is a course without anything else. -/
theorem stopping_stop (other : Bench → Bench → Prop) (bench : Bench) :
    Stopping other bench bench.stop := stopping_stopWithin _ .begin

section

variable {P : List Unfinished → Bench → Prop}
  (hlists : ∀ units bench collector, collector.inFlight = bench.collector.inFlight →
    P units bench → P units { bench with collector })
  (htake : ∀ work others bench found left, work.takeNext bench.channels = some (found, left) →
    P (work :: others) bench →
    P (left :: others) { bench with tally := bench.tally.record found.1 found.2 })
  (hfinish : ∀ work others bench, work.results = [] → P (work :: others) bench →
    P others (bench.finish work))

include hlists htake hfinish in
/-- Stopping the collector keeps what taking a result and finishing a unit keep. -/
theorem stop_keeps (bench : Bench) (h : P bench.collector.units bench) :
    P bench.stop.collector.units bench.stop :=
  ((stopping_stop (fun _ _ => False) bench).keeps hlists htake hfinish (fun _ _ => False.elim) h).1

end

theorem channels_stop (bench : Bench) : bench.stop.channels = bench.channels :=
  stop_keeps (P := fun _ b => b.channels = bench.channels) (fun _ _ _ _ h => h)
    (fun _ _ _ _ _ _ h => h) (fun _ _ _ _ h => h) bench rfl

/-- A collector that stops and for which no result is missing comes to its end. -/
theorem phase_stopWithin (n : Nat) (hphase : now.collector.phase = .stopping)
    (hqueued : now.collector.queued = [])
    (hresolved : ∀ work ∈ now.collector.units, work.resolved now.channels = true)
    (hn : now.collector.stepsLeft ≤ n) : (now.stopWithin n).collector.phase = .stopped := by
  induction n generalizing now with
  | zero => simp [Collector.stepsLeft] at hn
  | succ n ih =>
    rw [stopWithin]
    rcases stopStep_progress hphase with ⟨after, hstep⟩ | ⟨work, hwork, result, hresult, hmissing⟩
    · rw [hstep]
      dsimp only
      have hkept := stopStep_keeps (P := fun units b =>
          ∀ work ∈ units, work.resolved b.channels = true)
        (fun _ _ _ _ h => h) (fun work others b found left htake h => ?_)
        (fun work others b _ h other hother => h other (.tail _ hother)) hstep hqueued hresolved
      · rcases stepsLeft_stopStep hstep with hstopped | ⟨hstopping, hleft⟩
        · cases n with
          | zero => exact hstopped
          | succ n =>
            rw [stopWithin, show after.stopStep = none by simp [stopStep, hstopped]]
            exact hstopped
        · exact ih hstopping hkept.2 hkept.1 (by omega)
      · refine List.forall_mem_cons.mpr ⟨?_, fun other hother => h other (.tail _ hother)⟩
        exact (Unfinished.takeNext_spec htake (.refl _)).2.2.2.2.1.trans (h work (.head _))
    · have hall := hresolved work (List.mem_append_left _ (List.mem_of_mem_head? hwork))
      have hone := List.all_eq_true.mp hall result (List.mem_of_mem_head? hresult)
      rw [hmissing] at hone
      cases hone

/-- A collector for which no result is missing stops at once. -/
theorem phase_stop
    (hresolved : ∀ work ∈ bench.collector.units, work.resolved bench.channels = true) :
    bench.stop.collector.phase = .stopped := by
  refine phase_stopWithin _ rfl rfl ?_ (Nat.le_refl _)
  simpa [beginStop, Collector.receive, Collector.units] using hresolved

/-- A collector that stops comes to its end once no channel waits. -/
theorem Stopping.stops {other : Bench → Bench → Prop}
    (hother : ∀ now after, other now after → after.collector = now.collector)
    (h : Stopping other bench now) (hnone : now.channels.NoneWaiting) :
    Stops other bench (now.stopWithin now.collector.stepsLeft) := by
  refine ⟨stopping_stopWithin _ h, ?_⟩
  obtain ⟨hqueued, hphase | ⟨hphase, -⟩⟩ := h.phase hother
  · exact phase_stopWithin _ hphase hqueued (fun work _ => work.resolved_of_noneWaiting hnone)
      (Nat.le_refl _)
  · have hstep : now.stopStep = none := by simp [stopStep, hphase]
    cases now.collector.stepsLeft with
    | zero => exact hphase
    | succ n =>
      rw [stopWithin, hstep]
      exact hphase

/-- A collector for which no result is missing concludes every unit. -/
theorem stop_eq_stopped
    (hresolved : ∀ work ∈ bench.collector.units, work.resolved bench.channels = true) :
    bench.stop = bench.stopped := by
  have hstops : Stops Produces bench bench.stop := ⟨stopping_stop _ bench, phase_stop hresolved⟩
  have hsame := hstops.eq_stopped
  rwa [channels_stop] at hsame

/-- A collector stops once producers have done what makes no result missing. -/
theorem stops_of_resolved {later : Channels} (hl : bench.channels.Leads later)
    (hresolved : ∀ work ∈ bench.collector.units, work.resolved later = true) :
    Stops Produces bench ({ bench with channels := later } : Bench).stop := by
  refine ⟨stopping_stopWithin _ (.meanwhile .begin ⟨later, hl, rfl⟩), ?_⟩
  exact @phase_stop { bench with channels := later } hresolved

end Bench

end SymbolAtlas
