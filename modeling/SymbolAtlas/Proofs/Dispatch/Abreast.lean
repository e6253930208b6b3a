import SymbolAtlas.Proofs.Dispatch.Accounting
import SymbolAtlas.Proofs.Dispatch.Joint
import SymbolAtlas.Proofs.Dispatch.Step

/-!
# Benches side by side

Two benches on which all is the same, but that one of them holds a unit with many results where the
other has their join.

- **Alike** (`Bench.Alike`): only who looks at the units, the counts or the record of calls can tell
  the benches apart.
- **Together** (`Bench.Together`): the benches are alike, hold the same units but for one pair, and
  have counted the same but for that pair. Polling or concluding any unit keeps this, and so do
  rounds of the collector (`Together.poll`) and its end (`Together.stopped`).
- **Work on both** (`Work.Respects`): a step of a pass gives the same answer on both and keeps them
  together (`respects_passStep`).
- **What happens next** (`Bench.Happening`): whatever happens to both keeps them together
  (`Together.after`).
-/

namespace SymbolAtlas

namespace Bench

/-- The benches have all in common but the units that are held, the counts and the calls. -/
structure Alike (bench other : Bench) : Prop where
  database : other.database = bench.database
  channels : other.channels = bench.channels
  producers : other.producers = bench.producers
  jobs : other.jobs = bench.jobs
  indexer : other.indexer = bench.indexer
  cursor : other.cursor = bench.cursor
  phase : other.collector.phase = bench.collector.phase
  inFlight : other.collector.inFlight = bench.collector.inFlight
  memory : other.memory = bench.memory

theorem Alike.refl (bench : Bench) : bench.Alike bench :=
  ⟨rfl, rfl, rfl, rfl, rfl, rfl, rfl, rfl, rfl⟩

/-- How two benches came apart. -/
structure Parting where
  /-- the calls until then -/
  before : List Call
  /-- the calls that only the second bench has, right after those -/
  asked : List Call
  /-- the unit that was split on the first bench -/
  split : Option Split

/-- The benches are alike, with the same calls and counts but for what came apart. The pair is what
is left of the unit that was split. -/
structure Abreast (parting : Parting) (pair : Option (Unfinished × Unfinished))
    (bench other : Bench) : Prop extends Alike bench other where
  calls : ∃ made, bench.calls = parting.before ++ made ∧
    other.calls = parting.before ++ parting.asked ++ made
  tally : Tally.Apart parting.split pair bench.tally other.tally

/-- The units are the same but for the pair. -/
def Beside (pair : Option (Unfinished × Unfinished)) (units others : List Unfinished) : Prop :=
  ∃ before after, units = before ++ ((pair.map Prod.fst).toList ++ after) ∧
    others = before ++ ((pair.map Prod.snd).toList ++ after)

/-- The benches are abreast and hold the same units but for what is left of the one that was
split. -/
def Together (parting : Parting) (bench other : Bench) : Prop :=
  ∃ pair, Abreast parting pair bench other ∧
    Beside pair bench.collector.units other.collector.units

variable {parting : Parting} {pair pair' : Option (Unfinished × Unfinished)} {bench other : Bench}

/-! ## Units one by one -/

/-- The bench with outcomes counted. -/
def counting (outcomes : List Resolved) (bench : Bench) : Bench :=
  { bench with tally := bench.tally.recordAll outcomes }

theorem pollUnit_eq (bench : Bench) (work : Unfinished) :
    bench.pollUnit work =
      if (work.poll bench.channels).1.isComplete then
        (none, (bench.counting (work.poll bench.channels).2).finish (work.poll bench.channels).1)
      else (some (work.poll bench.channels).1,
        bench.counting (work.poll bench.channels).2) := rfl

theorem conclude_eq (bench : Bench) (work : Unfinished) :
    bench.conclude work =
      (bench.counting (work.outcomes bench.channels)).finish (work.drained bench.channels) := rfl

namespace Abreast

/-- Both count outcomes. -/
theorem counting (h : Abreast parting pair bench other) {outcomes outcomes' : List Resolved}
    (htally : Tally.Apart parting.split pair' (bench.tally.recordAll outcomes)
      (other.tally.recordAll outcomes')) :
    Abreast parting pair' (bench.counting outcomes) (other.counting outcomes') :=
  { h with tally := htally }

/-- Both count outcomes and finish a unit of the same action. -/
theorem finish (h : Abreast parting pair bench other) {outcomes outcomes' : List Resolved}
    {work work' : Unfinished} (haction : work'.action = work.action)
    (htally : Tally.Apart parting.split pair'
      ((bench.tally.recordAll outcomes).addPartials (if work.isPartial then 1 else 0))
      ((other.tally.recordAll outcomes').addPartials (if work'.isPartial then 1 else 0))) :
    Abreast parting pair' ((bench.counting outcomes).finish work)
      ((other.counting outcomes').finish work') where
  database := by
    rw [database_finish, database_finish, haction]
    simp only [mark, Bench.counting, h.database]
  channels := h.channels
  producers := h.producers
  jobs := h.jobs
  indexer := h.indexer
  cursor := h.cursor
  phase := h.phase
  inFlight := by simp [Collector.release, Bench.counting, haction, h.inFlight]
  memory := h.memory
  calls := h.calls
  tally := by simpa [Bench.counting] using htally

/-- Both poll the same unit. -/
theorem pollUnit (h : Abreast parting pair bench other) (work : Unfinished) :
    (other.pollUnit work).1 = (bench.pollUnit work).1 ∧
      Abreast parting pair (bench.pollUnit work).2 (other.pollUnit work).2 := by
  have hcounted := fun n => h.tally.advance (work.poll bench.channels).2 n
  rw [pollUnit_eq, pollUnit_eq, h.channels]
  split
  · exact ⟨rfl, h.finish rfl (hcounted _)⟩
  · exact ⟨rfl, h.counting (hcounted 0)⟩

/-- Each polls what it has of the unit that was split: it is left in both, or finished in both. -/
theorem pollPair {each whole : Unfinished} (h : Abreast parting (some (each, whole)) bench other) :
    ∃ pair, Abreast parting pair (bench.pollUnit each).2 (other.pollUnit whole).2 ∧
      (bench.pollUnit each).1 = pair.map Prod.fst ∧
      (other.pollUnit whole).1 = pair.map Prod.snd := by
  obtain ⟨split, taken, hsplit, hjoins, htally⟩ := h.tally.of_some
  rw [pollUnit_eq, pollUnit_eq, h.channels]
  rcases hjoins.poll bench.channels with ⟨hleft, hleft', hnone, hnext⟩ | ⟨hdone, hdone', hends⟩
  · rw [if_neg (by simp [hleft]), if_neg (by simp [hleft']), hnone]
    refine ⟨some (_, _), h.counting ?_, rfl, rfl⟩
    rw [hsplit, htally, ← Tally.recordAll_append]
    exact .held _ hnext
  · rw [if_pos hdone, if_pos hdone']
    refine ⟨none, h.finish hends.action ?_, rfl, rfl⟩
    rw [hsplit, htally]
    exact .ends hends _

/-- Both conclude the same unit. -/
theorem conclude (h : Abreast parting pair bench other) (work : Unfinished) :
    Abreast parting pair (bench.conclude work) (other.conclude work) := by
  rw [conclude_eq, conclude_eq, h.channels]
  exact h.finish rfl (h.tally.advance _ _)

/-- Each concludes what it has of the unit that was split. -/
theorem concludePair {each whole : Unfinished}
    (h : Abreast parting (some (each, whole)) bench other) :
    Abreast parting none (bench.conclude each) (other.conclude whole) := by
  obtain ⟨split, taken, hsplit, hjoins, htally⟩ := h.tally.of_some
  have hends := hjoins.drained bench.channels
  rw [conclude_eq, conclude_eq, h.channels]
  refine h.finish hends.action ?_
  rw [hsplit, htally]
  exact .ends hends _

/-! ## Units one after the other -/

theorem pollUnits (h : Abreast parting pair bench other) (units : List Unfinished) :
    (Bench.pollUnits units other).1 = (Bench.pollUnits units bench).1 ∧
      Abreast parting pair (Bench.pollUnits units bench).2 (Bench.pollUnits units other).2 := by
  induction units generalizing bench other with
  | nil => exact ⟨rfl, h⟩
  | cons work rest ih =>
    obtain ⟨hleft, hpolled⟩ := h.pollUnit work
    obtain ⟨hwaiting, hrest⟩ := ih hpolled
    simp only [Bench.pollUnits, hleft, hwaiting]
    exact ⟨trivial, hrest⟩

theorem concludeAll (h : Abreast parting pair bench other) (units : List Unfinished) :
    Abreast parting pair (Bench.concludeAll units bench) (Bench.concludeAll units other) := by
  induction units generalizing bench other with
  | nil => exact h
  | cons work rest ih => exact ih (h.conclude work)

end Abreast

theorem pollUnits_append (units units' : List Unfinished) (bench : Bench) :
    pollUnits (units ++ units') bench =
      ((pollUnits units bench).1 ++ (pollUnits units' (pollUnits units bench).2).1,
        (pollUnits units' (pollUnits units bench).2).2) := by
  induction units generalizing bench with
  | nil => rfl
  | cons work rest ih => simp [pollUnits, ih]

theorem pollUnits_singleton (work : Unfinished) (bench : Bench) :
    pollUnits [work] bench = ((bench.pollUnit work).1.toList, (bench.pollUnit work).2) := by
  simp [pollUnits]

/-- Polling all units leaves the same ones in both, but for what is left of the one that was
split. -/
theorem Abreast.pollBeside {units others : List Unfinished}
    (h : Abreast parting pair bench other) (hunits : Beside pair units others) :
    ∃ pair, Abreast parting pair (Bench.pollUnits units bench).2
        (Bench.pollUnits others other).2 ∧
      Beside pair (Bench.pollUnits units bench).1 (Bench.pollUnits others other).1 := by
  obtain ⟨before, after, rfl, rfl⟩ := hunits
  obtain ⟨hbefore, h⟩ := h.pollUnits before
  cases pair with
  | none =>
    obtain ⟨hafter, h⟩ := h.pollUnits after
    simp only [Option.map_none, Option.toList_none, List.nil_append, pollUnits_append, hbefore,
      hafter]
    exact ⟨none, h, _, _, rfl, rfl⟩
  | some pair =>
    obtain ⟨left, hpolled, hleft, hleft'⟩ := h.pollPair
    obtain ⟨hafter, h⟩ := hpolled.pollUnits after
    simp only [Option.map_some, Option.toList_some, pollUnits_append, pollUnits_singleton, hbefore,
      hafter, hleft, hleft']
    exact ⟨left, h, _, _, rfl, rfl⟩

/-- Concluding all units leaves nothing of the one that was split. -/
theorem Abreast.concludeBeside {units others : List Unfinished}
    (h : Abreast parting pair bench other) (hunits : Beside pair units others) :
    Abreast parting none (Bench.concludeAll units bench) (Bench.concludeAll others other) := by
  obtain ⟨before, after, rfl, rfl⟩ := hunits
  have h := h.concludeAll before
  unfold Bench.concludeAll
  simp only [List.foldl_append]
  cases pair with
  | none => exact h.concludeAll after
  | some pair => exact h.concludePair.concludeAll after

/-! ## The collector -/

theorem units_poll (bench : Bench) :
    bench.poll.collector.units =
      (pollUnits bench.collector.units
        { bench with collector := bench.collector.receive }).1 := by
  have hqueued := (collector_pollUnits bench.collector.units
    { bench with collector := bench.collector.receive }).1
  exact (congrArg _ hqueued).trans (List.append_nil _)

namespace Together

/-- Both collectors take a round. -/
theorem poll (h : Together parting bench other) : Together parting bench.poll other.poll := by
  obtain ⟨pair, habreast, hunits⟩ := h
  have hreceived : Abreast parting pair { bench with collector := bench.collector.receive }
      { other with collector := other.collector.receive } := { habreast with }
  obtain ⟨left, hpolled, hleft⟩ := hreceived.pollBeside hunits
  refine ⟨left, { hpolled with }, ?_⟩
  rw [units_poll, units_poll]
  exact hleft

/-- Both collectors have stopped: nothing is left of the unit that was split. -/
theorem stopped (h : Together parting bench other) :
    Abreast parting none bench.stopped other.stopped := by
  obtain ⟨pair, habreast, hunits⟩ := h
  have hstopped : Abreast parting pair
      { bench with
        collector := { bench.collector with phase := .stopped, queued := [], working := [] } }
      { other with
        collector := { other.collector with phase := .stopped, queued := [], working := [] } } :=
    { habreast with phase := rfl }
  exact hstopped.concludeBeside hunits

/-- A result is missing in both or in none. -/
theorem resolved (h : Together parting bench other) {channels : Channels}
    (hresolved : ∀ work ∈ bench.collector.units, work.resolved channels = true) :
    ∀ work ∈ other.collector.units, work.resolved channels = true := by
  obtain ⟨pair, habreast, before, after, hunits, hothers⟩ := h
  rw [hunits] at hresolved
  rw [hothers]
  cases pair with
  | none => exact hresolved
  | some pair =>
    obtain ⟨each, whole⟩ := pair
    obtain ⟨split, taken, -, hjoins, -⟩ := habreast.tally.of_some
    intro work hwork
    simp only [Option.map_some, Option.toList_some, List.mem_append, List.mem_singleton] at hwork
    rcases hwork with hwork | rfl | hwork
    · exact hresolved work (by simp [hwork])
    · rw [hjoins.resolved]
      exact hresolved each (by simp)
    · exact hresolved work (by simp [hwork])

/-- Both are stopped and drop units of the same action. -/
theorem refuse (h : Together parting bench other) (hphase : bench.collector.phase = .stopped)
    {work work' : Unfinished} (haction : work'.action = work.action) :
    Together parting { bench with collector := bench.collector.queue work }
      { other with collector := other.collector.queue work' } := by
  obtain ⟨pair, habreast, hunits⟩ := h
  have hphase' := habreast.phase.trans hphase
  have hdropped : ∀ (collector : Collector) (work : Unfinished), collector.phase = .stopped →
      collector.queue work = collector.release work.action := by
    intro collector work hstopped
    simp [Collector.queue, hstopped, Collector.release]
  rw [hdropped _ _ hphase, hdropped _ _ hphase', haction]
  refine ⟨pair, { habreast with inFlight := ?_ }, hunits⟩
  exact congrArg (List.filter (· ≠ work.action)) habreast.inFlight

/-- Both are handed units of the same action: the same one, or what is to be a pair. -/
theorem queueBeside {split : Option Split} (habreast : Abreast parting pair bench other)
    (hphase : bench.collector.phase ≠ .stopped) {work work' : Unfinished}
    (haction : work'.action = work.action)
    (htally : Tally.Apart split pair' bench.tally other.tally)
    (hbeside : Beside pair' (bench.collector.units ++ [work]) (other.collector.units ++ [work'])) :
    Together { parting with split } { bench with collector := bench.collector.queue work }
      { other with collector := other.collector.queue work' } := by
  have hphase' : other.collector.phase ≠ .stopped := by rwa [habreast.phase]
  obtain ⟨hqueued, hflight, hkept⟩ := Collector.queue_spec hphase work
  obtain ⟨hqueued', hflight', hkept'⟩ := Collector.queue_spec hphase' work'
  refine ⟨pair', { habreast with phase := ?_, inFlight := ?_, tally := htally }, ?_⟩
  · rw [hkept, hkept', habreast.phase]
  · rw [hflight, hflight', habreast.inFlight, haction]
  · rw [hqueued, hqueued']
    exact hbeside

/-- Both are handed the same unit. -/
theorem queue (h : Together parting bench other) (work : Unfinished) :
    Together parting { bench with collector := bench.collector.queue work }
      { other with collector := other.collector.queue work } := by
  by_cases hphase : bench.collector.phase = .stopped
  · exact h.refuse hphase rfl
  · obtain ⟨pair, habreast, before, after, hunits, hothers⟩ := h
    refine queueBeside habreast hphase rfl habreast.tally
      ⟨before, after ++ [work], ?_, ?_⟩
    · rw [hunits]
      simp
    · rw [hothers]
      simp

/-- One is handed a unit with many results, and the other one with their join. -/
theorem part {calls asked : List Call} (h : Together ⟨calls, asked, none⟩ bench other)
    (hphase : bench.collector.phase ≠ .stopped) {split : Split} {each whole : Unfinished}
    (hjoins : each.Joins split [] whole) :
    Together ⟨calls, asked, some split⟩ { bench with collector := bench.collector.queue each }
      { other with collector := other.collector.queue whole } := by
  obtain ⟨pair, habreast, before, after, hunits, hothers⟩ := h
  obtain ⟨rfl, hsame⟩ := habreast.tally.of_unsplit
  have htally : Tally.Apart (some split) (some (each, whole)) bench.tally other.tally := by
    rw [hsame]
    exact .held _ hjoins
  refine queueBeside habreast hphase hjoins.action htally ⟨before ++ after, [], ?_, ?_⟩
  · simp [hunits]
  · simp [hothers]

/-- The same, where collectors that are stopped drop both units. -/
theorem handOver {calls asked : List Call} (h : Together ⟨calls, asked, none⟩ bench other)
    {split : Split} {each whole : Unfinished} (hjoins : each.Joins split [] whole) :
    Together ⟨calls, asked, if bench.collector.phase = .stopped then none else some split⟩
      { bench with collector := bench.collector.queue each }
      { other with collector := other.collector.queue whole } := by
  split
  · rename_i hphase
    exact h.refuse hphase hjoins.action
  · rename_i hphase
    exact h.part hphase hjoins

end Together

end Bench

/-! ## Work on both benches -/

/-- The work gives the same answer on both benches and keeps them together. -/
def Work.Respects {α : Type} (parting : Bench.Parting) (work : Work α) : Prop :=
  ∀ bench other, Bench.Together parting bench other →
    (work.run.run other).1 = (work.run.run bench).1 ∧
      Bench.Together parting (work.run.run bench).2 (work.run.run other).2

namespace Work.Respects

variable {α β : Type} {parting : Bench.Parting} {work : Work α} {next : α → Work β}

theorem pure (a : α) : Respects parting (pure a : Work α) := fun _ _ h => ⟨rfl, h⟩

theorem bind (h : Respects parting work) (hnext : ∀ a, Respects parting (next a)) :
    Respects parting (work >>= next) := by
  intro bench other htogether
  obtain ⟨hsame, hafter⟩ := h bench other htogether
  rw [run_run_bind, run_run_bind]
  generalize work.run.run bench = ran at hsame hafter
  generalize work.run.run other = ran' at hsame hafter
  obtain ⟨_ | a, bench'⟩ := ran
  · obtain ⟨result, other'⟩ := ran'
    subst hsame
    exact ⟨rfl, hafter⟩
  · obtain ⟨result, other'⟩ := ran'
    subst hsame
    exact hnext a bench' other' hafter

theorem mapM {f : α → Work β} (h : ∀ a, Respects parting (f a)) (as : List α) :
    Respects parting (as.mapM f) := by
  induction as with
  | nil => exact .pure []
  | cons a as ih =>
    rw [List.mapM_cons]
    exact (h a).bind fun b => ih.bind fun bs => .pure (b :: bs)

/-- Both benches are changed in the same way. -/
theorem modify {change : Bench → Bench} (h : ∀ bench other, Bench.Together parting bench other →
      Bench.Together parting (change bench) (change other)) :
    Respects parting (modify change : Work Unit) :=
  fun bench other htogether => ⟨rfl, h bench other htogether⟩

theorem newChannel (state : Channel) :
    Respects parting (modifyGet (Bench.newChannel state) : Work Nat) := by
  rintro bench other ⟨pair, habreast, hunits⟩
  refine ⟨?_, pair, { habreast with channels := ?_ }, hunits⟩
  · exact congrArg (fun channels => (Except.ok (List.length channels) : Except Fault Nat))
      habreast.channels
  · exact congrArg (· ++ [state]) habreast.channels

theorem onDatabase (work : Tx α) : Respects parting (Work.onDatabase work) := by
  rintro bench other ⟨pair, habreast, hunits⟩
  rw [run_onDatabase, run_onDatabase, habreast.database]
  exact ⟨rfl, pair, { habreast with database := rfl }, hunits⟩

theorem transaction (h : Respects parting work) : Respects parting (Work.transaction work) := by
  rintro bench other ⟨pair, habreast, hunits⟩
  obtain ⟨hsame, left, hafter, hunits'⟩ := h { bench with database := bench.database.enter }
    { other with database := other.database.enter }
    ⟨pair, { habreast with database := congrArg Database.enter habreast.database }, hunits⟩
  rw [@run_transaction _ work bench _ _ rfl, @run_transaction _ work other _ _ rfl]
  refine ⟨hsame, left, { hafter with database := ?_ }, hunits'⟩
  exact congrArg₂ (fun result database => Database.leave (Except.isOk result) database) hsame
    hafter.database

end Work.Respects

section

variable {parting : Bench.Parting}

theorem Work.Channelling.respects {α : Type} {work : Work α} (h : work.Channelling) :
    work.Respects parting := by
  induction h with
  | pure a => exact .pure a
  | bind _ _ ih ihnext => exact ih.bind ihnext
  | new state => exact .newChannel state
  | outside id =>
    refine .modify ?_
    rintro bench other ⟨pair, habreast, hunits⟩
    exact ⟨pair, { habreast with producers := congrArg (· ++ [id]) habreast.producers }, hunits⟩

/-- A plugin goes by what is the same on both benches. -/
theorem Plugin.respects_respond (act : View → Option Reply × Effects) :
    (respond act).Respects parting := by
  rintro bench other ⟨pair, habreast, hunits⟩
  rw [run_respond, run_respond, habreast.database, habreast.memory]
  split
  · exact ⟨rfl, pair, { habreast with database := rfl, memory := rfl }, hunits⟩
  · cases (act ⟨bench.memory, bench.database.store⟩).1 with
    | none => exact ⟨rfl, pair, { habreast with database := rfl, memory := rfl }, hunits⟩
    | some reply =>
      exact reply.channelling_handle.respects _ _
        ⟨pair, { habreast with database := rfl, memory := rfl }, hunits⟩

theorem respects_recordCall (call : Call) : (recordCall call).Respects parting := by
  refine Work.Respects.modify ?_
  rintro bench other ⟨pair, habreast, hunits⟩
  obtain ⟨made, hcalls, hcalls'⟩ := habreast.calls
  refine ⟨pair, { habreast with calls := ⟨made ++ [call], ?_, ?_⟩ }, hunits⟩
  · rw [hcalls, List.append_assoc]
  · rw [hcalls', List.append_assoc _ made]

namespace Parser

variable (parser : Parser) (action : BuildAction) (options : Command.Options)

theorem respects_parse (source : File) (target : Option File) :
    (parser.parse action options source target).Respects parting := by
  cases parser with
  | indexer =>
    refine (Work.Respects.newChannel _).bind fun id => ?_
    refine (Work.Respects.modify ?_).bind fun _ => .pure _
    rintro bench other ⟨pair, habreast, hunits⟩
    exact ⟨pair, { habreast with jobs := congrArg (· ++ [_]) habreast.jobs }, hunits⟩
  | plugin p => exact (respects_recordCall _).bind fun _ => Plugin.respects_respond _

theorem respects_parseEach (pairs : List FilePair) :
    (parser.parseEach action options pairs).Respects parting := by
  refine .mapM (fun pair => ?_) pairs
  cases pair.source with
  | some source => exact parser.respects_parse action options source pair.target
  | none => exact .pure _

theorem respects_parseCommand (pairs : List FilePair) :
    (parser.parseCommand action options pairs).Respects parting := by
  have heach : Work.Respects parting
      (parser.parseEach action options pairs >>= fun handles => pure (Handle.join handles)) :=
    (parser.respects_parseEach action options pairs).bind fun _ => .pure _
  cases parser with
  | indexer => exact heach
  | plugin p =>
    refine (respects_recordCall _).bind fun _ => ?_
    cases p.command with
    | some command => exact Plugin.respects_respond _
    | none => exact heach

end Parser

variable (settings : DispatchSettings) (task : Task)

theorem respects_results : (task.results settings).Respects parting := by
  unfold Task.results
  split
  · dsimp only [dispatchWhole]
    cases (task.pairs.head?.bind FilePair.source).bind fun file =>
        settings.registry.resolve? file.path with
    | some parser =>
      exact (parser.respects_parseCommand task.action task.options task.pairs).bind fun _ =>
        .pure _
    | none => exact .pure _
  · refine .mapM (fun ⟨source, target⟩ => ?_) _
    dsimp only [dispatchSource]
    cases settings.registry.resolve? source.path with
    | some parser =>
      exact (parser.respects_parse task.action task.options source target).bind fun _ => .pure _
    | none => exact .pure _

theorem respects_record (outcome : Outcome) :
    Work.Respects parting (modify fun bench =>
      { bench with tally := bench.tally.record none outcome } : Work Unit) := by
  refine .modify ?_
  rintro bench other ⟨pair, habreast, hunits⟩
  exact ⟨pair, { habreast with tally := habreast.tally.advance [(none, outcome)] 0 }, hunits⟩

theorem respects_dispatch : (dispatch settings task).Respects parting := by
  by_cases hkind : task.action.kind = .link
  · dsimp only [dispatch]
    rw [if_pos hkind]
    refine (Work.Respects.onDatabase _).bind fun moved => ?_
    cases moved with
    | false => exact .pure _
    | true => exact (respects_record _).bind fun _ => .pure _
  · cases hsources : task.pairs.any fun pair => pair.source.isNone with
    | true =>
      dsimp only [dispatch]
      rw [if_neg hkind, if_pos hsources]
      exact (Work.Respects.onDatabase _).bind fun _ => (respects_record _).bind fun _ => .pure _
    | false =>
      have hresults : (task.results settings).Respects parting := respects_results settings task
      have hqueue : ∀ results, Work.Respects parting (do
          modify fun bench =>
            { bench with collector := bench.collector.queue { action := task.action.id, results } }
          return Dispatched.queued results.length) := fun results =>
        (Work.Respects.modify fun _ _ h => h.queue _).bind fun _ => .pure _
      unfold Task.results at hresults
      dsimp only [dispatch]
      rw [if_neg hkind, if_neg (by simp [hsources])]
      cases hmode : task.wholeCommand with
      | true =>
        rw [if_pos hmode] at hresults
        exact hresults.bind hqueue
      | false =>
        rw [if_neg (by simp [hmode])] at hresults
        exact hresults.bind hqueue

theorem respects_nextTask : (nextTask settings).Respects parting := by
  have hwithin : ∀ n, (nextTaskWithin settings n).Respects parting := by
    intro n
    induction n with
    | zero => exact .pure _
    | succ n ih =>
      rintro bench other ⟨pair, habreast, hunits⟩
      have hpending : ∀ id, other.collector.isPending id = bench.collector.isPending id := by
        intro id
        rw [Collector.isPending, Collector.isPending, habreast.inFlight]
      cases hdb : bench.database.refuses with
      | true =>
        rw [nextTaskWithin_of_refuses _ _ hdb,
          nextTaskWithin_of_refuses _ _ (by rw [habreast.database, hdb])]
        exact ⟨rfl, pair, habreast, hunits⟩
      | false =>
      rw [nextTaskWithin_succ _ _ hdb, nextTaskWithin_succ _ _ (by rw [habreast.database, hdb]),
        habreast.database, habreast.cursor]
      rcases bench.database.store.nextOutstanding bench.cursor with fault | _ | action
      · exact ⟨rfl, pair, habreast, hunits⟩
      · exact ⟨rfl, pair, habreast, hunits⟩
      · dsimp only
        rw [hpending]
        split
        · exact ih _ _ ⟨pair, { habreast with database := rfl, cursor := rfl }, hunits⟩
        · exact ⟨rfl, pair, { habreast with database := rfl, cursor := rfl }, hunits⟩
  intro bench other h
  have hdatabase : other.database = bench.database := by
    obtain ⟨pair, habreast, -⟩ := h
    exact habreast.database
  rw [run_nextTask, run_nextTask, hdatabase]
  exact hwithin _ bench other h

theorem respects_passStep : (passStep settings).Respects parting := by
  refine .transaction ((respects_nextTask settings).bind fun found => ?_)
  cases found with
  | none => exact .pure _
  | some task => exact (respects_dispatch settings task).bind fun _ => .pure _

end

/-! ## What happens next -/

namespace Bench

/-- Something that may happen to a bench. -/
inductive Happening where
  /-- something happens around the collector -/
  | around (event : Event)
  /-- a pass takes a step -/
  | step (settings : DispatchSettings)
  /-- the index jobs run -/
  | jobs (extract : Extractor) (tree : FileTree)
  /-- somebody else works on the tables -/
  | tables (change : Database → Database)
  /-- all producers outside go away -/
  | dropProducers
  /-- the collector is started -/
  | start

/-- What a happening does; what blocks does nothing. -/
def Happening.apply : Happening → Bench → Bench
  | .around event, bench => (event.apply bench).getD bench
  | .step settings, bench => ((passStep settings).run.run bench).2
  | .jobs extract tree, bench => bench.runJobs extract tree
  | .tables change, bench => { bench with database := change bench.database }
  | .dropProducers, bench => bench.dropProducers
  | .start, bench =>
    match bench.start with
    | .ok started => started
    | .error _ => bench

/-- The bench after all that happens. -/
def after (bench : Bench) (happenings : List Happening) : Bench :=
  happenings.foldl (fun bench happening => happening.apply bench) bench

namespace Together

variable {parting : Parting} {bench other : Bench}

/-- Both run the same job. -/
theorem runJob (h : Together parting bench other) (extract : Extractor) (tree : FileTree)
    (job : IndexJob) :
    Together parting (bench.runJob extract tree job) (other.runJob extract tree job) := by
  obtain ⟨pair, habreast, hunits⟩ := h
  have hsame : (job.run extract tree other.indexer).run.run other.database =
      (job.run extract tree bench.indexer).run.run bench.database := by
    rw [habreast.indexer, habreast.database]
  simp only [Bench.runJob, hsame]
  rcases (job.run extract tree bench.indexer).run.run bench.database with
    ⟨_ | ⟨outcome, indexer⟩, database⟩
  · refine ⟨pair, { habreast with database := rfl, channels := ?_ }, hunits⟩
    exact congrArg (Channels.drop · job.channel) habreast.channels
  · refine ⟨pair, { habreast with database := rfl, indexer := rfl, channels := ?_ }, hunits⟩
    exact congrArg (Channels.send · job.channel outcome) habreast.channels

theorem runJobs (h : Together parting bench other) (extract : Extractor) (tree : FileTree) :
    Together parting (bench.runJobs extract tree) (other.runJobs extract tree) := by
  have hall : ∀ (jobs : List IndexJob) (bench other : Bench), Together parting bench other →
      Together parting (jobs.foldl (fun bench job => bench.runJob extract tree job) bench)
        (jobs.foldl (fun bench job => bench.runJob extract tree job) other) := by
    intro jobs
    induction jobs with
    | nil => exact fun _ _ h => h
    | cons job rest ih => exact fun _ _ h => ih _ _ (h.runJob extract tree job)
  obtain ⟨pair, habreast, hunits⟩ := h
  rw [Bench.runJobs, Bench.runJobs, habreast.jobs]
  exact hall _ _ _ ⟨pair, { habreast with jobs := rfl }, hunits⟩

/-- Both process the same unit on the spot, or wait for the same results. -/
theorem process (h : Together parting bench other) (work : Unfinished) :
    Together parting ((bench.process work).getD bench) ((other.process work).getD other) := by
  obtain ⟨pair, habreast, hunits⟩ := h
  rw [process_eq, process_eq, habreast.channels]
  split
  · refine ⟨pair, habreast.conclude work, ?_⟩
    simp only [Option.getD_some, collector_conclude]
    exact hunits
  · exact ⟨pair, habreast, hunits⟩

/-- Producers do the same on both. -/
theorem onChannels (h : Together parting bench other) (change : Channels → Channels) :
    Together parting { bench with channels := change bench.channels }
      { other with channels := change other.channels } := by
  obtain ⟨pair, habreast, hunits⟩ := h
  exact ⟨pair, { habreast with channels := congrArg change habreast.channels }, hunits⟩

theorem apply (h : Together parting bench other) (happening : Happening) :
    Together parting (happening.apply bench) (happening.apply other) := by
  cases happening with
  | around event =>
    cases event with
    | queue work => exact h.queue work
    | send channel outcome => exact h.onChannels (Channels.send · channel outcome)
    | drop channel => exact h.onChannels (Channels.drop · channel)
    | round => exact h.poll
    | process work => exact h.process work
  | step settings => exact (respects_passStep settings bench other h).2
  | jobs extract tree => exact h.runJobs extract tree
  | tables change =>
    obtain ⟨pair, habreast, hunits⟩ := h
    exact ⟨pair, { habreast with database := congrArg change habreast.database }, hunits⟩
  | dropProducers => exact h.onChannels Channels.dropAll
  | start =>
    obtain ⟨pair, habreast, hunits⟩ := h
    have hphase := habreast.phase
    simp only [Happening.apply, Bench.start, hphase]
    cases bench.collector.phase with
    | fresh => exact ⟨pair, { habreast with phase := rfl }, hunits⟩
    | running => exact ⟨pair, habreast, hunits⟩
    | stopping => exact ⟨pair, habreast, hunits⟩
    | stopped => exact ⟨pair, habreast, hunits⟩

/-- One bench has a record of calls that the other has not. -/
theorem start (bench : Bench) (asked : List Call) :
    Together ⟨bench.calls, asked, none⟩ bench { bench with calls := bench.calls ++ asked } := by
  refine ⟨none, { Alike.refl bench with calls := ⟨[], ?_, ?_⟩, tally := .same _ },
    bench.collector.units, [], ?_, ?_⟩
  all_goals exact (List.append_nil _).symm

theorem alike (h : Together parting bench other) : bench.Alike other := by
  obtain ⟨pair, habreast, -⟩ := h
  exact habreast.toAlike

theorem calls (h : Together parting bench other) :
    ∃ made, bench.calls = parting.before ++ made ∧
      other.calls = parting.before ++ parting.asked ++ made := by
  obtain ⟨pair, habreast, -⟩ := h
  exact habreast.calls

/-- Whatever happens to both keeps them together. -/
theorem after (h : Together parting bench other) (happenings : List Happening) :
    Together parting (bench.after happenings) (other.after happenings) := by
  induction happenings generalizing bench other with
  | nil => exact h
  | cons happening rest ih => exact ih (h.apply happening)

end Together

/-- The collectors of both benches have stopped, and producers have done the same meanwhile. -/
structure StopBoth (bench other final final' : Bench) : Prop where
  first : Stops Produces bench final
  second : Stops Produces other final'
  channels : final'.channels = final.channels

namespace Together

variable {parting : Parting} {bench other final final' : Bench}

/-- Benches that are together are abreast when their collectors have stopped. -/
theorem stop (h : Together parting bench other) (hstop : bench.StopBoth other final final') :
    Abreast parting none final final' := by
  have hfinal := hstop.first.eq_stopped
  have hfinal' := hstop.second.eq_stopped
  rw [hstop.channels] at hfinal'
  rw [hfinal, hfinal']
  exact (h.onChannels fun _ => final.channels).stopped

/-- Both collectors stop, once producers have done what makes no result missing for the first. -/
theorem exists_stopBoth (h : Together parting bench other) {channels : Channels}
    (hl : bench.channels.Leads channels)
    (hresolved : ∀ work ∈ bench.collector.units, work.resolved channels = true) :
    ∃ final final', bench.StopBoth other final final' := by
  have hchannels : other.channels = bench.channels := by
    obtain ⟨pair, habreast, -⟩ := h
    exact habreast.channels
  refine ⟨_, _, stops_of_resolved hl hresolved,
    stops_of_resolved (hchannels ▸ hl) (h.resolved hresolved), ?_⟩
  rw [channels_stop, channels_stop]

/-- The benches stay alike, also when the collectors are stopped at any time; and they can be as
soon as no result is missing. -/
theorem stays_alike (h : Together parting bench other) (happenings : List Happening) :
    (bench.after happenings).Alike (other.after happenings) ∧
      (∀ channels, (bench.after happenings).channels.Leads channels →
        (∀ work ∈ (bench.after happenings).collector.units, work.resolved channels = true) →
        ∃ final final', (bench.after happenings).StopBoth (other.after happenings) final final') ∧
      ∀ final final', (bench.after happenings).StopBoth (other.after happenings) final final' →
        final.Alike final' :=
  ⟨(h.after happenings).alike,
    fun _ hl hresolved => (h.after happenings).exists_stopBoth hl hresolved,
    fun _ _ hstop => ((h.after happenings).stop hstop).toAlike⟩

/-- Where no unit was split, all is counted alike. -/
theorem tally_unsplit {calls asked : List Call} (h : Together ⟨calls, asked, none⟩ bench other)
    (happenings : List Happening)
    (hstop : (bench.after happenings).StopBoth (other.after happenings) final final') :
    final.tally = final'.tally :=
  ((h.after happenings).stop hstop).tally.of_unsplit.2

/-- Where a unit was split, its outcomes are counted one by one, or the worst of them once. -/
theorem tally_split {calls asked : List Call} {split : Split}
    (h : Together ⟨calls, asked, some split⟩ bench other) (happenings : List Happening)
    (hstop : (bench.after happenings).StopBoth (other.after happenings) final final') :
    ∃ (common : Tally) (outcomes : List Resolved),
      (outcomes.map Prod.fst).Perm split.languages ∧
      final.tally = (common.recordAll outcomes).addPartials (if mixed outcomes then 1 else 0) ∧
      final'.tally = common.recordAll [split.joint outcomes] :=
  ((h.after happenings).stop hstop).tally.of_none

end Together

end Bench

end SymbolAtlas
