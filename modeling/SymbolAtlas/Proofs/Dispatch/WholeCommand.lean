import SymbolAtlas.Proofs.Dispatch.Abreast
import SymbolAtlas.Proofs.Dispatch.Plan

/-!
# Whole commands

An action with several sources is given to parsers source by source, or to one parser as a whole
command. A parser that does nothing of its own with whole commands takes them pair by pair.

- **Both ways of dispatch** (`dispatchEach_eq`, `dispatchWhole_eq`): where one such parser takes all
  sources, both are a parse for every pair, and the results are its handles or their join.
- **The step in both modes** (`passStep_each`, `passStep_whole`): the search for a task ends at the
  same action, and the steps differ in the call for the whole command and in the unit that is handed
  over.
- **Agreement** (`whole_command_agrees`): from there on, nothing but the counts of that action tells
  the two benches apart, whatever happens.
-/

namespace SymbolAtlas

/-- A whole command is one parse for every pair to the parser. -/
def Parser.KeepsCommand : Parser → Prop
  | .indexer => True
  | .plugin p => p.command = none

/-- The settings with whole commands or without. -/
def DispatchSettings.inMode (settings : DispatchSettings) (wholeCommand : Bool) :
    DispatchSettings :=
  { settings with wholeCommand }

/-! ## Parses of all pairs -/

namespace Parser

variable (parser : Parser) (action : BuildAction) (options : Command.Options)

/-- The call for a whole command. -/
def wholeCall (pairs : List FilePair) : List Call :=
  match parser with
  | .indexer => []
  | .plugin p => [.command p.name action.id pairs]

/-- The call for a pair. -/
def callFor (pair : FilePair) : List Call :=
  match parser with
  | .indexer => []
  | .plugin p =>
    pair.source.toList.map fun source =>
      .parse p.name action.id source.path (pair.target.map File.path) options

/-- The job for a pair, without its channel. -/
def jobFor (pair : FilePair) : List (Int × String × List String) :=
  match parser with
  | .indexer =>
    pair.source.toList.map fun source => (source.id, source.path, options.includePaths)
  | .plugin _ => []

end Parser

/-- What an index job is about. -/
def IndexJob.subject (job : IndexJob) : Int × String × List String :=
  (job.file, job.path, job.includePaths)

/-- A parser was asked for every pair, in order. -/
structure Bench.Asked (parser : Parser) (action : BuildAction) (options : Command.Options)
    (pairs : List FilePair) (before after : Bench) : Prop where
  calls : after.calls = before.calls ++ pairs.flatMap (parser.callFor action options)
  jobs : after.jobs.map IndexJob.subject =
    before.jobs.map IndexJob.subject ++ pairs.flatMap (parser.jobFor options)

/-- Work that succeeds has succeeded in its parts. -/
theorem Work.run_bind_ok {α β : Type} {work : Work α} {next : α → Work β} {bench after : Bench}
    {b : β} (hrun : (work >>= next).run.run bench = (.ok b, after)) :
    ∃ a between, work.run.run bench = (.ok a, between) ∧
      (next a).run.run between = (.ok b, after) := by
  rw [run_run_bind] at hrun
  rcases hfirst : work.run.run bench with ⟨_ | a, between⟩
  · rw [hfirst] at hrun
    cases hrun
  · rw [hfirst] at hrun
    exact ⟨a, between, rfl, hrun⟩

/-- What the parts of the work come to one after the other, all of it comes to. -/
theorem Work.mapM_ok {α β : Type} {f : α → Work β} {R : List α → Bench → Bench → Prop}
    (hnil : ∀ bench, R [] bench bench)
    (hcons : ∀ a as b bench between after, (f a).run.run bench = (.ok b, between) →
      R as between after → R (a :: as) bench after)
    {as : List α} {bs : List β} {bench after : Bench}
    (hrun : (as.mapM f).run.run bench = (.ok bs, after)) :
    bs.length = as.length ∧ R as bench after := by
  induction as generalizing bs bench with
  | nil =>
    cases hrun
    exact ⟨rfl, hnil _⟩
  | cons a as ih =>
    rw [List.mapM_cons] at hrun
    obtain ⟨b, between, hfirst, hrun⟩ := Work.run_bind_ok hrun
    obtain ⟨others, last, hrest, hlast⟩ := Work.run_bind_ok hrun
    cases hlast
    obtain ⟨hlength, hothers⟩ := ih hrest
    exact ⟨congrArg (· + 1) hlength, hcons a as b bench between after hfirst hothers⟩

/-- To make channels calls nobody and starts no index job. -/
theorem Work.Channelling.keeps {α : Type} {work : Work α} (h : work.Channelling) (bench : Bench) :
    (work.run.run bench).2.calls = bench.calls ∧ (work.run.run bench).2.jobs = bench.jobs := by
  induction h generalizing bench with
  | pure a => exact ⟨rfl, rfl⟩
  | @bind _ _ work next _ _ ih ihnext =>
    have hfirst := ih bench
    rw [run_run_bind]
    rcases hrun : work.run.run bench with ⟨_ | a, between⟩
    · rw [hrun] at hfirst
      exact hfirst
    · rw [hrun] at hfirst
      have hsecond := ihnext a between
      exact ⟨hsecond.1.trans hfirst.1, hsecond.2.trans hfirst.2⟩
  | new state => exact ⟨rfl, rfl⟩
  | outside id => exact ⟨rfl, rfl⟩

/-- A plugin that replies calls nobody and starts no index job. -/
theorem Plugin.respond_keeps {act : View → Option Reply × Effects} {handle : Handle}
    {bench after : Bench} (hrun : (respond act).run.run bench = (.ok handle, after)) :
    after.calls = bench.calls ∧ after.jobs = bench.jobs := by
  rw [run_respond] at hrun
  split at hrun
  · cases hrun
  · split at hrun
    next reply hreply =>
      have hkeeps := reply.channelling_handle.keeps { bench with
        memory := (act ⟨bench.memory, bench.database.store⟩).2.memory
        database := { bench.database with
          store := (act ⟨bench.memory, bench.database.store⟩).2.record bench.database.store } }
      rwa [hrun] at hkeeps
    next => cases hrun

namespace Parser

variable {parser : Parser} {action : BuildAction} {options : Command.Options}

theorem parse_asked {source : File} {target : Option File} {handle : Handle}
    {bench after : Bench}
    (hrun : (parser.parse action options source target).run.run bench = (.ok handle, after)) :
    bench.Asked parser action options [⟨some source, target⟩] after := by
  cases parser with
  | indexer =>
    cases hrun
    constructor <;> simp [callFor, jobFor, IndexJob.subject]
  | plugin p =>
    obtain ⟨_, between, hcall, hreply⟩ := Work.run_bind_ok hrun
    cases hcall
    have hkeeps := Plugin.respond_keeps hreply
    constructor
    · rw [hkeeps.1]
      simp [callFor]
    · rw [hkeeps.2]
      simp [jobFor]

/-- All pairs are parsed, one after the other. -/
theorem parseEach_asked {pairs : List FilePair} {handles : List Handle} {bench after : Bench}
    (hrun : (parser.parseEach action options pairs).run.run bench = (.ok handles, after)) :
    handles.length = pairs.length ∧ bench.Asked parser action options pairs after := by
  refine Work.mapM_ok (fun bench => ⟨by simp, by simp⟩) ?_ hrun
  rintro ⟨_ | source, target⟩ pairs handle bench between after hfirst hrest
  · cases hfirst
    have hnone : parser.callFor action options ⟨none, target⟩ = [] ∧
        parser.jobFor options ⟨none, target⟩ = [] := by cases parser <;> exact ⟨rfl, rfl⟩
    constructor
    · rw [hrest.calls, List.flatMap_cons, hnone.1, List.nil_append]
    · rw [hrest.jobs, List.flatMap_cons, hnone.2, List.nil_append]
  · have hasked := parse_asked hfirst
    constructor
    · rw [hrest.calls, hasked.calls, List.append_assoc, ← List.flatMap_append,
        List.singleton_append]
    · rw [hrest.jobs, hasked.jobs, List.append_assoc, ← List.flatMap_append,
        List.singleton_append]

/-- A record of calls more makes no difference to the parses of all pairs. -/
theorem parseEach_together (parser : Parser) (action : BuildAction) (options : Command.Options)
    (pairs : List FilePair) (bench : Bench) (asked : List Call) :
    ∃ result after after',
      (parser.parseEach action options pairs).run.run bench = (result, after) ∧
      (parser.parseEach action options pairs).run.run
        { bench with calls := bench.calls ++ asked } = (result, after') ∧
      Bench.Together ⟨bench.calls, asked, none⟩ after after' ∧
      after.collector = bench.collector ∧ after'.collector = bench.collector := by
  obtain ⟨hsame, htogether⟩ :=
    parser.respects_parseEach action options pairs _ _ (Bench.Together.start bench asked)
  refine ⟨_, _, ((parser.parseEach action options pairs).run.run
    { bench with calls := bench.calls ++ asked }).2, rfl, Prod.ext hsame rfl, htogether, ?_, ?_⟩
  · exact (parser.calls_parseEach action options pairs bench).collector
  · exact (parser.calls_parseEach action options pairs _).collector

end Parser

/-! ## Both ways of dispatch -/

/-- The results of pairs with handles to them. -/
def FilePair.results (pairs : List FilePair) (handles : List Handle) : List PendingResult :=
  pairs.zipWith (fun pair handle => ⟨handle, pair.source.bind File.language⟩) handles

/-- One parser takes the sources of all pairs. -/
def DispatchSettings.Gives (settings : DispatchSettings) (parser : Parser)
    (pairs : List FilePair) : Prop :=
  ∀ pair ∈ pairs, ∃ file, pair.source = some file ∧
    settings.registry.resolve? file.path = some parser

section

variable {settings : DispatchSettings} {parser : Parser} {task : Task}

theorem dispatchEach_eq (h : settings.Gives parser task.pairs) :
    dispatchEach settings task =
      parser.parseEach task.action task.options task.pairs >>= fun handles =>
        pure (FilePair.results task.pairs handles) := by
  unfold dispatchEach Parser.parseEach
  generalize task.pairs = pairs at h
  induction pairs with
  | nil => rfl
  | cons pair rest ih =>
    obtain ⟨file, hsource, hresolve⟩ := h pair (.head _)
    have ih := ih fun other hother => h other (.tail _ hother)
    have hfirst : dispatchSource settings task file pair.target =
        parser.parse task.action task.options file pair.target >>= fun handle =>
          pure ⟨handle, file.language⟩ := by
      rw [dispatchSource, hresolve]
    simp only [List.filterMap_cons, hsource, Option.map_some, List.mapM_cons, ih, hfirst,
      bind_assoc, pure_bind, FilePair.results, List.zipWith_cons_cons, Option.bind_some]

theorem dispatchWhole_eq (h : settings.Gives parser task.pairs) (hpairs : task.pairs ≠ [])
    (hkeeps : parser.KeepsCommand) (bench : Bench) :
    (dispatchWhole settings task).run.run bench =
      (parser.parseEach task.action task.options task.pairs >>= fun handles =>
        pure [⟨.join handles, task.pairs.head?.bind fun pair =>
          pair.source.bind File.language⟩]).run.run
        { bench with calls := bench.calls ++ parser.wholeCall task.action task.pairs } := by
  obtain ⟨first, rest, hcons⟩ := List.exists_cons_of_ne_nil hpairs
  obtain ⟨file, hsource, hresolve⟩ := h first (by simp [hcons])
  simp only [dispatchWhole, hcons, List.head?_cons, Option.bind_some, hsource, hresolve]
  cases parser with
  | indexer =>
    simp only [Parser.parseCommand, Parser.wholeCall, List.append_nil, bind_assoc, pure_bind]
  | plugin p =>
    have hnone : p.command = none := hkeeps
    simp only [Parser.parseCommand, hnone, bind_assoc, pure_bind]
    rw [run_run_bind]
    rfl

end

/-! ## The step in both modes -/

/-- The next step of a pass takes the action. -/
def Bench.Takes (settings : DispatchSettings) (bench : Bench) (action : BuildAction) : Prop :=
  ∃ task, ((nextTask settings).run.run { bench with database := bench.database.enter }).1 =
    .ok (some task) ∧ task.action = action

/-- In both modes, the search for a task ends at the same action. -/
theorem nextTaskWithin_inMode (settings : DispatchSettings) (mode : Bool) (n : Nat)
    (bench : Bench) :
    (nextTaskWithin (settings.inMode mode) n).run.run bench =
      (((nextTaskWithin settings n).run.run bench).1.map (Option.map fun task =>
          Task.of (settings.inMode mode) bench.database.store task.action),
        ((nextTaskWithin settings n).run.run bench).2) := by
  induction n generalizing bench with
  | zero => rfl
  | succ n ih =>
    cases hdb : bench.database.refuses with
    | true =>
      rw [nextTaskWithin_of_refuses _ n hdb, nextTaskWithin_of_refuses _ n hdb]
      rfl
    | false =>
    rw [nextTaskWithin_succ _ n hdb, nextTaskWithin_succ _ n hdb]
    rcases bench.database.store.nextOutstanding bench.cursor with fault | _ | action
    · rfl
    · rfl
    · dsimp only
      split
      · exact ih { bench with cursor := some action.id }
      · rfl

theorem Bench.Takes.nextTask {settings : DispatchSettings} {bench : Bench} {action : BuildAction}
    (h : bench.Takes settings action) (mode : Bool) :
    (nextTask (settings.inMode mode)).run.run { bench with database := bench.database.enter } =
      (.ok (some (Task.of (settings.inMode mode) bench.database.store action)),
        bench.taking action.id) := by
  obtain ⟨task, htask, rfl⟩ := h
  obtain ⟨result, cursor, hrun, hoffered⟩ :=
    nextTask_spec settings { bench with database := bench.database.enter }
  rw [hrun] at htask
  obtain ⟨-, -, rfl⟩ := hoffered task htask
  rw [run_nextTask] at hrun ⊢
  rw [nextTaskWithin_inMode, hrun, htask]
  rfl

/-- What a step comes to, when parsing all pairs has come to handles or a crash. -/
def handedOver (action : Int) (pairs : List FilePair)
    (results : List Handle → List PendingResult) :
    Except Fault (List Handle) × Bench → Except Fault (Option (Nat × Dispatched)) × Bench
  | (.ok handles, after) =>
    (.ok (some (pairs.length, .queued (results handles).length)),
      { after with
        database := after.database.leave true
        collector := after.collector.queue { action, results := results handles } })
  | (.error fault, after) => (.error fault, { after with database := after.database.leave false })

theorem passStep_of_results {settings : DispatchSettings} {task : Task} {bench between : Bench}
    {work : Work (List Handle)} {results : List Handle → List PendingResult}
    (hnext : (nextTask settings).run.run { bench with database := bench.database.enter } =
      (.ok (some task), bench.taking task.action.id))
    (hkind : task.action.kind ≠ .link)
    (hsources : (task.pairs.any fun pair => pair.source.isNone) = false)
    (hresults : (task.results settings).run.run (bench.taking task.action.id) =
      (work >>= fun handles => pure (results handles)).run.run between) :
    (passStep settings).run.run bench =
      handedOver task.action.id task.pairs results (work.run.run between) := by
  have hdispatch := dispatch_parse settings task (bench.taking task.action.id) hkind hsources
  rw [hresults, run_run_bind] at hdispatch
  rcases hrun : work.run.run between with ⟨fault | handles, after⟩
  · rw [hrun] at hdispatch
    rw [passStep_of_dispatch hnext hdispatch]
    rfl
  · rw [hrun] at hdispatch
    rw [passStep_of_dispatch hnext hdispatch]
    rfl

section

variable {settings : DispatchSettings} {bench : Bench} {action : BuildAction} {parser : Parser}

/-- Sources that one parser takes are all there. -/
theorem DispatchSettings.Gives.present {pairs : List FilePair} (h : settings.Gives parser pairs) :
    (pairs.any fun pair => pair.source.isNone) = false := by
  rw [List.any_eq_false]
  intro pair hpair
  obtain ⟨file, hsource, -⟩ := h pair hpair
  simp [hsource]

/-- The language of the first source. -/
def FilePair.firstLanguage (pairs : List FilePair) : Option String :=
  pairs.head?.bind fun pair => pair.source.bind File.language

theorem passStep_each (htakes : bench.Takes settings action) (hkind : action.kind ≠ .link)
    {task : Task} (htask : Task.of settings bench.database.store action = task)
    (hgives : settings.Gives parser task.pairs) :
    (passStep (settings.inMode false)).run.run bench =
      handedOver action.id task.pairs (FilePair.results task.pairs)
        ((parser.parseEach action task.options task.pairs).run.run (bench.taking action.id)) := by
  subst htask
  let task := Task.of (settings.inMode false) bench.database.store action
  refine @passStep_of_results _ task _ _ _ _ (htakes.nextTask false) hkind hgives.present ?_
  rw [Task.results, if_neg (by simp [task, Task.of, DispatchSettings.inMode]),
    @dispatchEach_eq (settings.inMode false) parser task hgives]
  rfl

theorem passStep_whole (htakes : bench.Takes settings action) (hkind : action.kind ≠ .link)
    {task : Task} (htask : Task.of settings bench.database.store action = task)
    (hgives : settings.Gives parser task.pairs) (hmany : 1 < task.pairs.length)
    (hkeeps : parser.KeepsCommand) :
    (passStep (settings.inMode true)).run.run bench =
      handedOver action.id task.pairs
        (fun handles => [⟨.join handles, FilePair.firstLanguage task.pairs⟩])
        ((parser.parseEach action task.options task.pairs).run.run
          { bench.taking action.id with
            calls := (bench.taking action.id).calls ++ parser.wholeCall action task.pairs }) := by
  subst htask
  have hpairs : (Task.of settings bench.database.store action).pairs ≠ [] := by
    intro hnil
    simp [hnil] at hmany
  let task := Task.of (settings.inMode true) bench.database.store action
  refine @passStep_of_results _ task _ _ _ _ (htakes.nextTask true) hkind hgives.present ?_
  rw [Task.results, if_pos (by simpa [task, Task.of, DispatchSettings.inMode] using hmany),
    @dispatchWhole_eq (settings.inMode true) parser task hgives hpairs hkeeps]
  rfl

/-- Beside a unit with one result for each source, one with a single result that is there when all
the others are, and that comes to the worst of them. -/
structure Unfinished.Sums (each : Unfinished) (pairs : List FilePair) (whole : Unfinished) :
    Prop where
  action : whole.action = each.action
  languages : each.results.map PendingResult.language =
    pairs.map fun pair => pair.source.bind File.language
  single : whole.results.length = 1
  polled : ∀ channels, (whole.poll channels).1.isComplete = (each.poll channels).1.isComplete
  resolved : ∀ channels, whole.resolved channels = each.resolved channels
  outcome : ∀ channels, whole.outcomes channels =
    [(FilePair.firstLanguage pairs, Outcome.worstAmong ((each.outcomes channels).map Prod.snd))]

theorem FilePair.results_spec {pairs : List FilePair} {handles : List Handle}
    (h : handles.length = pairs.length) :
    (FilePair.results pairs handles).map PendingResult.handle = handles ∧
      (FilePair.results pairs handles).map PendingResult.language =
        pairs.map fun pair => pair.source.bind File.language := by
  induction pairs generalizing handles with
  | nil =>
    rw [List.length_nil, List.length_eq_zero_iff] at h
    subst h
    exact ⟨rfl, rfl⟩
  | cons pair rest ih =>
    cases handles with
    | nil => cases h
    | cons handle handles =>
      obtain ⟨hhandles, hlanguages⟩ := ih (Nat.succ.inj h)
      exact ⟨congrArg (handle :: ·) hhandles, congrArg (_ :: ·) hlanguages⟩

/-- The results of the sources and their join are side by side. -/
theorem FilePair.joins_results {pairs : List FilePair} {handles : List Handle}
    (h : handles.length = pairs.length) (hpairs : 1 < pairs.length) (action : Int) :
    Unfinished.Joins { action, results := FilePair.results pairs handles }
      ⟨(FilePair.results pairs handles).map PendingResult.language, FilePair.firstLanguage pairs⟩ []
      { action, results := [⟨.join handles, FilePair.firstLanguage pairs⟩] } := by
  obtain ⟨hhandles, -⟩ := FilePair.results_spec h
  have hnonempty : FilePair.results pairs handles ≠ [] := by
    intro hnil
    rw [hnil, List.map_nil] at hhandles
    rw [← h, ← hhandles] at hpairs
    cases hpairs
  have hjoins := Unfinished.Joins.new hnonempty action (FilePair.firstLanguage pairs)
  rwa [hhandles] at hjoins

theorem FilePair.sums_results {pairs : List FilePair} {handles : List Handle}
    (h : handles.length = pairs.length) (hpairs : 1 < pairs.length) (action : Int) :
    Unfinished.Sums { action, results := FilePair.results pairs handles } pairs
      { action, results := [⟨.join handles, FilePair.firstLanguage pairs⟩] } :=
  have hjoins := FilePair.joins_results h hpairs action
  ⟨rfl, (FilePair.results_spec h).2, rfl, hjoins.isComplete_poll, hjoins.resolved, hjoins.outcomes⟩

/-- A whole command and its sources one by one. A step of a pass takes an action with several
sources, which are all there and go to one parser that takes whole commands pair by pair. In both
modes the parser is asked for the same pairs in the same order, and crashes in both or in none. If
it does not crash, the one result of the whole command is there just when all results of the sources
are, and comes to the worst of them, where one that was abandoned has failed. Whatever happens to
both benches from then on, nothing tells them apart but the counts: neither the tables, with the
state of the action, nor the channels, nor what is in flight. Their collectors stop, as soon as no
result is missing for the first, and producers may go on until then. In the end the counts differ
only in how the outcomes of this action were counted: one by one, and as partial if they were mixed,
or the worst of them once. -/
theorem whole_command_agrees (htakes : bench.Takes settings action) (hkind : action.kind ≠ .link)
    (hmany : 1 < (bench.database.store.sourcesOf action.id).length)
    (hsources : ∀ source ∈ bench.database.store.sourcesOf action.id, ∃ file,
      source = some file ∧ settings.registry.resolve? file.path = some parser)
    (hkeeps : parser.KeepsCommand) :
    let task := Task.of settings bench.database.store action
    ∃ result next result' next' made,
      (passStep (settings.inMode false)).run.run bench = (result, next) ∧
      (passStep (settings.inMode true)).run.run bench = (result', next') ∧
      next.calls = bench.calls ++ made ∧
      next'.calls = bench.calls ++ parser.wholeCall action task.pairs ++ made ∧
      (∀ later, (next.after later).Alike (next'.after later) ∧
        (∀ channels, (next.after later).channels.Leads channels →
          (∀ work ∈ (next.after later).collector.units, work.resolved channels = true) →
          ∃ final final', (next.after later).StopBoth (next'.after later) final final') ∧
        ∀ final final', (next.after later).StopBoth (next'.after later) final final' →
          final.Alike final') ∧
      ((∃ fault, result = .error fault ∧ result' = .error fault ∧
          next.collector = bench.collector ∧ next'.collector = bench.collector ∧
          ∀ later final final', (next.after later).StopBoth (next'.after later) final final' →
            final.tally = final'.tally) ∨
        ∃ each whole : Unfinished,
          result = .ok (some (task.pairs.length, .queued task.pairs.length)) ∧
          result' = .ok (some (task.pairs.length, .queued 1)) ∧
          bench.Asked parser action task.options task.pairs next ∧
          next.collector = bench.collector.queue each ∧
          next'.collector = bench.collector.queue whole ∧
          each.action = action.id ∧ each.Sums task.pairs whole ∧
          (bench.collector.phase = .stopped → ∀ later final final',
            (next.after later).StopBoth (next'.after later) final final' →
            final.tally = final'.tally) ∧
          (bench.collector.phase ≠ .stopped → ∀ later final final',
            (next.after later).StopBoth (next'.after later) final final' →
            ∃ (common : Tally) (outcomes : List Resolved),
              (outcomes.map Prod.fst).Perm (each.results.map PendingResult.language) ∧
              final.tally =
                (common.recordAll outcomes).addPartials (if mixed outcomes then 1 else 0) ∧
              final'.tally =
                common.record (FilePair.firstLanguage task.pairs)
                  (Outcome.worstAmong (outcomes.map Prod.snd)))) := by
  intro task
  have hpairs : task.pairs.map FilePair.source = bench.database.store.sourcesOf action.id :=
    FilePair.map_source_pairUp _ _
  have hmany : 1 < task.pairs.length := by rwa [← hpairs, List.length_map] at hmany
  have hgives : settings.Gives parser task.pairs := fun pair hpair =>
    hsources pair.source (hpairs ▸ List.mem_map_of_mem hpair)
  rw [passStep_each htakes hkind rfl hgives, passStep_whole htakes hkind rfl hgives hmany hkeeps]
  obtain ⟨result, after, after', hrun, hrun', htogether, hcollector, hcollector'⟩ :=
    parser.parseEach_together action task.options task.pairs (bench.taking action.id)
      (parser.wholeCall action task.pairs)
  rw [hrun, hrun']
  cases result with
  | error fault =>
    have htogether := htogether.apply (.tables (Database.leave false))
    obtain ⟨made, hcalls, hcalls'⟩ := htogether.calls
    exact ⟨_, _, _, _, made, rfl, rfl, hcalls, hcalls', htogether.stays_alike,
      .inl ⟨fault, rfl, rfl, hcollector, hcollector',
        fun later _ _ hstop => htogether.tally_unsplit later hstop⟩⟩
  | ok handles =>
    obtain ⟨hlength, hasked⟩ := Parser.parseEach_asked hrun
    have hcount : (FilePair.results task.pairs handles).length = task.pairs.length := by
      simpa using congrArg List.length (FilePair.results_spec hlength).2
    have hphase : after.collector.phase = bench.collector.phase :=
      congrArg Collector.phase hcollector
    have htogether := (htogether.handOver (FilePair.joins_results hlength hmany action.id)).apply
      (.tables (Database.leave true))
    obtain ⟨made, hcalls, hcalls'⟩ := htogether.calls
    refine ⟨_, _, _, _, made, rfl, rfl, hcalls, hcalls', htogether.stays_alike, .inr ⟨_, _,
      congrArg (fun n => Except.ok (some (task.pairs.length, Dispatched.queued n))) hcount, rfl,
      ⟨hasked.calls, hasked.jobs⟩, congrArg (Collector.queue _) hcollector,
      congrArg (Collector.queue _) hcollector', rfl,
      FilePair.sums_results hlength hmany action.id, fun hstopped => ?_, fun haccepts => ?_⟩⟩
    · rw [if_pos (hphase.trans hstopped)] at htogether
      exact fun later _ _ hstop => htogether.tally_unsplit later hstop
    · rw [if_neg (hphase ▸ haccepts)] at htogether
      exact fun later _ _ hstop => htogether.tally_split later hstop

end

/-- A parser that answers later for one file, and never for the others. -/
def lateParser : Parser :=
  .plugin {
    name := "late"
    accepts := fun _ => true
    parse := fun view _ source _ _ =>
      (some (if source.path = "a.c" then .channel else .abandoned), { memory := view.memory }) }

def archiveSettings : DispatchSettings where
  registry := { parsers := [lateParser] }

/-- Two sources in different languages that are built into one archive. -/
def archiveBench : Bench where
  database := ⟨{
    actions := [⟨1, "compile", "created", "cc a.c b.cc", "p"⟩]
    files := [⟨1, "a.c", some "c"⟩, ⟨2, "b.cc", some "cpp"⟩, ⟨3, "lib.a", none⟩]
    sources := [⟨1, 1, 0⟩, ⟨1, 2, 1⟩]
    targets := [⟨1, 3, 0⟩] }, {}, 0, false⟩
  collector := { phase := .running }

def archiveAction : BuildAction := ⟨1, .compile, .created, "cc a.c b.cc", "p"⟩

theorem whole_command_agrees_archive :
    archiveBench.Takes archiveSettings archiveAction ∧ archiveAction.kind ≠ .link ∧
    archiveBench.database.store.sourcesOf 1 =
      [some ⟨1, "a.c", some "c"⟩, some ⟨2, "b.cc", some "cpp"⟩] ∧
    ∃ e w,
      (passStep (archiveSettings.inMode false)).run.run archiveBench =
        (.ok (some (2, .queued 2)), e) ∧
      (passStep (archiveSettings.inMode true)).run.run archiveBench =
        (.ok (some (2, .queued 1)), w) ∧
      (∃ final final', (e.after []).StopBoth (w.after []) final final') ∧
      ∀ later final final', (e.after later).StopBoth (w.after later) final final' →
        final.Alike final' ∧
        ∃ (common : Tally) (outcomes : List Resolved),
          (outcomes.map Prod.fst).Perm [some "c", some "cpp"] ∧
          final.tally =
            (common.recordAll outcomes).addPartials (if mixed outcomes then 1 else 0) ∧
          final'.tally =
            common.record (some "c") (Outcome.worstAmong (outcomes.map Prod.snd)) := by
  have htakes : archiveBench.Takes archiveSettings archiveAction := ⟨_, rfl, rfl⟩
  have hsources : archiveBench.database.store.sourcesOf 1 =
      [some ⟨1, "a.c", some "c"⟩, some ⟨2, "b.cc", some "cpp"⟩] := by
    rw [Store.sourcesOf, Store.linksOf, List.mergeSort_of_pairwise (by decide)]
    rfl
  have htargets : archiveBench.database.store.targetsOf 1 = [some ⟨3, "lib.a", none⟩] := by
    rw [Store.targetsOf, Store.linksOf, List.mergeSort_of_pairwise (by decide)]
    rfl
  have hpairs : (Task.of archiveSettings archiveBench.database.store archiveAction).pairs =
      [⟨some ⟨1, "a.c", some "c"⟩, some ⟨3, "lib.a", none⟩⟩,
        ⟨some ⟨2, "b.cc", some "cpp"⟩, some ⟨3, "lib.a", none⟩⟩] := by
    show FilePair.pairUp (archiveBench.database.store.sourcesOf 1)
      (archiveBench.database.store.targetsOf 1) = _
    rw [hsources, htargets]
    rfl
  have hresolved : ∀ source ∈ archiveBench.database.store.sourcesOf archiveAction.id, ∃ file,
      source = some file ∧ archiveSettings.registry.resolve? file.path = some lateParser := by
    intro source hsource
    rw [show archiveAction.id = 1 from rfl, hsources] at hsource
    simp only [List.mem_cons, List.not_mem_nil, or_false] at hsource
    rcases hsource with rfl | rfl <;> exact ⟨_, rfl, rfl⟩
  have hanswers : (archiveSettings.inMode false).registry.Answers := by
    intro parser hparser
    obtain rfl := List.mem_singleton.mp (List.mem_of_mem_filter hparser)
    refine ⟨fun _ source _ _ => ?_, by simp⟩
    dsimp only
    split <;> simp
  obtain ⟨result, e, result', w, made, heach, hwhole, -, -, halike, hends⟩ :=
    @whole_command_agrees archiveSettings archiveBench archiveAction lateParser htakes
      (by decide) (by rw [show archiveAction.id = 1 from rfl, hsources]; decide) hresolved rfl
  rw [hpairs] at hends
  rcases hends with ⟨fault, rfl, -⟩ | ⟨each, whole, rfl, rfl, -, -, -, -, hsums, -, hcounts⟩
  · have hstep := @passStep_of_next (archiveSettings.inMode false) archiveBench archiveAction rfl rfl
      (by decide)
    rw [heach] at hstep
    cases hstep with
    | failed hcrash => exact absurd hanswers hcrash
  · refine ⟨htakes, by decide, hsources, e, w, heach, hwhole, ?_, fun later final final' hstop =>
      ⟨(halike later).2.2 final final' hstop, ?_⟩⟩
    · exact (halike []).2.1 _ (Channels.leads_dropAll _) fun work _ =>
        work.resolved_of_noneWaiting (Channels.noneWaiting_dropAll _)
    have hcounted := hcounts (by decide) later final final' hstop
    rw [hsums.languages] at hcounted
    exact hcounted

end SymbolAtlas
