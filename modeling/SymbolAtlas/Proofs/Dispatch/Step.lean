import SymbolAtlas.Proofs.Dispatch.Calls
import SymbolAtlas.Proofs.Dispatch.Indexing
import SymbolAtlas.Proofs.Dispatch.Units

/-!
# Steps of a pass

A step takes the next task and dispatches it, in one transaction.

- **The task** (`Task.Offered`): its action is outstanding and not in flight.
- **What becomes of it** (`Task.Ends`): it is linked, skipped or queued, or a plugin crashed and the
  step is undone. Plugins may have recorded what they found, but the build graph is the same
  (`Task.Ends.extends`).
- **Every step** either comes to that for one task or does nothing (`passStep_cases`). Which task it
  is, is known where the next outstanding action is not in flight (`passStep_of_next`).
-/

namespace SymbolAtlas

/-! ## Work on the bench -/

section

variable {α : Type}

theorem Work.run_setState {state : ActionState} (h : state ≠ .created) (action : Int)
    {bench : Bench} (hdb : bench.database.refuses = false) :
    (Work.onDatabase (Tx.writeOr (Store.setState action state))).run.run bench =
      (.ok (bench.database.store.actions.any fun row =>
          row.id = action && row.state = Store.createdWord),
        { bench with
          database := { bench.database with
            store := bench.database.store.moved (fun _ => state) [action] } }) := by
  rw [Work.run_onDatabase, Tx.run_writeOr hdb (Store.setState_eq h action bench.database.store)]

theorem Work.run_transaction {work : Work α} {bench after : Bench} {result : Except Fault α}
    (h : work.run.run { bench with database := bench.database.enter } = (result, after)) :
    (Work.transaction work).run.run bench =
      (result, { after with database := after.database.leave result.isOk }) := by
  change Work.transaction work bench = _
  unfold Work.transaction
  rw [h]

end

/-! ## The next task -/

/-- The row comes after the cursor. -/
def ActionRow.follows (cursor : Option Int) (row : ActionRow) : Bool :=
  cursor.all fun id => id < row.id

namespace Store

variable {store : Store} {after : Option Int} {action : BuildAction}

/-- The action is recorded and outstanding. -/
def Outstanding (store : Store) (action : Int) : Prop :=
  ∃ row ∈ store.actions, row.id = action ∧ row.state = createdWord

/-- The row of the first outstanding action after the given one. -/
def nextRow? (store : Store) (after : Option Int) : Option ActionRow :=
  store.actions.find? fun row => row.state = createdWord && row.follows after

theorem nextOutstanding_eq (store : Store) (after : Option Int) :
    store.nextOutstanding after =
      match store.nextRow? after with
      | none => .ok none
      | some row => row.read.map some := by
  unfold nextOutstanding nextRow? ActionRow.follows
  cases store.actions.find? _ with
  | none => rfl
  | some row =>
    show (row.read >>= fun action => pure (some action)) = row.read.map some
    cases row.read <;> rfl

theorem id_of_read {row : ActionRow} (h : row.read = .ok action) : action.id = row.id := by
  unfold ActionRow.read at h
  split at h
  · cases h
  · split at h
    · cases h
    · cases h
      rfl

/-- Which action is next is not found out only for what a row says. -/
theorem fault_of_nextOutstanding {fault : Fault} (h : store.nextOutstanding after = .error fault) :
    fault.isStatement = false ∧ fault.isEarly = false := by
  rw [nextOutstanding_eq] at h
  cases hrow : store.nextRow? after with
  | none =>
    rw [hrow] at h
    cases h
  | some row =>
    rw [hrow] at h
    dsimp only [ActionRow.read] at h
    cases hkind : Worded.parse? (α := ActionKind) row.kind with
    | none =>
      rw [hkind] at h
      cases h
      exact ⟨rfl, rfl⟩
    | some kind =>
      cases hstate : Worded.parse? (α := ActionState) row.state with
      | none =>
        rw [hkind, hstate] at h
        cases h
        exact ⟨rfl, rfl⟩
      | some state =>
        rw [hkind, hstate] at h
        cases h

theorem outstanding_of_next (h : store.nextOutstanding after = .ok (some action)) :
    store.Outstanding action.id := by
  rw [nextOutstanding_eq] at h
  match hrow : store.nextRow? after with
  | none =>
    rw [hrow] at h
    cases h
  | some row =>
    rw [hrow] at h
    dsimp only at h
    match hread : row.read with
    | .error fault =>
      rw [hread] at h
      cases h
    | .ok read =>
      rw [hread] at h
      cases h
      have hstate := List.find?_some hrow
      rw [Bool.and_eq_true, decide_eq_true_eq] at hstate
      exact ⟨row, List.mem_of_find?_eq_some hrow, (id_of_read hread).symm, hstate.1⟩

end Store

/-- A task of a bench: its action is outstanding and not in flight. -/
structure Task.Offered (settings : DispatchSettings) (bench : Bench) (task : Task) : Prop where
  outstanding : bench.database.store.Outstanding task.action.id
  free : task.action.id ∉ bench.collector.inFlight
  of : task = Task.of settings bench.database.store task.action

section

variable (settings : DispatchSettings)

theorem nextTaskWithin_succ (n : Nat) {bench : Bench} (hdb : bench.database.refuses = false) :
    (nextTaskWithin settings (n + 1)).run.run bench =
      match bench.database.store.nextOutstanding bench.cursor with
      | .error fault => (.error fault, bench)
      | .ok none => (.ok none, bench)
      | .ok (some action) =>
        if bench.collector.isPending action.id then
          (nextTaskWithin settings n).run.run { bench with cursor := some action.id }
        else
          (.ok (some (Task.of settings bench.database.store action)),
            { bench with cursor := some action.id }) := by
  have hrow : ∀ fault, bench.database.store.nextOutstanding bench.cursor = .error fault →
      fault.isStatement = false := fun fault hfault =>
    (Store.fault_of_nextOutstanding hfault).1
  rw [nextTaskWithin, run_run_bind]
  show StateT.run (ExceptT.run (_ >>= _)) bench = _
  rw [run_run_bind, Work.run_onDatabase, Tx.run_readOr hdb hrow]
  rcases bench.database.store.nextOutstanding bench.cursor with _ | _ | action
  · rfl
  · rfl
  · show StateT.run (ExceptT.run (if bench.collector.isPending action.id then _ else _))
      { bench with cursor := some action.id } =
        if bench.collector.isPending action.id then _ else _
    cases bench.collector.isPending action.id with
    | true => rfl
    | false =>
      rw [if_neg Bool.false_ne_true, if_neg Bool.false_ne_true, run_run_bind, Work.run_onDatabase,
        Tx.run_read hdb]
      rfl

/-- An invalidated transaction finds no task. -/
theorem nextTaskWithin_of_refuses (n : Nat) {bench : Bench} (hdb : bench.database.refuses = true) :
    (nextTaskWithin settings (n + 1)).run.run bench = (.error .engine, bench) := by
  rw [nextTaskWithin, run_run_bind]
  show StateT.run (ExceptT.run (_ >>= _)) bench = _
  rw [run_run_bind, Work.run_onDatabase, Tx.run_readOr_of_refuses hdb fun fault hfault =>
    (Store.fault_of_nextOutstanding hfault).2]

theorem nextTaskWithin_spec (n : Nat) (bench : Bench) :
    ∃ result cursor, (nextTaskWithin settings n).run.run bench = (result, { bench with cursor }) ∧
      ∀ task, result = .ok (some task) → bench.database.refuses = false ∧
        task.Offered settings bench ∧ cursor = some task.action.id := by
  induction n generalizing bench with
  | zero => exact ⟨.ok none, bench.cursor, rfl, by simp⟩
  | succ n ih =>
    cases hdb : bench.database.refuses with
    | true =>
      rw [nextTaskWithin_of_refuses settings n hdb]
      exact ⟨.error .engine, bench.cursor, rfl, by simp⟩
    | false =>
      rw [nextTaskWithin_succ settings n hdb]
      rcases hnext : bench.database.store.nextOutstanding bench.cursor with fault | _ | action
      · exact ⟨.error fault, bench.cursor, rfl, by simp⟩
      · exact ⟨.ok none, bench.cursor, rfl, by simp⟩
      · dsimp only
        split
        · obtain ⟨result, cursor, hrun, htask⟩ := ih { bench with cursor := some action.id }
          refine ⟨result, cursor, hrun, fun task hresult => ?_⟩
          obtain ⟨-, ⟨houtstanding, hfree, hof⟩, hcursor⟩ := htask task hresult
          exact ⟨rfl, ⟨houtstanding, hfree, hof⟩, hcursor⟩
        · rename_i hpending
          have hfree : action.id ∉ bench.collector.inFlight := by
            simpa [Collector.isPending] using hpending
          refine ⟨_, _, rfl, fun task hresult => ?_⟩
          cases hresult
          exact ⟨rfl, ⟨Store.outstanding_of_next hnext, hfree, rfl⟩, rfl⟩

theorem run_nextTask (bench : Bench) :
    (nextTask settings).run.run bench =
      (nextTaskWithin settings (bench.database.store.actions.length + 1)).run.run bench := by
  rw [nextTask, run_run_bind]
  rfl

/-- The search for a task moves the cursor only, and what it finds is a task of the bench. -/
theorem nextTask_spec (bench : Bench) :
    ∃ result cursor, (nextTask settings).run.run bench = (result, { bench with cursor }) ∧
      ∀ task, result = .ok (some task) → bench.database.refuses = false ∧
        task.Offered settings bench ∧ cursor = some task.action.id := by
  rw [run_nextTask]
  exact nextTaskWithin_spec settings _ bench

end

/-! ## Dispatching a task -/

section

variable (settings : DispatchSettings) (task : Task) (bench : Bench)

theorem dispatch_link (hdb : bench.database.refuses = false) (hkind : task.action.kind = .link)
    (houtstanding : bench.database.store.Outstanding task.action.id) :
    (dispatch settings task).run.run bench =
      (.ok .linked,
        { bench with
          database := { bench.database with
            store := bench.database.store.moved (fun _ => .parsed) [task.action.id] }
          tally := bench.tally.record none .success }) := by
  have hany : (bench.database.store.actions.any fun row =>
      row.id = task.action.id && row.state = Store.createdWord) = true := by
    simpa [Store.Outstanding] using houtstanding
  dsimp only [dispatch]
  rw [if_pos hkind, run_run_bind, Work.run_setState (by decide) _ hdb, hany]
  rfl

theorem dispatch_skip (hdb : bench.database.refuses = false) (hkind : task.action.kind ≠ .link)
    (hsources : (task.pairs.any fun pair => pair.source.isNone) = true) :
    (dispatch settings task).run.run bench =
      (.ok .skipped,
        { bench with
          database := { bench.database with
            store := bench.database.store.moved (fun _ => .skipped) [task.action.id] }
          tally := bench.tally.record none .fail }) := by
  dsimp only [dispatch]
  rw [if_neg hkind, if_pos hsources, run_run_bind, Work.run_setState (by decide) _ hdb]
  rfl

theorem dispatch_parse (hkind : task.action.kind ≠ .link)
    (hsources : (task.pairs.any fun pair => pair.source.isNone) = false) :
    (dispatch settings task).run.run bench =
      match (task.results settings).run.run bench with
      | (.ok results, after) =>
        (.ok (.queued results.length),
          { after with
            collector := after.collector.queue { action := task.action.id, results } })
      | (.error fault, after) => (.error fault, after) := by
  dsimp only [dispatch]
  rw [if_neg hkind, if_neg (by simp [hsources]), Task.results]
  split
  · rw [run_run_bind]
    rcases (dispatchWhole settings task).run.run bench with ⟨_ | _, _⟩ <;> rfl
  · rw [run_run_bind]
    rcases (dispatchEach settings task).run.run bench with ⟨_ | _, _⟩ <;> rfl

end

/-! ## Steps -/

/-- A step with an action leaves these counts and units. -/
structure Bench.Leaves (action : Int) (tally : Tally) (collector : Collector) (after : Bench) :
    Prop where
  valid : after.database.refuses = false
  tally : after.tally = tally
  collector : after.collector = collector
  cursor : after.cursor = some action

/-- What a step with a task comes to: its result, and the bench afterwards. -/
inductive Task.Ends (settings : DispatchSettings) (task : Task) (bench : Bench) :
    Except Fault (Option (Nat × Dispatched)) → Bench → Prop where
  | linked {after : Bench} (hkind : task.action.kind = .link)
      (hstore : after.database.store =
        bench.database.store.moved (fun _ => .parsed) [task.action.id])
      (hleaves : after.Leaves task.action.id (bench.tally.record none .success) bench.collector)
      (hcalls : after.calls = bench.calls) :
      Ends settings task bench (.ok (some (task.pairs.length, .linked))) after
  | skipped {after : Bench} (hkind : task.action.kind ≠ .link)
      (hsources : (task.pairs.any fun pair => pair.source.isNone) = true)
      (hstore : after.database.store =
        bench.database.store.moved (fun _ => .skipped) [task.action.id])
      (hleaves : after.Leaves task.action.id (bench.tally.record none .fail) bench.collector)
      (hcalls : after.calls = bench.calls) :
      Ends settings task bench (.ok (some (task.pairs.length, .skipped))) after
  | queued {after : Bench} {results : List PendingResult} (hkind : task.action.kind ≠ .link)
      (hsources : (task.pairs.any fun pair => pair.source.isNone) = false)
      (hlength : settings.registry.Answers → results.length = task.resultCount)
      (hstore : Relation.ReflTransGen settings.registry.Acts bench.database.store
        after.database.store)
      (hleaves : after.Leaves task.action.id bench.tally
        (bench.collector.queue { action := task.action.id, results }))
      (hcalls : bench.CallsFor task.action.id after) :
      Ends settings task bench (.ok (some (task.pairs.length, .queued results.length))) after
  | failed {after : Bench} {fault : Fault} {recorded : Store}
      (hanswers : ¬settings.registry.Answers)
      (hrecorded : Relation.ReflTransGen settings.registry.Acts bench.database.store recorded)
      (hstore : after.database.store = recorded ∨
        after.database.store = recorded.restoredTo bench.database.store)
      (hleaves : after.Leaves task.action.id bench.tally bench.collector)
      (hcalls : bench.CallsFor task.action.id after) :
      Ends settings task bench (.error fault) after

/-- A step without a task leaves everything but the cursor. -/
structure Bench.Unmoved (before after : Bench) : Prop where
  store : after.database.store = before.database.store
  valid : before.database.refuses = false → after.database.refuses = false
  tally : after.tally = before.tally
  collector : after.collector = before.collector
  calls : after.calls = before.calls

/-- The bench on which a task is dispatched: in a scope, with the cursor at its action. -/
def Bench.taking (action : Int) (bench : Bench) : Bench :=
  { bench with database := bench.database.enter, cursor := some action }

section

variable {settings : DispatchSettings} {task : Task} {bench : Bench}

theorem passStep_of_dispatch {result : Except Fault Dispatched} {after : Bench}
    (hnext : (nextTask settings).run.run { bench with database := bench.database.enter } =
      (.ok (some task), bench.taking task.action.id))
    (hdispatch : (dispatch settings task).run.run (bench.taking task.action.id) =
      (result, after)) :
    (passStep settings).run.run bench =
      (result.map fun dispatched => some (task.pairs.length, dispatched),
        { after with database := after.database.leave result.isOk }) := by
  refine (@Work.run_transaction _ _ bench after
    (result.map fun dispatched => some (task.pairs.length, dispatched)) ?_).trans ?_
  · rw [run_run_bind, hnext]
    dsimp only
    rw [run_run_bind, hdispatch]
    cases result <;> rfl
  · cases result <;> rfl

/-- What is written while a task is dispatched stays when its scope is left. -/
theorem ready_leave_taking (hdb : bench.database.refuses = false) (action : Int) (store : Store) :
    (({ (bench.taking action).database with store } : Database).leave true).Ready store
      bench.database.depth := by
  have hready : (bench.taking action).database.Ready bench.database.store
      (bench.database.depth + 1) := Database.Ready.enter ⟨rfl, rfl, hdb⟩
  have hwritten : ({ (bench.taking action).database with store } : Database).Ready store
      (bench.database.depth + 1) := ⟨rfl, rfl, hready.valid⟩
  exact hwritten.leave

theorem passStep_of_task (hdb : bench.database.refuses = false)
    (hnext : (nextTask settings).run.run { bench with database := bench.database.enter } =
      (.ok (some task), bench.taking task.action.id))
    (houtstanding : bench.database.store.Outstanding task.action.id) :
    task.Ends settings bench ((passStep settings).run.run bench).1
      ((passStep settings).run.run bench).2 := by
  have hready : (bench.taking task.action.id).database.Ready bench.database.store
      (bench.database.depth + 1) := Database.Ready.enter ⟨rfl, rfl, hdb⟩
  have htaking := hready.valid
  by_cases hkind : task.action.kind = .link
  · rw [passStep_of_dispatch hnext
      (dispatch_link settings task (bench.taking _) htaking hkind houtstanding)]
    have hleft := ready_leave_taking hdb task.action.id
      (bench.database.store.moved (fun _ => .parsed) [task.action.id])
    exact .linked hkind hleft.store ⟨hleft.valid, rfl, rfl, rfl⟩ rfl
  cases hsources : task.pairs.any fun pair => pair.source.isNone with
  | true =>
    rw [passStep_of_dispatch hnext
      (dispatch_skip settings task (bench.taking _) htaking hkind hsources)]
    have hleft := ready_leave_taking hdb task.action.id
      (bench.database.store.moved (fun _ => .skipped) [task.action.id])
    exact .skipped hkind hsources hleft.store ⟨hleft.valid, rfl, rfl, rfl⟩ rfl
  | false =>
    have hdispatch := dispatch_parse settings task (bench.taking task.action.id) hkind hsources
    have hcalled := calls_results settings task (bench.taking task.action.id)
    have hgives := fun h =>
      @gives_results settings task h hsources (bench.taking task.action.id) htaking
    rcases hrun : (task.results settings).run.run (bench.taking task.action.id) with
      ⟨result, after⟩
    rw [hrun] at hdispatch hcalled hgives
    have hafter : after.database.Ready after.database.store (bench.database.depth + 1) :=
      ⟨rfl, by rw [hcalled.database]; rfl, hcalled.refuses.trans htaking⟩
    cases result with
    | error fault =>
      rw [passStep_of_dispatch hnext hdispatch]
      refine .failed (fun h => ?_) hcalled.store ?_ ⟨?_, hcalled.tally, hcalled.collector,
        hcalled.cursor⟩ hcalled.calls
      · obtain ⟨_, _, hok, -⟩ := hgives h
        cases hok
      · rw [hcalled.database]
        exact Database.store_leave_false _ _
      · rw [hcalled.database]
        exact Database.refuses_leave_enter hdb _ _
    | ok results =>
      rw [passStep_of_dispatch hnext hdispatch]
      refine .queued hkind hsources (fun h => ?_) ?_ ⟨hafter.leave.valid, hcalled.tally,
        congrArg (Collector.queue _) hcalled.collector, hcalled.cursor⟩ hcalled.calls
      · obtain ⟨_, _, hok, -, hlength⟩ := hgives h
        cases hok
        exact hlength
      · dsimp only [Except.isOk, Except.toBool]
        rw [hafter.leave.store]
        exact hcalled.store

theorem passStep_of_no_task {result : Except Fault (Option Task)} {cursor : Option Int}
    (hnext : (nextTask settings).run.run { bench with database := bench.database.enter } =
      (result, { bench with database := bench.database.enter, cursor }))
    (hnone : ∀ task, result ≠ .ok (some task)) :
    ((passStep settings).run.run bench).1 = result.map (fun _ => none) ∧
      bench.Unmoved ((passStep settings).run.run bench).2 := by
  have hrun : (passStep settings).run.run bench =
      (result.map fun _ => none,
        { bench with database := bench.database.enter.leave result.isOk, cursor }) := by
    refine (@Work.run_transaction _ _ bench
      { bench with database := bench.database.enter, cursor }
      (result.map fun _ => none) ?_).trans ?_
    · rw [run_run_bind, hnext]
      rcases result with _ | _ | task
      · rfl
      · rfl
      · exact absurd rfl (hnone task)
    · cases result <;> rfl
  rw [hrun]
  exact ⟨rfl, Database.store_leave_enter _ _, fun hdb => Database.refuses_leave_enter hdb _ _,
    rfl, rfl, rfl⟩

/-- What plugins record leaves the build graph. -/
theorem Registry.extends_acts {registry : Registry} {before after : Store}
    (h : Relation.ReflTransGen registry.Acts before after) : before.Extends after := by
  induction h with
  | refl => exact .refl before
  | tail _ hacts ih =>
    obtain ⟨effects, rfl⟩ := hacts.records
    exact ih.trans (.record effects _)

/-- No step with a task takes anything away from the build graph or adds to it. -/
theorem Task.Ends.extends {result : Except Fault (Option (Nat × Dispatched))} {after : Bench}
    (h : task.Ends settings bench result after) :
    ∃ state actions, state ≠ .created ∧
      (bench.database.store.moved (fun _ => state) actions).Extends after.database.store := by
  cases h with
  | linked _ hstore _ _ =>
    refine ⟨.parsed, [task.action.id], by decide, ?_⟩
    rw [hstore]
    exact .refl _
  | skipped _ _ hstore _ _ =>
    refine ⟨.skipped, [task.action.id], by decide, ?_⟩
    rw [hstore]
    exact .refl _
  | queued _ _ _ hstore _ _ =>
    refine ⟨.parsed, [], by decide, ?_⟩
    rw [Store.moved_nil]
    exact Registry.extends_acts hstore
  | failed _ hrecorded hstore _ _ =>
    refine ⟨.parsed, [], by decide, ?_⟩
    have hextends := Registry.extends_acts hrecorded
    rw [Store.moved_nil]
    rcases hstore with hstore | hstore
    · rw [hstore]
      exact hextends
    · rw [hstore]
      exact hextends.restoredTo

/-- What a step of a pass comes to: there was a task, or nothing was done. -/
theorem passStep_cases (settings : DispatchSettings) (bench : Bench) :
    (∃ task : Task, task.Offered settings bench ∧
      task.Ends settings bench ((passStep settings).run.run bench).1
        ((passStep settings).run.run bench).2) ∨
    ((∀ taken, ((passStep settings).run.run bench).1 ≠ .ok (some taken)) ∧
      bench.Unmoved ((passStep settings).run.run bench).2) := by
  obtain ⟨result, cursor, hnext, htask⟩ :=
    nextTask_spec settings { bench with database := bench.database.enter }
  by_cases hsome : ∃ task, result = .ok (some task)
  · obtain ⟨task, rfl⟩ := hsome
    obtain ⟨hdb, ⟨houtstanding, hfree, hof⟩, rfl⟩ := htask task rfl
    rw [Database.refuses_enter] at hdb
    exact .inl ⟨task, ⟨houtstanding, hfree, hof⟩, passStep_of_task hdb hnext houtstanding⟩
  · obtain ⟨hresult, hunmoved⟩ := passStep_of_no_task hnext fun task h => hsome ⟨task, h⟩
    refine .inr ⟨fun taken => ?_, hunmoved⟩
    rw [hresult]
    cases result <;> simp [Except.map]

/-- The step with the next outstanding action, if that is not in flight. -/
theorem passStep_of_next {action : BuildAction} (hdb : bench.database.refuses = false)
    (hnext : bench.database.store.nextOutstanding bench.cursor = .ok (some action))
    (hfree : action.id ∉ bench.collector.inFlight) :
    (Task.of settings bench.database.store action).Ends settings bench
      ((passStep settings).run.run bench).1 ((passStep settings).run.run bench).2 := by
  refine passStep_of_task hdb ?_ (Store.outstanding_of_next hnext)
  have hpending : bench.collector.isPending action.id = false := by
    simpa [Collector.isPending] using hfree
  rw [run_nextTask, nextTaskWithin_succ _ _ (by rw [Database.refuses_enter, hdb])]
  show (match bench.database.store.nextOutstanding bench.cursor with
    | .error fault => _
    | .ok none => _
    | .ok (some action) => if bench.collector.isPending action.id then _ else _) = _
  rw [hnext]
  dsimp only
  rw [hpending]
  rfl

/-- The step when no action is outstanding any more. -/
theorem passStep_of_none (hdb : bench.database.refuses = false)
    (hnext : bench.database.store.nextOutstanding bench.cursor = .ok none) :
    ((passStep settings).run.run bench).1 = .ok none ∧
      bench.Unmoved ((passStep settings).run.run bench).2 := by
  refine @passStep_of_no_task settings bench (.ok none) bench.cursor ?_ (by simp)
  rw [run_nextTask, nextTaskWithin_succ _ _ (by rw [Database.refuses_enter, hdb])]
  show (match bench.database.store.nextOutstanding bench.cursor with
    | .error fault => _
    | .ok none => _
    | .ok (some action) => _) = _
  rw [hnext]

end

end SymbolAtlas
