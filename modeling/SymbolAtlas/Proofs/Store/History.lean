import SymbolAtlas.Proofs.Store.Consistent
import SymbolAtlas.Proofs.Store.Scopes
import SymbolAtlas.Store.Call

/-!
# Histories of storage calls

Storage calls are grouped into transactions. A transaction that succeeds is told to be committed,
and is kept unless a statement in it failed.

- **Calls** (`StoreCall`, `StoreCall.perform`): every typed call that changes the tables, and any
  question. A call that succeeds lets the tables evolve (`StoreCall.evolves`).
- **Transactions** (`Transaction.work`): calls in one outermost scope, whichever of them fail, and
  how the scope ends (`Transaction.run_work`). Calls stand in a `TransactionStage`: a statement that
  fails invalidates the transaction, and the calls after it are refused.
- **Moves** (`MovedOnce`): among the calls of a log, no action was moved twice, and one that was
  moved is settled. A call keeps this (`MovedOnce.step`), and so does a whole transaction.
- **Histories** (`replay`): the tables after transactions, and two logs of calls with their answers,
  of those that were told to be committed and of those that were kept. `committed_history` says what
  holds of all of them, and when an action that was told to be moved can be moved again.
-/

namespace SymbolAtlas

/-! ## Calls -/

namespace StoreCall

variable {call : StoreCall} {store after : Store} {answer : StoreAnswer} {action : Int}
  {state : ActionState}

theorem perform_setState (hstate : state ≠ .created) (action : Int) (store : Store) :
    (setState action state).perform store =
      .ok (.moved (store.actions.any fun row => row.id = action && row.state = Store.createdWord),
        store.moved (fun _ => state) [action]) := by
  simp only [perform, Store.setState_eq hstate]
  rfl

/-- No action is moved back to its first state. -/
theorem perform_setState_created (action : Int) (store : Store) :
    (setState action .created).perform store = .error (.movedToCreated action) := rfl

theorem ne_created_of_perform (h : (setState action state).perform store = .ok (answer, after)) :
    state ≠ .created := by
  rintro rfl
  rw [perform_setState_created] at h
  cases h

theorem evolves (h : call.perform store = .ok (answer, after)) : store.Evolves after := by
  cases call with
  | insertAction kind label project =>
    cases h
    exact Store.evolves_insertAction kind label project store
  | addSource action file ordinal =>
    simp only [perform, Store.addSource] at h
    split at h
    · cases h
      exact Store.evolves_references store _ _ _ _ _
    · cases h
  | addTarget action file ordinal =>
    simp only [perform, Store.addTarget] at h
    split at h
    · cases h
      exact Store.evolves_references store _ _ _ _ _
    · cases h
  | setState action state =>
    rw [perform_setState (ne_created_of_perform h)] at h
    cases h
    exact Store.evolves_moved _ _ store
  | internFile path =>
    cases h
    exact Store.evolves_internFile path store
  | replaceSymbols | addSymbol | replaceIncludes | addInclude | replaceClusters =>
    cases h
    exact Store.evolves_references store _ _ _ _ _
  | clearStatistics category =>
    cases h
    exact Store.evolves_clearStatistics category store
  | putStatistic row =>
    cases h
    exact Store.evolves_putStatistic row store
  | addRepository path kind =>
    cases h
    exact Store.evolves_addRepository path kind store
  | setNote key value =>
    cases h
    exact Store.evolves_setNote key (some value) store
  | ask query =>
    simp only [perform] at h
    cases hquery : query store with
    | error fault =>
      rw [hquery] at h
      cases h
    | ok _ =>
      rw [hquery] at h
      cases h
      exact .refl store

end StoreCall

/-! ## Moves -/

/-- Calls with what they answered, or why they failed. -/
abbrev StoreLog := List (StoreCall × Except Fault StoreAnswer)

/-- The call moved the action. -/
def movesAction (action : Int) : StoreCall × Except Fault StoreAnswer → Bool
  | (.setState moved _, .ok (.moved true)) => moved = action
  | _ => false

/-- No action was moved twice, and one that was moved is settled. -/
def MovedOnce (log : StoreLog) (store : Store) : Prop :=
  ∀ action, log.countP (movesAction action) ≤ 1 ∧
    (log.countP (movesAction action) ≠ 0 →
      ∃ row ∈ store.actions, row.id = action ∧ row.state ≠ Store.createdWord)

namespace MovedOnce

variable {log : StoreLog} {store after : Store} {call : StoreCall} {answer : StoreAnswer}

theorem nil (store : Store) : MovedOnce [] store := fun action => by simp

/-- What is settled stays so. -/
theorem evolves (h : MovedOnce log store) (hevolves : store.Evolves after) :
    MovedOnce log after := by
  intro action
  refine ⟨(h action).1, fun hmoved => ?_⟩
  obtain ⟨row, hrow, hid, hsettled⟩ := (h action).2 hmoved
  exact ⟨row, hevolves.mem_of_settled hrow hsettled, hid, hsettled⟩

/-- A call that moves nothing is logged. -/
theorem concat_of_not_moves (h : MovedOnce log store)
    {entry : StoreCall × Except Fault StoreAnswer}
    (hentry : ∀ action, movesAction action entry = false) : MovedOnce (log ++ [entry]) store := by
  intro action
  have hcount : (log ++ [entry]).countP (movesAction action) = log.countP (movesAction action) := by
    simp [List.countP_append, hentry action]
  rw [hcount]
  exact h action

/-- An outstanding action is moved: it was not moved before. -/
theorem concat_setState (h : MovedOnce log store) (hsound : store.ActionsSound) {action : Int}
    {state : ActionState} (hstate : state ≠ .created) {row : ActionRow} (hrow : row ∈ store.actions)
    (hid : row.id = action) (hcreated : row.state = Store.createdWord) :
    MovedOnce (log ++ [(StoreCall.setState action state, .ok (.moved true))])
      (store.moved (fun _ => state) [action]) := by
  have hafter := h.evolves (Store.evolves_moved (fun _ => state) [action] store)
  intro other
  by_cases hother : action = other
  · subst hother
    have hzero : log.countP (movesAction action) = 0 := by
      by_contra hmoved
      obtain ⟨settled, hsettled, hid', hstate'⟩ := (h action).2 hmoved
      have hsame := hsound.eq_of_id hsettled hrow (hid'.trans hid.symm)
      rw [hsame] at hstate'
      exact hstate' hcreated
    have hcount : List.countP (movesAction action)
        (log ++ [(.setState action state, .ok (.moved true))]) = 1 := by
      simp [List.countP_append, hzero, movesAction]
    rw [hcount]
    refine ⟨Nat.le_refl _, fun _ => ⟨_, List.mem_map_of_mem hrow, ?_, ?_⟩⟩
    · rw [Store.id_movedRow, hid]
    · simp [Store.movedRow, hid, hcreated, Store.word_ne_createdWord hstate]
  · have hcount : List.countP (movesAction other)
        (log ++ [(.setState action state, .ok (.moved true))]) =
          log.countP (movesAction other) := by
      simp [List.countP_append, movesAction, hother]
    rw [hcount]
    exact hafter other

/-- Only a call that moves an action says so. -/
theorem movesAction_eq_false
    (h : ∀ action state, call = .setState action state → answer ≠ .moved true) (action : Int) :
    movesAction action (call, .ok answer) = false := by
  unfold movesAction
  split
  · rename_i moved state heq
    cases heq
    exact absurd rfl (h moved state rfl)
  · rfl

theorem step (h : MovedOnce log store) (hsound : store.ActionsSound)
    (hperform : call.perform store = .ok (answer, after)) :
    MovedOnce (log ++ [(call, .ok answer)]) after := by
  have hafter := h.evolves (StoreCall.evolves hperform)
  by_cases hmoves : ∃ action state, call = .setState action state ∧ answer = .moved true
  · obtain ⟨action, state, rfl, rfl⟩ := hmoves
    have hstate := StoreCall.ne_created_of_perform hperform
    rw [StoreCall.perform_setState hstate] at hperform
    simp only [Except.ok.injEq, Prod.mk.injEq, StoreAnswer.moved.injEq, List.any_eq_true,
      Bool.and_eq_true, decide_eq_true_eq] at hperform
    obtain ⟨⟨row, hrow, hid, hcreated⟩, rfl⟩ := hperform
    exact h.concat_setState hsound hstate hrow hid hcreated
  · refine hafter.concat_of_not_moves (movesAction_eq_false fun action state hcall hanswer => ?_)
    exact hmoves ⟨action, state, hcall, hanswer⟩

end MovedOnce

/-! ## Transactions -/

/-- Calls in one outermost scope, and why it is rolled back, if it is. -/
structure Transaction where
  calls : List StoreCall
  fault : Option Fault := none

/-- The tables inside a transaction, and whether a statement in it has failed. -/
structure TransactionStage where
  store : Store
  invalid : Bool := false

/-- What a call answers at a stage of a transaction, and the stage after it. After a statement that
failed, only what is checked before the first statement of the call is reported as it is. -/
def StoreCall.answer (call : StoreCall) (stage : TransactionStage) :
    Except Fault StoreAnswer × TransactionStage :=
  match call.perform stage.store with
  | .ok (answer, store) =>
    if stage.invalid then (.error call.refusal, stage) else (.ok answer, { stage with store })
  | .error fault =>
    let fault' := if stage.invalid && !fault.isEarly then .engine else fault
    (.error (if fault' = .engine then call.refusal else fault'),
      { stage with invalid := stage.invalid || fault.isStatement })

namespace Transaction

/-- A transaction as work on a database. A call that fails is seen by whoever made it, and does not
end the scope by itself. -/
def work (transaction : Transaction) : Tx StoreLog :=
  Tx.transaction do
    let log ← transaction.calls.mapM fun call => do return (call, ← call.work.attempt)
    match transaction.fault with
    | none => return log
    | some fault => throw fault

/-- What calls answer one after the other, and the stage after them. -/
def answerAll : List StoreCall → TransactionStage → StoreLog × TransactionStage
  | [], stage => ([], stage)
  | call :: rest, stage =>
    let (result, stage) := call.answer stage
    let (log, stage) := answerAll rest stage
    ((call, result) :: log, stage)

/-- What the calls of a transaction come to, if it begins with the tables. -/
def outcome (transaction : Transaction) (store : Store) : StoreLog × TransactionStage :=
  answerAll transaction.calls { store }

/-- The database inside a transaction is at a stage. -/
structure At (stage : TransactionStage) (db : Database) : Prop where
  isOpen : db.depth ≠ 0
  store : db.store = stage.store
  invalidated : db.invalidated = stage.invalid

theorem run_attempt_work (call : StoreCall) {stage : TransactionStage} {db : Database}
    (h : At stage db) :
    call.work.attempt.run.run db = (.ok (call.answer stage).1,
      { db with
        store := (call.answer stage).2.store
        invalidated := (call.answer stage).2.invalid }) := by
  have hrefuses : db.refuses = stage.invalid := by
    rw [Database.refuses_of_open h.isOpen, h.invalidated]
  have hattempt : call.work.attempt.run.run db =
      (.ok (call.work.run.run db).1, (call.work.run.run db).2) := rfl
  obtain ⟨store, invalid⟩ := stage
  obtain ⟨store, saved, depth, invalidated⟩ := db
  obtain ⟨-, rfl, rfl⟩ := h
  rw [hattempt, StoreCall.work, Tx.run_named, StoreCall.answer]
  dsimp only at hrefuses ⊢
  cases hperform : call.perform store with
  | ok answer =>
    cases invalidated with
    | true =>
      rw [Tx.run_writeOr_of_refuses hrefuses]
      simp [hperform, Except.mapError]
    | false =>
      rw [Tx.run_writeOr hrefuses hperform]
      rfl
  | error fault =>
    cases invalidated with
    | true =>
      rw [Tx.run_writeOr_of_refuses hrefuses]
      cases hearly : fault.isEarly <;> simp [hperform, hearly, Except.mapError]
    | false =>
      rw [Tx.run_writeOr_error hrefuses hperform]
      cases hstatement : fault.isStatement <;>
        simp [hstatement, Database.invalidate, Except.mapError]

theorem run_calls (calls : List StoreCall) {stage : TransactionStage} {db : Database}
    (h : At stage db) :
    ((calls.mapM fun call => do return (call, ← call.work.attempt) : Tx StoreLog)).run.run db =
      (.ok (answerAll calls stage).1,
        { db with
          store := (answerAll calls stage).2.store
          invalidated := (answerAll calls stage).2.invalid }) := by
  induction calls generalizing stage db with
  | nil =>
    rw [answerAll, ← h.store, ← h.invalidated]
    rfl
  | cons call rest ih =>
    rw [List.mapM_cons, run_run_bind, run_run_bind, run_attempt_work call h, answerAll]
    have hrest := @ih (call.answer stage).2
      { db with
        store := (call.answer stage).2.store
        invalidated := (call.answer stage).2.invalid } ⟨h.isOpen, rfl, rfl⟩
    show StateT.run (ExceptT.run (_ >>= _)) _ = _
    rw [run_run_bind, hrest]
    rfl

/-- A transaction that begins where none is open keeps what its calls did, if it succeeds and no
statement in it failed, and takes it back otherwise. -/
theorem run_work (transaction : Transaction) {db : Database} (hdb : db.depth = 0) :
    transaction.work.run.run db =
      ((match transaction.fault with
          | none => .ok (transaction.outcome db.store).1
          | some fault => .error fault),
        { store :=
            if transaction.fault.isSome || (transaction.outcome db.store).2.invalid then
              (transaction.outcome db.store).2.store.restoredTo db.store
            else (transaction.outcome db.store).2.store
          saved := db.store
          depth := 0
          invalidated := (transaction.outcome db.store).2.invalid }) := by
  have hentered := Database.enter_of_depth hdb
  have hat : At { store := db.store } db.enter := by
    rw [hentered]
    exact ⟨Nat.one_ne_zero, rfl, rfl⟩
  rw [work, Tx.run_transaction, run_run_bind, run_calls _ hat, hentered]
  cases transaction.fault with
  | none => rfl
  | some fault => rfl

end Transaction

/-- A call inside a transaction: it moves the tables on, or leaves them. -/
theorem StoreCall.answer_cases (call : StoreCall) (stage : TransactionStage) :
    (∃ answer store, call.perform stage.store = .ok (answer, store) ∧
      call.answer stage = (.ok answer, { stage with store })) ∨
    ∃ fault invalid, call.answer stage = (.error fault, { stage with invalid }) := by
  unfold StoreCall.answer
  cases call.perform stage.store with
  | ok answer =>
    dsimp only
    split
    · exact .inr ⟨_, stage.invalid, rfl⟩
    · exact .inl ⟨answer.1, answer.2, rfl, rfl⟩
  | error fault => exact .inr ⟨_, _, rfl⟩

/-- What calls do to consistent tables, and to a log that goes on. -/
theorem Transaction.answerAll_spec (calls : List StoreCall) {stage : TransactionStage}
    {log : StoreLog}
    (hconsistent : stage.store.Consistent) (hlog : MovedOnce log stage.store) :
    stage.store.Evolves (answerAll calls stage).2.store ∧
      MovedOnce (log ++ (answerAll calls stage).1) (answerAll calls stage).2.store := by
  induction calls generalizing stage log with
  | nil => exact ⟨.refl _, by simpa [answerAll] using hlog⟩
  | cons call rest ih =>
    simp only [answerAll]
    rcases call.answer_cases stage with
      ⟨answer, store, hperform, hanswer⟩ | ⟨fault, invalid, hanswer⟩
    · rw [hanswer]
      have hstep := StoreCall.evolves hperform
      obtain ⟨hevolves, hmoved⟩ := @ih { stage with store } _ (hstep.consistent hconsistent)
        (hlog.step hconsistent.actions hperform)
      exact ⟨hstep.trans hevolves, by simpa using hmoved⟩
    · rw [hanswer]
      have hlog' : MovedOnce (log ++ [(call, .error fault)]) stage.store :=
        hlog.concat_of_not_moves fun action => by simp [movesAction]
      obtain ⟨hevolves, hmoved⟩ := @ih { stage with invalid } _ hconsistent hlog'
      exact ⟨hevolves, by simpa using hmoved⟩

/-! ## Histories -/

/-- What transactions have come to. -/
structure Replayed where
  database : Database
  /-- the calls of transactions that are told to be committed -/
  told : StoreLog
  /-- the calls of those that are kept -/
  kept : StoreLog

/-- The database after transactions, and their logs. -/
def replay : List Transaction → Database → Replayed
  | [], db => ⟨db, [], []⟩
  | transaction :: rest, db =>
    let (result, db) := transaction.work.run.run db
    let replayed := replay rest db
    match result with
    | .ok log =>
      { replayed with
        told := log ++ replayed.told
        kept := if db.invalidated then replayed.kept else log ++ replayed.kept }
    | .error _ => replayed

theorem replay_append (first second : List Transaction) (db : Database) :
    replay (first ++ second) db =
      { database := (replay second (replay first db).database).database
        told := (replay first db).told ++ (replay second (replay first db).database).told
        kept := (replay first db).kept ++ (replay second (replay first db).database).kept } := by
  induction first generalizing db with
  | nil => rfl
  | cons transaction rest ih =>
    simp only [List.cons_append, replay]
    rcases transaction.work.run.run db with ⟨_ | log, db'⟩
    · exact ih db'
    · simp only [ih db', List.append_assoc]
      split
      · rfl
      · simp only [List.append_assoc]

/-- The log of a transaction that succeeds goes before those of the others, and is kept if no
statement in it failed. -/
theorem replay_cons (transaction : Transaction) (rest : List Transaction) {db : Database}
    (hdb : db.depth = 0) :
    replay (transaction :: rest) db =
      { database := (replay rest (transaction.work.run.run db).2).database
        told := (if transaction.fault.isSome then [] else (transaction.outcome db.store).1) ++
          (replay rest (transaction.work.run.run db).2).told
        kept := (if transaction.fault.isSome || (transaction.outcome db.store).2.invalid then []
            else (transaction.outcome db.store).1) ++
          (replay rest (transaction.work.run.run db).2).kept } := by
  rw [replay, transaction.run_work hdb]
  cases transaction.fault with
  | some fault => rfl
  | none => cases (transaction.outcome db.store).2.invalid <;> rfl

/-- What is known between two transactions. -/
structure Committed (db : Database) (log : StoreLog) : Prop where
  closed : db.depth = 0
  consistent : db.store.Consistent
  moved : MovedOnce log db.store

theorem committed_empty : Committed .empty [] where
  closed := rfl
  consistent := (Store.evolves_setNote _ _ {}).consistent Store.consistent_empty
  moved := .nil _

section

variable {db : Database} {log : StoreLog}

/-- What a transaction leads to, from committed tables on. -/
theorem Committed.step (h : Committed db log) (transaction : Transaction) :
    db.store.Evolves (transaction.work.run.run db).2.store ∧
    Committed (transaction.work.run.run db).2
      (log ++ if transaction.fault.isSome || (transaction.outcome db.store).2.invalid then []
        else (transaction.outcome db.store).1) := by
  obtain ⟨hevolves, hmoved⟩ :=
    @Transaction.answerAll_spec transaction.calls { store := db.store } log h.consistent h.moved
  rw [transaction.run_work h.closed]
  dsimp only
  split
  · have hback := hevolves.restoredTo
    rw [List.append_nil]
    exact ⟨hback, rfl, hback.consistent h.consistent, h.moved.evolves hback⟩
  · exact ⟨hevolves, rfl, hevolves.consistent h.consistent, hmoved⟩

/-- What transactions lead to, from committed tables on. -/
theorem Committed.replay (transactions : List Transaction) (h : Committed db log) :
    db.store.Evolves (replay transactions db).database.store ∧
      Committed (SymbolAtlas.replay transactions db).database
        (log ++ (SymbolAtlas.replay transactions db).kept) := by
  induction transactions generalizing db log with
  | nil => exact ⟨.refl _, by simpa [SymbolAtlas.replay] using h⟩
  | cons transaction rest ih =>
    obtain ⟨hevolves, hcommitted⟩ := h.step transaction
    obtain ⟨hrest, hlast⟩ := ih hcommitted
    rw [replay_cons transaction rest h.closed, ← List.append_assoc]
    exact ⟨hevolves.trans hrest, hlast⟩

/-- What is kept is told. -/
theorem kept_sublist_told (transactions : List Transaction) (db : Database) :
    (replay transactions db).kept.Sublist (replay transactions db).told := by
  induction transactions generalizing db with
  | nil => exact .refl _
  | cons transaction rest ih =>
    simp only [replay]
    rcases transaction.work.run.run db with ⟨_ | log, after⟩
    · exact ih after
    · dsimp only
      split
      · exact (ih after).trans (List.sublist_append_right _ _)
      · exact (List.Sublist.refl log).append (ih after)

end

/-! ## Actions that are not moved any more -/

/-- The action is not outstanding, and its identity is not given out again. -/
structure Store.Spent (action : Int) (store : Store) : Prop where
  given : action < store.nextAction
  settled : ∀ row ∈ store.actions, row.id = action → row.state ≠ createdWord

namespace Store.Spent

variable {action : Int} {store before after : Store} {db : Database} {log : StoreLog}

theorem evolves (h : Spent action before) (hevolves : before.Evolves after)
    (hconsistent : before.Consistent) : Spent action after where
  given := Int.lt_of_lt_of_le h.given hevolves.nextAction
  settled row hrow hid := by
    rcases hevolves.newActions row hrow with ⟨old, hold, hsame⟩ | hnew
    · have hsettled := h.settled old hold (hsame.trans hid)
      have hkept := hevolves.mem_of_settled hold hsettled
      have heq := (hevolves.consistent hconsistent).actions.eq_of_id hkept hrow hsame
      rwa [← heq]
    · have := h.given
      omega

/-- No call of a transaction moves such an action. -/
theorem countP_answerAll (calls : List StoreCall) {stage : TransactionStage}
    (h : Spent action stage.store)
    (hconsistent : stage.store.Consistent) :
    (Transaction.answerAll calls stage).1.countP (movesAction action) = 0 := by
  induction calls generalizing stage with
  | nil => rfl
  | cons call rest ih =>
    simp only [Transaction.answerAll, List.countP_cons]
    rcases call.answer_cases stage with
      ⟨answer, store, hperform, hanswer⟩ | ⟨fault, invalid, hanswer⟩
    · rw [hanswer]
      have hstep := StoreCall.evolves hperform
      have hrest := @ih { stage with store } (h.evolves hstep hconsistent)
        (hstep.consistent hconsistent)
      dsimp only at hrest ⊢
      rw [hrest, if_neg]
      intro hmoves
      -- a call that moves the action finds it outstanding
      by_cases hcall : ∃ moved state, call = .setState moved state ∧ answer = .moved true
      · obtain ⟨moved, state, rfl, rfl⟩ := hcall
        obtain rfl : moved = action := by simpa [movesAction] using hmoves
        rw [StoreCall.perform_setState (StoreCall.ne_created_of_perform hperform)] at hperform
        simp only [Except.ok.injEq, Prod.mk.injEq, StoreAnswer.moved.injEq, List.any_eq_true,
          Bool.and_eq_true, decide_eq_true_eq] at hperform
        obtain ⟨⟨row, hrow, hid, hcreated⟩, -⟩ := hperform
        exact h.settled row hrow hid hcreated
      · rw [MovedOnce.movesAction_eq_false (fun moved state hmoved htrue =>
          hcall ⟨moved, state, hmoved, htrue⟩)] at hmoves
        cases hmoves
    · rw [hanswer]
      have hrest := @ih { stage with invalid } h hconsistent
      dsimp only at hrest ⊢
      rw [hrest]
      simp [movesAction]

/-- No transaction is told to have moved such an action. -/
theorem countP_told (transactions : List Transaction) (h : Spent action db.store)
    (hdb : Committed db log) : (replay transactions db).told.countP (movesAction action) = 0 := by
  induction transactions generalizing db log with
  | nil => rfl
  | cons transaction rest ih =>
    obtain ⟨hevolves, hcommitted⟩ := hdb.step transaction
    have hrest := ih (h.evolves hevolves hdb.consistent) hcommitted
    have hnone := @countP_answerAll action transaction.calls { store := db.store } h hdb.consistent
    rw [replay_cons transaction rest hdb.closed, List.countP_append, hrest]
    split
    · rfl
    · exact hnone

end Store.Spent

section

variable {db : Database} {log : StoreLog} {transaction : Transaction} {action : Int}

/-- An action that a transaction moved is spent at its end. -/
theorem Transaction.spent_of_moved (hdb : Committed db log)
    (hmoved : (transaction.outcome db.store).1.countP (movesAction action) ≠ 0) :
    (transaction.outcome db.store).2.store.Spent action ∧
      (transaction.outcome db.store).1.countP (movesAction action) = 1 := by
  obtain ⟨hevolves, honce⟩ :=
    @answerAll_spec transaction.calls { store := db.store } [] hdb.consistent (.nil _)
  have hconsistent := hevolves.consistent hdb.consistent
  obtain ⟨hle, hsettled⟩ := honce action
  rw [List.nil_append] at hle hsettled
  obtain ⟨row, hrow, hid, hstate⟩ := hsettled hmoved
  refine ⟨⟨hid ▸ hconsistent.actions.given row hrow, fun other hother hsame => ?_⟩, ?_⟩
  · rw [hconsistent.actions.eq_of_id hother hrow (hsame.trans hid.symm)]
    exact hstate
  · exact Nat.le_antisymm hle (Nat.pos_of_ne_zero hmoved)

/-- A transaction that succeeds has told of a move for the last time just when it is kept, or when
it was the one to record the action. -/
theorem Transaction.told_last_iff (hdb : Committed db log) (hok : transaction.fault = none)
    (hmoved : (transaction.outcome db.store).1.countP (movesAction action) ≠ 0) :
    (∀ later, (replay later (transaction.work.run.run db).2).told.countP (movesAction action) = 0) ↔
      (transaction.outcome db.store).2.invalid = false ∨
        ∀ row ∈ db.store.actions, row.id ≠ action := by
  obtain ⟨-, hcommitted⟩ := hdb.step transaction
  obtain ⟨hspent, -⟩ := spent_of_moved hdb hmoved
  have hrun := transaction.run_work hdb.closed
  rw [hok] at hrun
  constructor
  · intro hlast
    by_contra hnot
    obtain ⟨hinvalid, hrow⟩ := not_or.mp hnot
    rw [Bool.not_eq_false] at hinvalid
    push Not at hrow
    obtain ⟨row, hrow, rfl⟩ := hrow
    -- the action was outstanding before, and is so again
    have hcreated : row.state = Store.createdWord := by
      by_contra hsettled
      refine hmoved (Store.Spent.countP_answerAll transaction.calls
        ⟨hdb.consistent.actions.given row hrow, fun other hother hid => ?_⟩ hdb.consistent)
      rwa [hdb.consistent.actions.eq_of_id hother hrow hid]
    have hagain := hlast [⟨[.setState row.id .parsed], none⟩]
    have hback : (transaction.work.run.run db).2.store.actions = db.store.actions := by
      rw [hrun]
      simp [hinvalid, Store.restoredTo]
    have hany : ((transaction.work.run.run db).2.store.actions.any fun other =>
        other.id = row.id && other.state = Store.createdWord) = true :=
      List.any_eq_true.mpr ⟨row, hback ▸ hrow, by simp [hcreated]⟩
    rw [replay_cons _ _ hcommitted.closed] at hagain
    simp only [outcome, answerAll, StoreCall.answer, StoreCall.perform_setState
      (show ActionState.parsed ≠ .created by decide), hany] at hagain
    simp [movesAction] at hagain
  · rintro (hvalid | hnew) later
    · refine Store.Spent.countP_told later ?_ hcommitted
      rw [hrun]
      simpa [hvalid] using hspent
    · refine Store.Spent.countP_told later ?_ hcommitted
      rw [hrun]
      dsimp only
      split
      · exact ⟨hspent.given, fun row hrow hid => absurd hid (hnew row hrow)⟩
      · exact hspent

end

/-- Whatever transactions there were, kept or not, and whatever follows them.

The tables are consistent. A row of an action that is parsed or skipped stays as it is, and a row
that is new since has a larger identity than all rows that were there. A path that has a row is
given that row, and the tables do not change. To ask for a move to the first state is an error that
changes nothing.

Of all calls in transactions that were kept, at most one has moved a given action. A transaction
that succeeds tells that its calls are committed, and what it tells is not always kept: that it has
moved an action is told for the last time just when no statement in it has failed, or when the
action was not recorded before it. -/
theorem committed_history (first second : List Transaction) :
    (replay (first ++ second) .empty).database.store.Consistent ∧
    (∀ row ∈ (replay first .empty).database.store.actions, row.state ≠ Store.createdWord →
      row ∈ (replay (first ++ second) .empty).database.store.actions) ∧
    (∀ row ∈ (replay (first ++ second) .empty).database.store.actions,
      (∃ old ∈ (replay first .empty).database.store.actions, old.id = row.id) ∨
        ∀ old ∈ (replay first .empty).database.store.actions, old.id < row.id) ∧
    (∀ file ∈ (replay (first ++ second) .empty).database.store.files,
      file ∈ (replay first .empty).database.store.files ∨
        ∀ old ∈ (replay first .empty).database.store.files, old.id < file.id) ∧
    (∀ path file, (replay (first ++ second) .empty).database.store.fileAt? path = some file →
      (replay (first ++ second) .empty).database.store.internFile path =
        (file, (replay (first ++ second) .empty).database.store)) ∧
    (∀ action db, (StoreCall.setState action .created).work.run.run db =
      (.error (.movedToCreated action), db)) ∧
    (replay first .empty).kept.Sublist (replay first .empty).told ∧
    (∀ action, (replay first .empty).kept.countP (movesAction action) ≤ 1) ∧
    ∀ (transaction : Transaction) (action : Int), transaction.fault = none →
      (transaction.outcome (replay first .empty).database.store).1.countP
        (movesAction action) ≠ 0 →
      (transaction.outcome (replay first .empty).database.store).1.countP
        (movesAction action) = 1 ∧
      ((∀ later, (replay later
          (transaction.work.run.run (replay first .empty).database).2).told.countP
            (movesAction action) = 0) ↔
        (transaction.outcome (replay first .empty).database.store).2.invalid = false ∨
          ∀ row ∈ (replay first .empty).database.store.actions, row.id ≠ action) := by
  obtain ⟨-, hbefore⟩ := committed_empty.replay first
  obtain ⟨hevolves, hafter⟩ := hbefore.replay second
  rw [replay_append]
  refine ⟨hafter.consistent, fun row hrow hsettled => hevolves.mem_of_settled hrow hsettled,
    fun row hrow => ?_, fun file hfile => ?_, fun path file hfile => ?_, fun action db => ?_,
    kept_sublist_told first _, fun action => ?_, fun transaction action hok hmoved => ?_⟩
  · refine (hevolves.newActions row hrow).imp_right fun hnew old hold => ?_
    have hgiven := hbefore.consistent.actions.given old hold
    omega
  · refine (hevolves.newFiles file hfile).imp_right fun hnew old hold => ?_
    have hgiven := hbefore.consistent.files.given old hold
    omega
  · exact Store.internFile_of_fileAt? hfile
  · rw [StoreCall.work, Tx.run_named]
    cases hdb : db.refuses with
    | true => rw [Tx.run_writeOr_of_refuses hdb]; rfl
    | false =>
      rw [Tx.run_writeOr_error hdb (StoreCall.perform_setState_created action db.store)]
      rfl
  · simpa using (hbefore.moved action).1
  · exact ⟨(Transaction.spent_of_moved hbefore hmoved).2,
      Transaction.told_last_iff hbefore hok hmoved⟩

/-- An action is recorded. -/
def recording : Transaction := { calls := [.insertAction .compile "l" "p"] }

/-- The action is moved, and then a statement fails since an ordinal is out of range. -/
def losing : Transaction := { calls := [.setState 1 .parsed, .addSource 1 1 3000000000] }

theorem committed_history_losing :
    losing.fault = none ∧
    (losing.outcome (replay [recording] .empty).database.store).1.countP (movesAction 1) = 1 ∧
    ¬∀ later, (replay later
      (losing.work.run.run (replay [recording] .empty).database).2).told.countP
        (movesAction 1) = 0 := by
  obtain ⟨-, -, -, -, -, -, -, -, htold⟩ := committed_history [recording] []
  obtain ⟨honce, hlast⟩ := htold losing 1 rfl (by decide +kernel)
  refine ⟨rfl, honce, fun hnever => ?_⟩
  rcases hlast.mp hnever with hvalid | hnew
  · exact absurd hvalid (by decide +kernel)
  · exact absurd hnew (by decide +kernel)

/-- Twice it is told that the action was moved, by transactions that both succeed. -/
theorem losing_told_twice :
    (losing.work.run.run (replay [recording] .empty).database).1.isOk = true ∧
    (replay [recording, losing, { calls := [.setState 1 .parsed] }] .empty).told.countP
      (movesAction 1) = 2 := by
  decide +kernel

end SymbolAtlas
