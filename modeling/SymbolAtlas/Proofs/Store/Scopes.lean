import SymbolAtlas.Proofs.Store.Database
import SymbolAtlas.Store.Actions

/-!
# Nested transactions

A program asks the tables and changes them, and opens scopes that may fail or crash. What follows a
call or a scope sees how it ended, so a program can go on or give up at every level, and what it
does may depend on all that it has read.

- **Programs** (`Tx.Program`, `Program.work`): all that can be put together from reads, writes and
  scopes, as work on a database.
- **The course of a program** (`Program.course`): what it does inside a transaction, told without a
  database: from the tables at the start, the changes that have been made since and whether a
  statement has failed (`Progress`), and the number of open scopes. No change is taken back on the
  way, and every read is answered with all changes made, until a statement fails.
- **Inside a scope** (`Program.run_work`) work follows this course, whatever fails on the way and
  whoever goes on after it, and ends with as many open scopes as it began with.
- **The outermost scope** (`outermost_keeps_iff`) keeps all of the changes or none of them. It says
  that it has kept them also when it has not: when a program goes on after a statement that failed,
  and succeeds (`absorbedStatement_lost`).
-/

namespace SymbolAtlas

namespace Store

/-- What a storage call does to the tables; one that fails leaves them. -/
def changedBy {β : Type} (change : Store → Except Fault (β × Store)) (store : Store) : Store :=
  match change store with
  | .ok (_, after) => after
  | .error _ => store

/-- The tables after changes, the first one first. -/
def afterAll (store : Store) (changes : List (Store → Store)) : Store :=
  changes.foldl (fun store change => change store) store

theorem afterAll_concat (store : Store) (changes : List (Store → Store))
    (change : Store → Store) :
    store.afterAll (changes ++ [change]) = change (store.afterAll changes) := by
  simp [afterAll]

end Store

namespace Tx

/-- Work whose fault is part of the answer. -/
def attempt {α : Type} (work : Tx α) : Tx (Except Fault α) := fun db =>
  let (result, db) := work.run.run db
  (.ok result, db)

/-- A program of storage calls and nested scopes. A crash is a fault of its own. -/
inductive Program : Type → Type 1 where
  /-- end with an answer or a fault -/
  | done {α : Type} (result : Except Fault α) : Program α
  /-- ask the tables; an invalidated transaction does not answer -/
  | read {α β : Type} (query : Store → β) (next : Except Fault β → Program α) : Program α
  /-- ask how many scopes are open -/
  | depth {α : Type} (next : Nat → Program α) : Program α
  /-- change the tables, or fail -/
  | write {α β : Type} (change : Store → Except Fault (β × Store))
      (next : Except Fault β → Program α) : Program α
  /-- open a scope, and see how it ends -/
  | scope {α β : Type} (body : Program β) (next : Except Fault β → Program α) : Program α

namespace Program

/-- A program as work on a database. -/
def work {α : Type} : Program α → Tx α
  | .done result => ExceptT.mk (pure result)
  | .read query next => do (next (← (Tx.read query).attempt)).work
  | .depth next => do (next (← get).depth).work
  | .write change next => do (next (← (Tx.writeOr change).attempt)).work
  | .scope body next => do (next (← (Tx.transaction body.work).attempt)).work

end Program

/-- What has become of a transaction: the changes made in it, and whether a statement has failed. -/
structure Progress where
  made : List (Store → Store)
  invalid : Bool

namespace Progress

/-- The tables of a transaction that began with the tables `start`. -/
def tables (start : Store) (progress : Progress) : Store := start.afterAll progress.made

/-- How a question is answered. -/
def read {β : Type} (start : Store) (query : Store → β) (progress : Progress) : Except Fault β :=
  if progress.invalid then .error .engine else .ok (query (progress.tables start))

/-- How a storage call ends. After a statement that failed, only what is checked before the first
statement of the call is still reported as it is. -/
def write {β : Type} (start : Store) (change : Store → Except Fault (β × Store))
    (progress : Progress) : Except Fault β × Progress :=
  match change (progress.tables start) with
  | .ok (answer, _) =>
    if progress.invalid then (.error .engine, progress)
    else (.ok answer, { progress with made := progress.made ++ [Store.changedBy change] })
  | .error fault =>
    (.error (if progress.invalid && !fault.isEarly then .engine else fault),
      { progress with invalid := progress.invalid || fault.isStatement })

end Progress

/-- What a program does in a transaction that began with the tables `start`, while `opened` scopes
are open and from what has become of it: the result, and what becomes of it in the end. -/
def Program.course {α : Type} (start : Store) :
    Program α → Nat → Progress → Except Fault α × Progress
  | .done result, _, progress => (result, progress)
  | .read query next, opened, progress =>
    (next (progress.read start query)).course start opened progress
  | .depth next, opened, progress => (next opened).course start opened progress
  | .write change next, opened, progress =>
    let (result, progress) := progress.write start change
    (next result).course start opened progress
  | .scope body next, opened, progress =>
    let (result, progress) := body.course start (opened + 1) progress
    (next result).course start opened progress

/-! ## Inside a scope -/

section

variable {α β : Type}

theorem run_attempt_bind (work : Tx α) (next : Except Fault α → Tx β) (db : Database) :
    (work.attempt >>= next).run.run db =
      (next (work.run.run db).1).run.run (work.run.run db).2 := by
  have hattempt : work.attempt.run.run db = (.ok (work.run.run db).1, (work.run.run db).2) := rfl
  rw [run_run_bind, hattempt]

end

/-- The database is in a transaction that began with the tables `start`, of which `progress` is what
has become. -/
structure Stands (start : Store) (progress : Progress) (db : Database) : Prop where
  isOpen : db.depth ≠ 0
  store : db.store = progress.tables start
  invalidated : db.invalidated = progress.invalid

namespace Stands

variable {start : Store} {progress : Progress} {db : Database} {β : Type}

theorem refuses (h : Stands start progress db) : db.refuses = progress.invalid := by
  rw [Database.refuses_of_open h.isOpen, h.invalidated]

theorem run_read (h : Stands start progress db) (query : Store → β) :
    (Tx.read query).run.run db = (progress.read start query, db) := by
  unfold Progress.read
  cases hinvalid : progress.invalid with
  | true => rw [run_read_of_refuses (by rw [h.refuses, hinvalid])]; rfl
  | false => rw [Tx.run_read (by rw [h.refuses, hinvalid]), h.store]; rfl

/-- A storage call ends as foreseen, and leaves the transaction so. -/
theorem run_writeOr (h : Stands start progress db) (change : Store → Except Fault (β × Store)) :
    (Tx.writeOr change).run.run db = ((progress.write start change).1,
      { db with
        store := (progress.write start change).2.tables start
        invalidated := (progress.write start change).2.invalid }) := by
  have hrefuses := h.refuses
  obtain ⟨made, invalid⟩ := progress
  obtain ⟨store, saved, depth, invalidated⟩ := db
  obtain ⟨-, rfl, hinvalidated⟩ := h
  dsimp only at hinvalidated
  subst hinvalidated
  cases invalidated with
  | true =>
    rw [run_writeOr_of_refuses hrefuses, Progress.write]
    dsimp only
    cases change (Progress.tables start ⟨made, true⟩) with
    | ok answer => rfl
    | error fault =>
      dsimp only [Bool.true_and, Bool.true_or]
      cases fault.isEarly <;> rfl
  | false =>
    cases hchange : change (Progress.tables start ⟨made, false⟩) with
    | ok answer =>
      obtain ⟨answer, after⟩ := answer
      have hafter : start.afterAll (made ++ [Store.changedBy change]) = after := by
        rw [Store.afterAll_concat]
        change Store.changedBy change (Progress.tables start ⟨made, false⟩) = after
        rw [Store.changedBy, hchange]
      rw [Tx.run_writeOr hrefuses hchange, Progress.write, hchange]
      simp [Progress.tables, hafter]
    | error fault =>
      rw [run_writeOr_error hrefuses hchange, Progress.write, hchange]
      cases hstatement : fault.isStatement <;> simp [hstatement, Progress.tables, Database.invalidate]

/-- After a scope is entered, the transaction stands as before. -/
theorem enter (h : Stands start progress db) : Stands start progress db.enter :=
  ⟨Nat.succ_ne_zero _, h.store, h.refuses⟩

end Stands

/-- Only the outermost scope undoes anything. -/
theorem leave_of_open {db : Database} (hopen : db.depth ≠ 0) (store : Store)
    (invalidated succeeded : Bool) :
    ({ db.enter with store, invalidated } : Database).leave succeeded =
      { db with store, invalidated } := by
  simp [Database.leave, Database.enter, hopen]

/-- Inside a scope, a program follows its course. -/
theorem Program.run_work {α : Type} {start : Store} (program : Program α) {db : Database}
    {progress : Progress} (hdb : Stands start progress db) :
    program.work.run.run db =
      ((program.course start db.depth progress).1,
        { db with
          store := (program.course start db.depth progress).2.tables start
          invalidated := (program.course start db.depth progress).2.invalid }) := by
  -- the induction follows the program; the progress grows with every write
  induction program generalizing db progress with
  | done result =>
    rw [course, ← hdb.store, ← hdb.invalidated]
    rfl
  | read query next ih =>
    rw [work, run_attempt_bind, hdb.run_read, course]
    exact ih _ hdb
  | depth next ih =>
    have hget : (get : Tx Database).run.run db = (.ok db, db) := rfl
    rw [work, run_run_bind, hget, course]
    exact ih _ hdb
  | write change next ih =>
    rw [work, run_attempt_bind, hdb.run_writeOr, course]
    exact ih _ ⟨hdb.isOpen, rfl, rfl⟩
  | scope body next ihBody ihNext =>
    rw [work, run_attempt_bind, run_transaction, ihBody hdb.enter]
    dsimp only
    rw [leave_of_open hdb.isOpen, course]
    exact ihNext _ ⟨hdb.isOpen, rfl, rfl⟩

/-- A scope ends with as many open scopes as it began with. -/
theorem Program.depth_run_work {α : Type} (program : Program α) (db : Database) :
    (program.work.run.run db.enter).2.depth = db.depth + 1 := by
  have hdb : Stands db.store ⟨[], db.enter.invalidated⟩ db.enter :=
    ⟨Nat.succ_ne_zero _, rfl, rfl⟩
  rw [program.run_work hdb]
  rfl

/-! ## The outermost scope -/

/-- What becomes of a program in an outermost scope. -/
def Program.outcome {α : Type} (program : Program α) (start : Store) :
    Except Fault α × Progress := program.course start 1 ⟨[], false⟩

theorem Program.run_outermost {α : Type} (program : Program α) {db : Database}
    (hdb : db.depth = 0) :
    (transaction program.work).run.run db = ((program.outcome db.store).1,
      Database.leave (program.outcome db.store).1.isOk
        ⟨(program.outcome db.store).2.tables db.store, db.store, 1,
          (program.outcome db.store).2.invalid⟩) := by
  have hentered := Database.enter_of_depth hdb
  have hstands : Stands db.store ⟨[], false⟩ db.enter := by
    rw [hentered]
    exact ⟨Nat.one_ne_zero, rfl, rfl⟩
  rw [run_transaction, program.run_work hstands, hentered]
  rfl

/-- An outermost scope that succeeds, and in which no statement failed, keeps all changes of its
program, in order and with those of inner scopes that failed or crashed while the program went on.
Any other leaves every table as it was before; only identities that were given out are gone. So a
scope that succeeds keeps what was written in it just when no statement in it failed, or all that
was written comes to nothing.

The program is answered as its course says: every read with all changes made before it, and every
question for the open scopes with their number. No scope is left without having been entered, each
one leaves as many open as there were before, and after an outermost one none is open, so that the
next one begins afresh. -/
theorem outermost_keeps_iff {α : Type} (program : Program α) {db : Database}
    (hdb : db.inTransaction = false) :
    ∃ after, (transaction program.work).run.run db = ((program.outcome db.store).1, after) ∧
      (∀ a, (program.outcome db.store).1 = .ok a → (program.outcome db.store).2.invalid = false →
        after.store = db.store.afterAll (program.outcome db.store).2.made) ∧
      ((∃ fault, (program.outcome db.store).1 = .error fault) ∨
          (program.outcome db.store).2.invalid = true →
        ∃ nextAction nextFile, after.store = { db.store with nextAction, nextFile }) ∧
      (∀ a, (program.outcome db.store).1 = .ok a →
        (after.store = db.store.afterAll (program.outcome db.store).2.made ↔
          ((program.outcome db.store).2.invalid = true → ∃ nextAction nextFile,
            db.store.afterAll (program.outcome db.store).2.made =
              { db.store with nextAction, nextFile }))) ∧
      after.inTransaction = false ∧ after.enter = ⟨after.store, after.store, 1, false⟩ ∧
      ∀ {β : Type} (inner : Program β) (now : Database),
        (inner.work.run.run now.enter).2.depth = now.depth + 1 ∧
        ((transaction inner.work).run.run now).2.depth = now.depth := by
  have hdepth : db.depth = 0 := by simpa [Database.inTransaction] using hdb
  refine ⟨_, program.run_outermost hdepth, ?_⟩
  generalize program.outcome db.store = outcome
  obtain ⟨result, made, invalid⟩ := outcome
  refine ⟨?_, ?_, ?_, ?_, ?_, fun inner now => ⟨?_, ?_⟩⟩
  · rintro a rfl rfl
    exact Database.store_leave_true rfl
  · rintro (⟨fault, rfl⟩ | rfl)
    · exact ⟨_, _, rfl⟩
    · exact ⟨_, _, if_pos (by simp)⟩
  · rintro a rfl
    cases invalid with
    | false => simp [Database.leave, Except.isOk, Except.toBool, Progress.tables]
    | true =>
      refine ⟨fun hkept _ => ⟨_, _, hkept.symm⟩, fun hall => ?_⟩
      obtain ⟨nextAction, nextFile, hmade⟩ := hall rfl
      simp [Database.leave, Store.restoredTo, Progress.tables, hmade]
  · simp [Database.leave, Database.inTransaction]
  · exact Database.enter_of_depth (by simp [Database.leave])
  · exact inner.depth_run_work now
  · rw [run_transaction]
    simp [Database.leave, inner.depth_run_work]

/-- A note is written. -/
def noting (key : String) (store : Store) : Except Fault (Unit × Store) :=
  .ok ((), store.setNote key none)

/-- A scope fails and one inside another one crashes; the program goes on after both, asks for the
notes it has made and for the open scopes, and ends as it is told. -/
def absorbing (ending : Except Fault (Nat × Nat) → Except Fault (Nat × Nat)) :
    Program (Nat × Nat) :=
  .write (noting "outer") fun _ =>
  .scope (.write (noting "failed") fun _ => .done (.error .engine : Except Fault Unit)) fun _ =>
  .scope (α := Nat × Nat) (β := Nat)
    (.scope (.write (noting "crashed") fun _ => .done (.error .crashed : Except Fault Unit)) fun _ =>
      .depth fun opened => .done (.ok opened)) fun opened =>
  .read (fun store => store.notes.length) fun notes =>
  .done (ending (notes.bind fun notes => opened.map fun opened => (notes, opened)))

theorem outermost_keeps_iff_absorbing :
    (Database.ofStore {}).inTransaction = false ∧
    (∃ after, (transaction (absorbing id).work).run.run (.ofStore {}) = (.ok (4, 2), after) ∧
      after.store.notes.map Note.key = ["schema_version", "outer", "failed", "crashed"]) ∧
    ∃ after, (transaction (absorbing fun _ => .error .engine).work).run.run (.ofStore {}) =
      (.error .engine, after) ∧ after.store.notes.map Note.key = ["schema_version"] := by
  have hdb : (Database.ofStore {}).inTransaction = false := rfl
  refine ⟨hdb, ?_, ?_⟩
  · obtain ⟨after, hrun, hkept, -⟩ := outermost_keeps_iff (absorbing id) hdb
    refine ⟨after, hrun, ?_⟩
    rw [hkept _ rfl rfl]
    decide
  · obtain ⟨after, hrun, -, hundone, -⟩ :=
      outermost_keeps_iff (absorbing fun _ => .error .engine) hdb
    obtain ⟨nextAction, nextFile, hstore⟩ := hundone (.inl ⟨_, rfl⟩)
    exact ⟨after, hrun, by rw [hstore]; rfl⟩

/-- A note is written, an inner scope fails since a source has an ordinal that is out of range, and
the program goes on and succeeds. -/
def absorbedStatement : Program Unit :=
  .write (noting "outer") fun _ =>
  .scope (.write (fun store => (store.addSource 1 1 3000000000).map fun store => ((), store))
    .done) fun _ =>
  .done (.ok ())

/-- The scope succeeds and the note is gone. -/
theorem absorbedStatement_lost :
    ((transaction absorbedStatement.work).run.run (.ofStore {})).1 = .ok () ∧
    (absorbedStatement.outcome Database.empty.store).2.made =
      [Store.changedBy (noting "outer")] ∧
    ((Database.ofStore {}).store.afterAll [Store.changedBy (noting "outer")]).notes.map Note.key =
      ["schema_version", "outer"] ∧
    ((transaction absorbedStatement.work).run.run (.ofStore {})).2.store.notes.map Note.key =
      ["schema_version"] := by
  refine ⟨by rfl, by rfl, by decide, by decide⟩

end Tx

end SymbolAtlas
