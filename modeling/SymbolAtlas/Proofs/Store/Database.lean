import SymbolAtlas.Store.Database

/-!
# Running work on a database

What work does when it is run, one equation for every way to put it together. Work that fails keeps
what it did before (`run_run_bind`); only the end of a scope undoes anything (`Tx.run_transaction`).
The equations of the statements are about a database that takes them; so is `Tx.Yields`, which
describes work that succeeds by its answer and the tables it leaves.
-/

namespace SymbolAtlas

variable {σ α β : Type}

theorem run_run_bind (work : ExceptT Fault (StateM σ) α) (next : α → ExceptT Fault (StateM σ) β)
    (s : σ) :
    (work >>= next).run.run s =
      match work.run.run s with
      | (.ok a, s') => (next a).run.run s'
      | (.error fault, s') => (.error fault, s') := by
  simp only [ExceptT.run_bind, StateT.run_bind]
  rcases work.run.run s with ⟨_ | _, _⟩
  · rfl
  · rfl

namespace Database

variable {db : Database} {store : Store}

theorem refuses_of_depth (hdb : db.depth = 0) : db.refuses = false := by
  simp [refuses, inTransaction, hdb]

/-- Inside a scope, the database takes statements just when no statement has failed. -/
theorem refuses_of_open (hdb : db.depth ≠ 0) : db.refuses = db.invalidated := by
  simp [refuses, inTransaction, hdb]

/-- To enter a scope changes nothing about whether statements are taken. -/
@[simp] theorem refuses_enter (db : Database) : db.enter.refuses = db.refuses := by
  rw [refuses_of_open (Nat.succ_ne_zero _)]
  rfl

theorem enter_of_depth (hdb : db.depth = 0) : db.enter = ⟨db.store, db.store, 1, false⟩ := by
  simp [enter, hdb, refuses_of_depth hdb]

/-- A scope that succeeds keeps the tables, if no statement has failed. -/
theorem store_leave_true (hdb : db.invalidated = false) : (db.leave true).store = db.store := by
  simp [leave, hdb]

/-- A scope in which the tables were not changed leaves them as they were, however it ends. -/
theorem store_leave_enter (db : Database) (succeeded : Bool) :
    (db.enter.leave succeeded).store = db.store := by
  unfold leave enter
  by_cases hdepth : db.depth = 0
  · cases succeeded <;> simp [hdepth, Store.restoredTo]
  · rw [if_neg]
    simp [hdepth]

/-- A scope that fails keeps what was done in it, or takes it back if it is the outermost one. -/
theorem store_leave_false (db : Database) (store : Store) :
    (({ db.enter with store } : Database).leave false).store = store ∨
      (({ db.enter with store } : Database).leave false).store = store.restoredTo db.store := by
  unfold leave enter
  by_cases hdepth : db.depth = 0
  · exact .inr (by simp [hdepth])
  · exact .inl (if_neg (by simp [hdepth]))

/-- A scope in which no statement failed leaves a database that takes statements. -/
theorem refuses_leave_enter (hdb : db.refuses = false) (store : Store) (succeeded : Bool) :
    (({ db.enter with store } : Database).leave succeeded).refuses = false := by
  have hinvalidated : (({ db.enter with store } : Database).leave succeeded).invalidated = false :=
    hdb
  rw [refuses, hinvalidated, Bool.and_false]

/-- The database takes statements, and has these tables and so many open scopes. -/
structure Ready (store : Store) (depth : Nat) (db : Database) : Prop where
  store : db.store = store
  depth : db.depth = depth
  valid : db.refuses = false

namespace Ready

variable {depth : Nat}

theorem ofDepth (hdb : db.depth = 0) : db.Ready db.store 0 := ⟨rfl, hdb, refuses_of_depth hdb⟩

theorem enter (h : db.Ready store depth) : db.enter.Ready store (depth + 1) :=
  ⟨h.store, congrArg (· + 1) h.depth, by rw [refuses_enter, h.valid]⟩

theorem leave (h : db.Ready store (depth + 1)) : (db.leave true).Ready store depth := by
  have hvalid : db.invalidated = false := by
    rw [← refuses_of_open (by rw [h.depth]; exact Nat.succ_ne_zero _), h.valid]
  refine ⟨(store_leave_true hvalid).trans h.store, ?_, ?_⟩
  · simp [Database.leave, h.depth]
  · simp [refuses, Database.leave, hvalid]

end Ready

end Database

namespace Tx

variable {db : Database}

theorem run_ensureValid (db : Database) :
    ensureValid.run.run db = (if db.refuses then .error .engine else .ok (), db) := by
  have hget : (get : Tx Database).run.run db = (.ok db, db) := rfl
  unfold ensureValid
  rw [run_run_bind, hget]
  dsimp only
  cases db.refuses <;> rfl

theorem run_read (hdb : db.refuses = false) (query : Store → α) :
    (read query).run.run db = (.ok (query db.store), db) := by
  unfold read
  rw [run_run_bind, run_ensureValid, hdb]
  rfl

/-- An invalidated transaction answers no question. -/
theorem run_read_of_refuses (hdb : db.refuses = true) (query : Store → α) :
    (read query).run.run db = (.error .engine, db) := by
  unfold read
  rw [run_run_bind, run_ensureValid, hdb]
  rfl

theorem run_update (hdb : db.refuses = false) (change : Store → α × Store) :
    (update change).run.run db =
      (.ok (change db.store).1, { db with store := (change db.store).2 }) := by
  unfold update
  rw [run_run_bind, run_ensureValid, hdb]
  rfl

theorem run_write (hdb : db.refuses = false) (change : Store → Store) :
    (write change).run.run db = (.ok (), { db with store := change db.store }) :=
  run_update hdb fun store => ((), change store)

theorem run_update_of_refuses (hdb : db.refuses = true) (change : Store → α × Store) :
    (update change).run.run db = (.error .engine, db) := by
  unfold update
  rw [run_run_bind, run_ensureValid, hdb]
  rfl

theorem run_write_of_refuses (hdb : db.refuses = true) (change : Store → Store) :
    (write change).run.run db = (.error .engine, db) := run_update_of_refuses hdb _

theorem run_writeOr {change : Store → Except Fault (α × Store)} {a : α} {store : Store}
    (hdb : db.refuses = false) (h : change db.store = .ok (a, store)) :
    (writeOr change).run.run db = (.ok a, { db with store }) := by
  have hget : (get : Tx Database).run.run db = (.ok db, db) := rfl
  unfold writeOr
  rw [run_run_bind, hget]
  dsimp only
  rw [h, run_run_bind, run_ensureValid, hdb]
  rfl

/-- A call that fails leaves the tables. A statement that fails invalidates the transaction. -/
theorem run_writeOr_error {change : Store → Except Fault (α × Store)} {fault : Fault}
    (hdb : db.refuses = false) (h : change db.store = .error fault) :
    (writeOr change).run.run db =
      (.error fault, if fault.isStatement then db.invalidate else db) := by
  have hget : (get : Tx Database).run.run db = (.ok db, db) := rfl
  unfold writeOr
  rw [run_run_bind, hget]
  dsimp only
  rw [h]
  dsimp only
  have hvalid : ensureValid.run.run db = (.ok (), db) := by rw [run_ensureValid, hdb]; rfl
  cases fault.isEarly <;> cases fault.isStatement <;>
    simp only [Bool.not_false, Bool.not_true, Bool.false_eq_true, ↓reduceIte, run_run_bind,
      hvalid] <;> rfl

/-- An invalidated transaction refuses a call, unless something is wrong before its first
statement. -/
theorem run_writeOr_of_refuses (hdb : db.refuses = true)
    (change : Store → Except Fault (α × Store)) :
    (writeOr change).run.run db =
      (.error (match change db.store with
        | .ok _ => .engine
        | .error fault => if fault.isEarly then fault else .engine), db) := by
  have hget : (get : Tx Database).run.run db = (.ok db, db) := rfl
  have hrefused : ensureValid.run.run db = (.error .engine, db) := by rw [run_ensureValid, hdb]; rfl
  have hinvalidate : db.invalidate = db := by
    have hinvalidated : db.invalidated = true := by simp_all [Database.refuses]
    rw [Database.invalidate, ← hinvalidated]
  unfold writeOr
  rw [run_run_bind, hget]
  dsimp only
  cases change db.store with
  | ok answer => simp only [run_run_bind, hrefused]
  | error fault =>
    dsimp only
    cases fault.isEarly with
    | false => simp only [Bool.not_false, ↓reduceIte, run_run_bind, hrefused, Bool.false_eq_true]
    | true =>
      cases fault.isStatement with
      | false => rfl
      | true => exact Prod.ext rfl hinvalidate

/-- A question whose faults are found in the rows leaves the database. -/
theorem run_readOr (hdb : db.refuses = false) {query : Store → Except Fault α}
    (hquery : ∀ fault, query db.store = .error fault → fault.isStatement = false) :
    (readOr query).run.run db = (query db.store, db) := by
  unfold readOr
  cases hanswer : query db.store with
  | ok a => rw [run_writeOr hdb (by rw [hanswer]; rfl)]
  | error fault =>
    rw [run_writeOr_error hdb (by rw [hanswer]; rfl), hquery fault hanswer]
    rfl

theorem run_readOr_of_refuses (hdb : db.refuses = true) {query : Store → Except Fault α}
    (hquery : ∀ fault, query db.store = .error fault → fault.isEarly = false) :
    (readOr query).run.run db = (.error .engine, db) := by
  unfold readOr
  rw [run_writeOr_of_refuses hdb]
  cases hanswer : query db.store with
  | ok a => rfl
  | error fault => simp only [Except.map, hquery fault hanswer, Bool.false_eq_true, if_false]

/-- What is said of a refused statement. -/
theorem run_named (fault : Fault) (work : Tx α) (db : Database) :
    (work.named fault).run.run db =
      ((work.run.run db).1.mapError fun found => if found = .engine then fault else found,
        (work.run.run db).2) := by
  unfold named
  change StateT.run (ExceptT.run (ExceptT.tryCatch work _)) db = _
  simp only [ExceptT.run, ExceptT.tryCatch, ExceptT.mk, StateT.run_bind]
  rcases StateT.run work db with ⟨found | a, after⟩
  · cases found <;> rfl
  · rfl

theorem run_transaction (work : Tx α) (db : Database) :
    (transaction work).run.run db =
      ((work.run.run db.enter).1,
        (work.run.run db.enter).2.leave (work.run.run db.enter).1.isOk) := rfl

/-! ## Work that succeeds -/

variable {a : α} {b : β} {store between after : Store}

/-- On these tables the work succeeds with an answer, and leaves the tables so. -/
def Yields (work : Tx α) (before : Store) (a : α) (after : Store) : Prop :=
  ∀ ⦃db : Database⦄ ⦃depth : Nat⦄, db.Ready before depth →
    ∃ db', work.run.run db = (.ok a, db') ∧ db'.Ready after depth

/-- Work that yields an answer does so on any database that takes statements. -/
theorem Yields.run {work : Tx α} (h : Yields work db.store a after) (hdb : db.refuses = false) :
    ∃ db', work.run.run db = (.ok a, db') ∧ db'.Ready after db.depth := h ⟨rfl, rfl, hdb⟩

theorem Yields.pure (a : α) (store : Store) : Yields (pure a) store a store :=
  fun _ _ hdb => ⟨_, rfl, hdb⟩

theorem Yields.bind {work : Tx α} {next : α → Tx β} (h : Yields work store a between)
    (hnext : Yields (next a) between b after) : Yields (work >>= next) store b after := by
  intro db depth hdb
  obtain ⟨db', hrun, hdb'⟩ := h hdb
  obtain ⟨db'', hrun', hdb''⟩ := hnext hdb'
  exact ⟨db'', by rw [run_run_bind, hrun]; exact hrun', hdb''⟩

theorem Yields.read (query : Store → α) (store : Store) :
    Yields (read query) store (query store) store := by
  rintro db depth ⟨rfl, rfl, hvalid⟩
  exact ⟨_, run_read hvalid query, rfl, rfl, hvalid⟩

theorem Yields.update (change : Store → α × Store) (store : Store) :
    Yields (update change) store (change store).1 (change store).2 := by
  rintro db depth ⟨rfl, rfl, hvalid⟩
  exact ⟨_, run_update hvalid change, rfl, rfl, hvalid⟩

theorem Yields.write (change : Store → Store) (store : Store) :
    Yields (write change) store () (change store) :=
  Yields.update (fun store => ((), change store)) store

theorem Yields.transaction {work : Tx α} (h : Yields work store a after) :
    Yields (transaction work) store a after := by
  intro db depth hdb
  obtain ⟨db', hrun, hdb'⟩ := h hdb.enter
  exact ⟨db'.leave true, by rw [run_transaction, hrun]; rfl, hdb'.leave⟩

end Tx

end SymbolAtlas
