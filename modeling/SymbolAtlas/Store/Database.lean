import SymbolAtlas.Store.Statistics

/-!
# Transactions

All calls to the store run in transactions. A transaction that is begun inside another one joins
it: only the outermost decides. When that one succeeds, the tables stay as they are; when it fails
or crashes, they are as they were before it. Identities that were given out meanwhile are not given
out again.

A statement that fails invalidates the open transaction. What follows in it is refused, and its
outermost scope takes everything back, although it does not say so when it succeeds.

* `Database`: the tables, those at the start of the outermost transaction, how many scopes are
  open, and whether the transaction is invalidated.
* `Database.enter`, `Database.leave`: the two ends of a scope.
* `Tx`: work on a database that may fail; what it did before it failed stays done until a scope
  decides.
* `transaction`: work in a scope of its own.
-/

namespace SymbolAtlas

/-- A store with its open transaction. -/
structure Database where
  /-- the tables as they are now -/
  store : Store
  /-- the tables as they were when the outermost scope was entered -/
  saved : Store
  /-- the number of open scopes -/
  depth : Nat
  /-- a statement failed in the transaction that is open, or was the last one to be -/
  invalidated : Bool
  deriving Repr, Inhabited

/-- The tables of `saved`, with the identities that are next in `store`. -/
def Store.restoredTo (store saved : Store) : Store :=
  { saved with nextAction := store.nextAction, nextFile := store.nextFile }

namespace Database

/-- A database on a store. -/
def ofStore (store : Store) : Database := ⟨store.opened, store.opened, 0, false⟩

/-- A new database. -/
def empty : Database := ofStore {}

/-- A scope is open. -/
def inTransaction (db : Database) : Bool := db.depth ≠ 0

/-- The open transaction is invalidated and takes no statements. -/
def refuses (db : Database) : Bool := db.inTransaction && db.invalidated

/-- A statement failed. -/
def invalidate (db : Database) : Database := { db with invalidated := true }

/-- Enter a scope; the outermost one begins afresh. -/
def enter (db : Database) : Database :=
  { db with
    saved := if db.depth = 0 then db.store else db.saved
    depth := db.depth + 1
    invalidated := db.refuses }

/-- Leave a scope; the outermost one undoes everything if it failed or a statement in it did. -/
def leave (succeeded : Bool) (db : Database) : Database :=
  { db with
    store :=
      if db.depth ≤ 1 && (!succeeded || db.invalidated) then db.store.restoredTo db.saved
      else db.store
    depth := db.depth - 1 }

end Database

/-- Work on a database that may fail. -/
abbrev Tx (α : Type) := ExceptT Fault (StateM Database) α

namespace Tx

variable {α : Type}

/-- A statement begins: an invalidated transaction refuses it. -/
def ensureValid : Tx Unit := do
  if (← get).refuses then throw .engine

/-- Ask the store. -/
def read (query : Store → α) : Tx α := do
  ensureValid
  return query (← get).store

/-- Change the store and take an answer. -/
def update (change : Store → α × Store) : Tx α := do
  ensureValid
  modifyGet fun db =>
    let (a, store) := change db.store
    (a, { db with store })

/-- Change the store. -/
def write (change : Store → Store) : Tx Unit := update fun store => ((), change store)

/-- Change the store if the change is possible. -/
def writeOr (change : Store → Except Fault (α × Store)) : Tx α := do
  match change (← get).store with
  | .ok (a, store) =>
    ensureValid
    modify fun db => { db with store }
    return a
  | .error fault =>
    if !fault.isEarly then ensureValid
    if fault.isStatement then modify Database.invalidate
    throw fault

/-- Ask the store a question that may fail. -/
def readOr (query : Store → Except Fault α) : Tx α :=
  writeOr fun store => (query store).map fun a => (a, store)

/-- Say what a refused statement was for. -/
def named (fault : Fault) (work : Tx α) : Tx α :=
  tryCatch work fun
    | .engine => throw fault
    | other => throw other

/-- Do the work in a scope of its own. -/
def transaction (work : Tx α) : Tx α := fun db =>
  let (result, db) := work.run.run db.enter
  (result, db.leave result.isOk)

end Tx

end SymbolAtlas
