import SymbolAtlas.Store.Basic
import SymbolAtlas.Text.Like

/-!
# Counters, checkouts and notes in the store

Each of these tables has at most one row for a key: a new row takes the place of the old one.
-/

namespace SymbolAtlas.Store

/-- A category is cleared with the given one: it is the same, or it matches the given one followed
by a dot and any text, where wildcards of the given one count. -/
def clearsWith (category other : String) : Bool :=
  other = category || Text.like other (category ++ ".%")

/-- Drop the counters of a category and of those below it. -/
def clearStatistics (category : String) (store : Store) : Store :=
  { store with statistics := store.statistics.filter fun row => !clearsWith category row.category }

/-- Write a counter. -/
def putStatistic (row : Statistic) (store : Store) : Store :=
  { store with
    statistics := (store.statistics.filter fun old =>
      !(old.category = row.category && old.key = row.key)) ++ [row] }

/-- Write several counters. -/
def putStatistics (rows : List Statistic) (store : Store) : Store :=
  rows.foldl (fun store row => store.putStatistic row) store

/-- All counters by category and key. -/
def listStatistics (store : Store) : List Statistic :=
  store.statistics.mergeSort fun a b =>
    if a.category ≠ b.category then a.category < b.category else !(b.key < a.key)

/-- The counter of a key. -/
def statistic? (store : Store) (category key : String) : Option Int :=
  (store.statistics.find? fun row => row.category = category && row.key = key).map Statistic.value

/-- Record a checkout. -/
def addRepository (path kind : String) (store : Store) : Store :=
  { store with repositories := (store.repositories.filter fun old => old.path ≠ path) ++ [⟨path, kind⟩] }

/-- All checkouts by path. -/
def listRepositories (store : Store) : List Repository :=
  store.repositories.mergeSort fun a b => !(b.path < a.path)

/-- Write a note, possibly without a value. -/
def setNote (key : String) (value : Option String) (store : Store) : Store :=
  { store with notes := (store.notes.filter fun old => old.key ≠ key) ++ [⟨key, value⟩] }

/-- The value of a note. -/
def note? (store : Store) (key : String) : Option String :=
  (store.notes.find? fun note => note.key = key).bind Note.value

/-- The version of the tables. -/
def schemaVersion : String := "1.0.0"

/-- What opening a store does to it: the version of the tables is noted. -/
def opened (store : Store) : Store := store.setNote "schema_version" (some schemaVersion)

end SymbolAtlas.Store
