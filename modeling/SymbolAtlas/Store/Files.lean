import SymbolAtlas.Language
import SymbolAtlas.Store.Basic

/-!
# Files in the store

A path has at most one row. Its language is told from the path when the row is made.
-/

namespace SymbolAtlas.Store

/-- The row of a path. -/
def fileAt? (store : Store) (path : String) : Option File :=
  store.files.find? fun file => file.path = path

/-- The row with an identity. -/
def file? (store : Store) (id : Int) : Option File :=
  store.files.find? fun file => file.id = id

/-- The row of a path, made if there is none. -/
def internFile (path : String) (store : Store) : File × Store :=
  match store.fileAt? path with
  | some file => (file, store)
  | none =>
    let file : File := ⟨store.nextFile, path, Language.detect? path⟩
    (file, { store with files := store.files ++ [file], nextFile := store.nextFile + 1 })

/-- The rows of several paths, made if there are none. -/
def internFiles : List String → Store → List File × Store
  | [], store => ([], store)
  | path :: paths, store =>
    let (file, store) := store.internFile path
    let (files, store) := internFiles paths store
    (file :: files, store)

/-- Drop the row with an identity; whatever names it is kept. -/
def eraseFile (id : Int) (store : Store) : Store :=
  { store with files := store.files.filter fun file => file.id ≠ id }

end SymbolAtlas.Store
