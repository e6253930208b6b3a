import SymbolAtlas.Json.Reader
import SymbolAtlas.Json.Writer
import SymbolAtlas.Store.Basic

/-!
# Stores as documents

A store is kept in a file as a JSON document with one array of rows for each table.

* `Store.document`: the text of a store.
* `Store.ofDocument?`: the store that a text gives.
-/

namespace SymbolAtlas.Store

open Json (ofInt ofText ofText?)

/-! ### Writing -/

/-- The row of an action. -/
def writeAction (row : ActionRow) : Json :=
  .array [ofInt row.id, ofText row.kind, ofText row.state, ofText row.label, ofText row.project]

/-- The row of a file. -/
def writeFile (row : File) : Json :=
  .array [ofInt row.id, ofText row.path, ofText? row.language]

/-- The row of a source or target. -/
def writeLink (row : Link) : Json :=
  .array [ofInt row.action, ofInt row.file, ofInt row.ordinal]

/-- The row of a symbol. -/
def writeSymbol (row : SymbolRow) : Json :=
  .array [ofInt row.hash, ofText row.name, ofText row.kind, ofText row.role, ofInt row.file]

/-- A row of two numbers. -/
def writePair (first second : Int) : Json := .array [ofInt first, ofInt second]

/-- The row of a counter. -/
def writeStatistic (row : Statistic) : Json :=
  .array [ofText row.category, ofText row.key, ofInt row.value]

/-- The document of a store. -/
def toJson (store : Store) : Json :=
  .array
    [.array (store.actions.map writeAction),
     .array (store.files.map writeFile),
     .array (store.sources.map writeLink),
     .array (store.targets.map writeLink),
     .array (store.includes.map fun row => writePair row.includer row.included),
     .array (store.symbols.map writeSymbol),
     .array (store.clusters.map fun row => writePair row.file row.action),
     .array (store.repositories.map fun row => .array [ofText row.path, ofText row.kind]),
     .array (store.statistics.map writeStatistic),
     .array (store.notes.map fun row => .array [ofText row.key, ofText? row.value]),
     writePair store.nextAction store.nextFile]

/-! ### Reading -/

/-- A text or null. -/
def readText? : Json → Option (Option String)
  | .null => some none
  | j => j.text?.map some

/-- The row of an action. -/
def readAction? : Json → Option ActionRow
  | .array [id, kind, state, label, project] => do
    return ⟨← id.int64?, ← kind.text?, ← state.text?, ← label.text?, ← project.text?⟩
  | _ => none

/-- The row of a file. -/
def readFile? : Json → Option File
  | .array [id, path, language] => do return ⟨← id.int64?, ← path.text?, ← readText? language⟩
  | _ => none

/-- The row of a source or target. -/
def readLink? : Json → Option Link
  | .array [action, file, ordinal] => do
    return ⟨← action.int64?, ← file.int64?, ← ordinal.int64?⟩
  | _ => none

/-- The row of a symbol. -/
def readSymbol? : Json → Option SymbolRow
  | .array [hash, name, kind, role, file] => do
    return ⟨← hash.int64?, ← name.text?, ← kind.text?, ← role.text?, ← file.int64?⟩
  | _ => none

/-- A row of two numbers. -/
def readPair? : Json → Option (Int × Int)
  | .array [first, second] => do return (← first.int64?, ← second.int64?)
  | _ => none

/-- The row of a counter. -/
def readStatistic? : Json → Option Statistic
  | .array [category, key, value] => do
    return ⟨← category.text?, ← key.text?, ← value.int64?⟩
  | _ => none

/-- The row of a checkout. -/
def readRepository? : Json → Option Repository
  | .array [path, kind] => do return ⟨← path.text?, ← kind.text?⟩
  | _ => none

/-- The row of a note. -/
def readNote? : Json → Option Note
  | .array [key, value] => do return ⟨← key.text?, ← readText? value⟩
  | _ => none

/-- The rows of a table. -/
def readRows? {α : Type} (read : Json → Option α) : Json → Option (List α)
  | .array rows => rows.mapM read
  | _ => none

/-- The store that a document gives. -/
def ofJson? : Json → Option Store
  | .array [actions, files, sources, targets, includes, symbols, clusters, repositories, statistics,
      notes, next] => do
    let (nextAction, nextFile) ← readPair? next
    return {
      actions := ← readRows? readAction? actions
      files := ← readRows? readFile? files
      sources := ← readRows? readLink? sources
      targets := ← readRows? readLink? targets
      includes := (← readRows? readPair? includes).map fun (a, b) => ⟨a, b⟩
      symbols := ← readRows? readSymbol? symbols
      clusters := (← readRows? readPair? clusters).map fun (a, b) => ⟨a, b⟩
      repositories := ← readRows? readRepository? repositories
      statistics := ← readRows? readStatistic? statistics
      notes := ← readRows? readNote? notes
      nextAction, nextFile }
  | _ => none

/-- The text of a store. -/
def document (store : Store) : String := store.toJson.compact

/-- The store that a text gives; an empty text gives an empty store. -/
def ofDocument? (text : String) : Option Store :=
  if text.isEmpty then some {} else (Json.read? text).bind ofJson?

end SymbolAtlas.Store
