import SymbolAtlas.Model.Outcome
import SymbolAtlas.Source.Extraction
import SymbolAtlas.Source.Lookup
import SymbolAtlas.Store.Database
import SymbolAtlas.Store.Files
import SymbolAtlas.Store.Symbols
import SymbolAtlas.Text.Utf8

/-!
# The indexer

An index job takes one source and then every file that it includes, directly or through others. Of
each file the symbols and the includes are recorded. A file that is reached by an include is
indexed once for all jobs of a run.

* `Extractor`: what finds the includes and the symbols in a text.
* `Indexer`: the included files that were seen, and how many of them were indexed.
* `indexFile`: record one file; the answer is the files it includes, in order.
* `IndexJob.run`: one job.

A file that cannot be read ends the job if it is the source, and is left out otherwise.
-/

namespace SymbolAtlas

/-- What finds the includes and the symbols in a text. -/
abbrev Extractor := String → Source.Extraction

/-- What the jobs of a run share. -/
structure Indexer where
  /-- the included files that were reached -/
  seen : List String := []
  /-- how many of them were indexed -/
  indexed : Nat := 0
  deriving DecidableEq, Repr, Inhabited

/-- A source to index. -/
structure IndexJob where
  /-- the channel for the outcome -/
  channel : Nat
  file : Int
  path : String
  includePaths : List String
  deriving DecidableEq, Repr

namespace Indexer

/-- The files that the include directives of a file name, in order. -/
def includedFiles (tree : FileTree) (includePaths : List String) (path : String)
    (found : Source.Extraction) : List String :=
  found.includes.filterMap fun directive =>
    Source.lookup? tree directive ((Path.parent? path).getD ".") includePaths

/-- Record what was found in a file. -/
def recordFile (file : Int) (included : List String) (symbols : List Source.Found)
    (store : Store) : Store :=
  let (files, store) := store.internFiles included
  (store.replaceIncludes file (files.map File.id)).replaceSymbols file
    (symbols.map fun found => found.symbol file)

/-- Index a file: the files that it includes, or nothing if it cannot be read. -/
def indexFile (extract : Extractor) (tree : FileTree) (includePaths : List String) (file : Int)
    (path : String) : Tx (Option (List String)) := do
  match tree.read? path with
  | none => return none
  | some bytes =>
    let found := extract (Text.decodeLossy bytes)
    let included := includedFiles tree includePaths path found
    Tx.transaction (Tx.write (recordFile file included found.symbols))
    return some included

/-- Index an included file under its row. -/
def indexHeader (extract : Extractor) (tree : FileTree) (includePaths : List String)
    (path : String) : Tx (Option (List String)) := do
  let file ← Tx.transaction (Tx.update (Store.internFile path))
  indexFile extract tree includePaths file.id path

/-- Index the pending files, the last one first, and what they include. At most `files` files that
were not seen before are indexed. -/
def follow (extract : Extractor) (tree : FileTree) (includePaths : List String) (files : Nat)
    (pending : List String) (indexer : Indexer) : Tx Indexer :=
  match pending with
  | [] => return indexer
  | path :: rest =>
    if indexer.seen.contains path then follow extract tree includePaths files rest indexer
    else
      match files with
      | 0 => return indexer
      | files + 1 => do
        let indexer := { indexer with seen := indexer.seen ++ [path] }
        match ← indexHeader extract tree includePaths path with
        | some included =>
          follow extract tree includePaths files (included.reverse ++ rest)
            { indexer with indexed := indexer.indexed + 1 }
        | none => follow extract tree includePaths files rest indexer
  termination_by (files, pending.length)

end Indexer

mutual

/-- The number of nodes of a tree. -/
def Node.size : Node → Nat
  | .directory entries => Node.sizes entries + 1
  | .file _ | .link _ | .pipe => 1

/-- The number of nodes of several trees. -/
def Node.sizes : List (String × Node) → Nat
  | [] => 0
  | (_, node) :: rest => node.size + Node.sizes rest

end

/-- More than the number of paths that name files of the tree: the names in a path are names of
nodes, or lead upwards, and between two links, of which only so many are followed, they are at most
as many as there are nodes. -/
def FileTree.pathBound (tree : FileTree) : Nat :=
  Nat.pow (tree.root.size + 2) ((FileTree.linkLimit + 2) * (tree.root.size + 2))

/-- Run an index job: the outcome, and what the jobs share afterwards. -/
def IndexJob.run (extract : Extractor) (tree : FileTree) (job : IndexJob) (indexer : Indexer) :
    Tx (Outcome × Indexer) := do
  match ← Indexer.indexFile extract tree job.includePaths job.file job.path with
  | none => return (.fail, indexer)
  | some included =>
    let indexer ← indexer.follow extract tree job.includePaths tree.pathBound included.reverse
    return (.success, indexer)

end SymbolAtlas
