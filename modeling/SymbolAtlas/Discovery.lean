import SymbolAtlas.FileTree.Walk
import SymbolAtlas.Language
import SymbolAtlas.Store.Database

/-!
# Discovery

One walk over a workspace finds the checkouts in it and counts the languages of its files.

* `Scout`: the two subscribers of the walk. The finder wants every directory; the census stops
  once it has counted as many files as it may.
* `discover`: walk, and record what was found.
-/

namespace SymbolAtlas

/-- Counts regular files by language. -/
structure Census where
  files : Nat := 0
  languages : List (String × Nat) := []
  /-- how many files are counted at most -/
  limit : Option Nat
  deriving DecidableEq, Repr

/-- The census may not count any more. -/
def Census.isFull (census : Census) : Bool := census.limit.any fun limit => limit ≤ census.files

/-- Count a file. -/
def Census.count (path : String) (census : Census) : Census :=
  { census with
    files := census.files + 1
    languages := match Language.detect? path with
      | some language => Ascending.adjust language 0 (· + 1) census.languages
      | none => census.languages }

/-- A subscriber of discovery. -/
inductive Scout where
  /-- the checkouts found so far -/
  | finder (repositories : List Repository)
  | census (census : Census)
  deriving DecidableEq, Repr

/-- What a scout does with an entry. -/
def Scout.visit (tree : FileTree) : Walk.Visitor Scout := fun path kind scout =>
  match scout with
  | .finder found =>
    if kind = .directory && tree.exists? (Path.join path ".git") then
      (.finder (found ++ [⟨path, "git"⟩]), .goOn)
    else (.finder found, .goOn)
  | .census c =>
    if c.isFull then (.census c, .stop)
    else if kind = .regular then (.census (c.count path), .goOn)
    else (.census c, .goOn)

/-- What discovery found. -/
structure Discovery where
  counts : WalkCounts := ⟨0, 0, 0, 0⟩
  repositories : List Repository := []
  languages : List (String × Nat) := []
  deriving Repr, Inhabited

namespace Discovery

/-- Walk over a workspace. -/
def scout (tree : FileTree) (limit : Option Nat) (root : String) : Discovery :=
  let final := Walk.run tree (Scout.visit tree) root [.finder [], .census { limit }]
  { counts := final.counts
    repositories := final.subscribers.flatMap fun
      | .finder found => found
      | .census _ => []
    languages := final.subscribers.flatMap fun
      | .finder _ => []
      | .census c => c.languages }

/-- Record what was found: checkouts are added, languages take the place of earlier ones. -/
def record (found : Discovery) (store : Store) : Store :=
  let store := found.repositories.foldl
    (fun store repository => store.addRepository repository.path repository.kind) store
  (store.clearStatistics "language").putStatistics
    (found.languages.map fun (language, n) => ⟨"language", language, n⟩)

end Discovery

/-- Walk over a workspace and record what was found. -/
def discover (tree : FileTree) (limit : Option Nat) (root : String) : Tx Discovery := do
  let found := Discovery.scout tree limit root
  Tx.transaction (Tx.write found.record)
  return found

end SymbolAtlas
