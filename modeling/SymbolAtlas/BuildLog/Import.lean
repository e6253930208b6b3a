import SymbolAtlas.BuildLog.Entry
import SymbolAtlas.Store.Actions
import SymbolAtlas.Store.Database

/-!
# Importing build logs

The actions of a log are added to the build graph. An action that is there already, for the same
project and with the same kind, command and paths, is not added again.
-/

namespace SymbolAtlas.BuildLog

/-- What an import did. -/
structure ImportSummary where
  imported : Nat := 0
  /-- actions that were there already -/
  existing : Nat := 0
  deriving DecidableEq, Repr, Inhabited

/-- Link the files with the given paths to an action, from a place on. -/
def linkPaths (add : (file ordinal : Int) → Store → Except Fault Store) :
    Int → List String → Tx Unit
  | _, [] => return
  | ordinal, path :: paths => do
    let file ← Tx.update (Store.internFile path)
    Tx.writeOr fun store => (add file.id ordinal store).map fun store => ((), store)
    linkPaths add (ordinal + 1) paths

/-- Import an action; the answer is whether it was added. -/
def importAction (project : String) (action : LogAction) : Tx Bool := do
  let known ← Tx.read fun store =>
    store.findIdentical? action.kind action.label project action.sources action.targets
  if known.isSome then return false
  let added ← Tx.update (Store.insertAction action.kind action.label project)
  linkPaths (Store.addSource added.id) 0 action.sources
  linkPaths (Store.addTarget added.id) 0 action.targets
  return true

/-- Import actions one after the other. -/
def importEach (project : String) : List LogAction → ImportSummary → Tx ImportSummary
  | [], summary => return summary
  | action :: actions, summary => do
    if ← importAction project action then
      importEach project actions { summary with imported := summary.imported + 1 }
    else importEach project actions { summary with existing := summary.existing + 1 }

/-- Import the actions of a log under a project, all or none. -/
def importActions (project : String) (actions : List LogAction) : Tx ImportSummary :=
  Tx.transaction (importEach project actions {})

end SymbolAtlas.BuildLog
