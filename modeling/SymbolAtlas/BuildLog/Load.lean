import SymbolAtlas.BuildLog.Entry
import SymbolAtlas.FileTree.Basic

/-!
# Loading build logs

The paths in a log are seen from the directory that the log is in.
-/

namespace SymbolAtlas.BuildLog

/-- The actions of the log at a path. -/
def load (tree : FileTree) (path : String) : Except LogError (List LogAction) :=
  match tree.readText? path with
  | none => .error .unreadable
  | some content => parse content ((Path.parent? path).getD ".")

end SymbolAtlas.BuildLog
