import SymbolAtlas.Model.Word

/-!
# Build actions

A build action is one recorded tool call. It is created, and is later either parsed or skipped;
both are final.
-/

namespace SymbolAtlas

/-- What kind of tool an action calls. -/
inductive ActionKind where
  | compile
  | link
  | interpret
  deriving DecidableEq, Repr, Inhabited

instance : Worded ActionKind where
  all := [.compile, .link, .interpret]
  word
    | .compile => "compile"
    | .link => "link"
    | .interpret => "interpret"

/-- How far the indexing of an action has come. -/
inductive ActionState where
  | created
  | parsed
  | skipped
  deriving DecidableEq, Repr, Inhabited

instance : Worded ActionState where
  all := [.created, .parsed, .skipped]
  word
    | .created => "created"
    | .parsed => "parsed"
    | .skipped => "skipped"

namespace ActionState

/-- Nothing follows the state. -/
def isTerminal : ActionState → Bool
  | .created => false
  | .parsed | .skipped => true

/-- An action may go from the first state to the second. -/
def allows (before after : ActionState) : Bool :=
  !before.isTerminal && after.isTerminal

end ActionState

/-- A recorded tool call. -/
structure BuildAction where
  id : Int
  kind : ActionKind
  state : ActionState
  /-- the command line -/
  label : String
  project : String
  deriving DecidableEq, Repr, Inhabited

end SymbolAtlas
