import SymbolAtlas.Command.Words
import SymbolAtlas.Json.Reader
import SymbolAtlas.Json.Record
import SymbolAtlas.Model.Action
import SymbolAtlas.Path

/-!
# Build logs

A build log is a JSON array. An entry is a native record of one action, or a record of a
compilation database; an entry that fits both is native. All entries are read before the first one
is turned into an action, so a log with an unreadable entry fails as a whole whatever else is wrong.

* `Entry.ofJson?`: the entry that a document stands for.
* `Entry.action`: the action of an entry, with absolute normal paths for an absolute base.
* `parse`: the actions of a log.
-/

namespace SymbolAtlas.BuildLog

/-- One action of a log. -/
structure LogAction where
  kind : ActionKind
  label : String
  sources : List String
  targets : List String
  deriving DecidableEq, Repr

/-- One entry of a log. -/
inductive Entry where
  /-- a record of any action -/
  | native (kind command : String) (sources targets : List String) (directory : Option String)
  /-- a record of a compilation -/
  | compilation (directory file : String) (command : Option String)
      (arguments : Option (List String)) (output : Option String)
  deriving DecidableEq, Repr

/-- Why a log cannot be used. -/
inductive LogError where
  /-- the file cannot be read as text -/
  | unreadable
  /-- the text is not an array of entries -/
  | malformed
  /-- the entry at the index names an unknown kind of action -/
  | unknownKind (index : Nat) (kind : String)
  /-- the entry at the index has no command line -/
  | noCommand (index : Nat)
  deriving DecidableEq, Repr

/-- The text of an error about an entry; the others are told by their kind alone. -/
def LogError.message? : LogError → Option String
  | .unreadable | .malformed => none
  | .unknownKind index kind =>
    some ("Invalid build log entry " ++ toString index ++ ": unknown kind '" ++ kind ++ "'")
  | .noCommand index =>
    some ("Invalid build log entry " ++ toString index ++
      ": neither 'command' nor 'arguments' given")

namespace Entry

/-- A native entry. -/
def nativeOfJson? (j : Json) : Option Entry := do
  let r ← j.record? ["kind", "command", "sources", "targets", "directory"]
  let kind ← r.required "kind" Json.text?
  let command ← r.required "command" Json.text?
  let sources ← r.defaulted "sources" [] Json.texts?
  let targets ← r.defaulted "targets" [] Json.texts?
  let directory ← r.defaulted "directory" none (Json.Record.nullable Json.text?)
  return .native kind command sources targets directory

/-- A compilation entry. -/
def compilationOfJson? (j : Json) : Option Entry := do
  let r ← j.record? ["directory", "file", "command", "arguments", "output"]
  let directory ← r.required "directory" Json.text?
  let file ← r.required "file" Json.text?
  let command ← r.defaulted "command" none (Json.Record.nullable Json.text?)
  let arguments ← r.defaulted "arguments" none (Json.Record.nullable Json.texts?)
  let output ← r.defaulted "output" none (Json.Record.nullable Json.text?)
  return .compilation directory file command arguments output

/-- The entry that a document stands for. -/
def ofJson? (j : Json) : Option Entry :=
  match nativeOfJson? j with
  | some entry => some entry
  | none => compilationOfJson? j

/-- The action of the entry at `index`, its paths seen from `base`. -/
def action (base : String) (index : Nat) : Entry → Except LogError LogAction
  | .native kind command sources targets directory =>
    match Worded.parse? kind with
    | none => .error (.unknownKind index kind)
    | some known =>
      let dir := match directory with
        | some dir => Path.resolve base dir
        | none => base
      .ok { kind := known, label := command, sources := sources.map (Path.resolve dir)
            targets := targets.map (Path.resolve dir) }
  | .compilation directory file command arguments output =>
    let words := match arguments, command with
      | some words, _ => some words
      | none, some line => some (Command.split line)
      | none, none => none
    match words with
    | none => .error (.noCommand index)
    | some words =>
      let dir := Path.resolve base directory
      let output := match output with
        | some file => some file
        | none => Command.output? words
      .ok { kind := .compile, label := command.getD (" ".intercalate words)
            sources := [Path.resolve dir file], targets := (output.map (Path.resolve dir)).toList }

end Entry

/-- How deep arrays and objects of a log may be nested. -/
def nestingLimit : Nat := 127

/-- The entries of a log. -/
def entries? (content : String) : Option (List Entry) := do
  let document ← Json.read? content
  if !document.isPlain nestingLimit then none
  else
    match document with
    | .array items => items.mapM Entry.ofJson?
    | _ => none

/-- The actions of entries, numbered from `index`; the first error ends the reading. -/
def actionsFrom (base : String) (index : Nat) : List Entry → Except LogError (List LogAction)
  | [] => .ok []
  | entry :: rest => do
    let action ← entry.action base index
    let actions ← actionsFrom base (index + 1) rest
    return action :: actions

/-- The actions of a log with the given text, its paths seen from `base`. -/
def parse (content base : String) : Except LogError (List LogAction) :=
  match entries? content with
  | none => .error .malformed
  | some entries => actionsFrom base 0 entries

end SymbolAtlas.BuildLog
