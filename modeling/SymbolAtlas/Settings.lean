import SymbolAtlas.FileTree.Basic
import SymbolAtlas.Toml.Reader

/-!
# Settings

Settings are read from a file in the workspace. Each section may be left out, and so may each entry
of a section; entries that nobody knows are passed over. An array may stand for a section: it gives
the entries in order.

* `Settings.ofText?`: the settings that a text gives.
* `Settings.validate`: the values that are allowed.
* `Settings.ofFile`: the settings of a file, or what is wrong with it.
* `Settings.load`: the settings of a workspace; if anything is wrong with them, the usual ones.
-/

namespace SymbolAtlas

/-- How actions are given to parsers. -/
structure ParseSettings where
  wholeCommand : Bool := false
  includePaths : List String := []
  disabledParsers : List String := []
  deriving DecidableEq, Repr, Inhabited

/-- How often the collector looks for work, in milliseconds. -/
structure CollectorSettings where
  pollInterval : Nat := 50
  deriving DecidableEq, Repr, Inhabited

/-- How clusters are computed. -/
structure ClusterSettings where
  enabled : Bool := true
  /-- the number of workers; if it is not given, one for every processor -/
  jobs : Option Nat := none
  deriving DecidableEq, Repr, Inhabited

/-- How a workspace is walked over. -/
structure TraversalSettings where
  /-- seconds between two reports -/
  progressInterval : Nat := 5
  /-- how many files are counted by language -/
  maxFiles : Option Nat := none
  deriving DecidableEq, Repr, Inhabited

/-- All settings. -/
structure Settings where
  parse : ParseSettings := {}
  collector : CollectorSettings := {}
  cluster : ClusterSettings := {}
  traversal : TraversalSettings := {}
  deriving DecidableEq, Repr, Inhabited

/-- What is wrong with settings. -/
inductive SettingsError where
  /-- the file cannot be read as text -/
  | unreadable
  /-- the text gives no settings -/
  | malformed
  /-- there must be a worker -/
  | noJobs
  /-- there must be time between two looks -/
  | noPollInterval
  deriving DecidableEq, Repr

/-- What is said about a value that is not allowed. -/
def SettingsError.message? : SettingsError → Option String
  | .unreadable | .malformed => none
  | .noJobs => some "Invalid config value: cluster.jobs must be at least 1"
  | .noPollInterval =>
    some "Invalid config value: collector.poll_interval_ms must be at least 1"

namespace Settings

open Toml (Value)

/-! ### Values -/

/-- A truth value. -/
def bool? : Value → Option Bool
  | .bool b => some b
  | _ => none

/-- A number that is not negative. -/
def nat? : Value → Option Nat
  | .integer i => if 0 ≤ i then some i.toNat else none
  | _ => none

/-- A text. -/
def text? : Value → Option String
  | .text s => some s
  | _ => none

/-- A list of texts. -/
def texts? : Value → Option (List String)
  | .array items => items.mapM text?
  | _ => none

/-- The entries of a section that has the given keys. A point in time has none of them. -/
def section? (keys : List String) : Value → Option (List (String × Value))
  | .table _ entries => some entries
  | .array items | .tables items => some (keys.zip items)
  | .moment => some []
  | _ => none

/-- An entry, if it is there. -/
def entry? {α : Type} (entries : List (String × Value)) (key : String) (read : Value → Option α) :
    Option (Option α) :=
  match entries.lookup key with
  | none => some none
  | some value => (read value).map some

/-! ### Sections -/

/-- The section on parsing. -/
def parse? (value : Value) : Option ParseSettings := do
  let entries ← section? ["whole_command", "include_paths", "disabled_parsers"] value
  return { wholeCommand := (← entry? entries "whole_command" bool?).getD false
           includePaths := (← entry? entries "include_paths" texts?).getD []
           disabledParsers := (← entry? entries "disabled_parsers" texts?).getD [] }

/-- The section on the collector. -/
def collector? (value : Value) : Option CollectorSettings := do
  let entries ← section? ["poll_interval_ms"] value
  return { pollInterval := (← entry? entries "poll_interval_ms" nat?).getD 50 }

/-- The section on clusters. -/
def cluster? (value : Value) : Option ClusterSettings := do
  let entries ← section? ["enabled", "jobs"] value
  return { enabled := (← entry? entries "enabled" bool?).getD true
           jobs := ← entry? entries "jobs" nat? }

/-- The section on the walk. -/
def traversal? (value : Value) : Option TraversalSettings := do
  let entries ← section? ["progress_interval_secs", "max_files"] value
  return { progressInterval := (← entry? entries "progress_interval_secs" nat?).getD 5
           maxFiles := ← entry? entries "max_files" nat? }

/-- The settings that a text gives. -/
def ofText? (text : String) : Option Settings := do
  match ← Toml.read? text with
  | .table _ entries =>
    return { parse := (← entry? entries "parse" parse?).getD {}
             collector := (← entry? entries "collector" collector?).getD {}
             cluster := (← entry? entries "cluster" cluster?).getD {}
             traversal := (← entry? entries "traversal" traversal?).getD {} }
  | _ => none

/-! ### Files -/

/-- All values are allowed, or the first one that is not. -/
def validate (settings : Settings) : Except SettingsError Unit :=
  if settings.cluster.jobs = some 0 then .error .noJobs
  else if settings.collector.pollInterval = 0 then .error .noPollInterval
  else .ok ()

/-- The settings of a file. -/
def ofFile (tree : FileTree) (path : String) : Except SettingsError Settings := do
  match tree.readText? path with
  | none => throw .unreadable
  | some text =>
    match ofText? text with
    | none => throw .malformed
    | some settings =>
      settings.validate
      return settings

/-- The name of the file with the settings of a workspace. -/
def fileName : String := "sextant.toml"

/-- The settings of a workspace; the usual ones if there are none or if they cannot be used. -/
def load (tree : FileTree) (root : String) : Settings :=
  match ofFile tree (Path.join root fileName) with
  | .ok settings => settings
  | .error _ => {}

/-- The include directories, seen from a root. -/
def resolvedIncludePaths (settings : Settings) (root : String) : List String :=
  settings.parse.includePaths.map (Path.join root)

/-- The number of workers for clusters, if it is given. -/
def clusterJobs? (settings : Settings) : Option Nat := settings.cluster.jobs.map (max 1)

end Settings

end SymbolAtlas
