import SymbolAtlas.CommandLine.Arguments
import SymbolAtlas.Report
import SymbolAtlas.Store.Document

/-!
# A call of the program

The program as a function: a file tree, the arguments and the database that the environment names
give an exit status, what is printed, and the file tree afterwards.

* `Call.run`: one call.
* `Result.lines`: what is printed.

The database is a file with the tables. While a database is open, its log stands beside it.
-/

namespace SymbolAtlas.CommandLine

/-- What is printed. -/
inductive Output where
  | nothing
  | help
  | version
  | summary (summary : RunSummary) (asDocument : Bool)

/-- What came of a call. -/
structure Result where
  /-- zero for success, one for a run that failed, two for wrong arguments -/
  status : Nat
  output : Output := .nothing
  /-- what is said about a failure -/
  complaint : Option String := none
  tree : FileTree
  /-- the path of the database and its text, if it was opened -/
  database : Option (String × String) := none

/-- How the program is used. -/
def usage : List String :=
  ["Parse build actions and cluster ambiguous symbols",
   "",
   "Usage: sextant-parser [OPTIONS] [ROOT]",
   "",
   "Arguments:",
   "  [ROOT]  Workspace root to discover [default: .]",
   "",
   "Options:",
   "      --database <DATABASE>    Path to the workspace database [env: SEXTANT_DATABASE=]",
   "      --build-log <BUILD_LOG>  Build log to import",
   "  -j, --jobs <JOBS>            Cluster worker pool size",
   "      --no-cluster             Skip clustering",
   "      --whole-command          Dispatch whole commands to parsers",
   "      --config <CONFIG>        Configuration file (default: sextant.toml in the root)",
   "  -v, --verbose                Enable verbose logging",
   "  -q, --quiet                  Only log errors",
   "      --json                   Print the run summary as JSON",
   "  -h, --help                   Print help",
   "  -V, --version                Print version"]

/-- The lines that are printed for a run of so many nanoseconds. -/
def Result.lines (result : Result) (nanos : Nat) : List String :=
  match result.output with
  | .nothing => []
  | .help => usage
  | .version => ["sextant-parser 0.1.0"]
  | .summary summary true => (summary.document nanos).splitOn "\n"
  | .summary summary false => summary.lines

/-- The settings of a call: those of the file that is named, or else of the workspace, changed by
the arguments. -/
def settingsOf (tree : FileTree) (root : String) (arguments : Arguments) :
    Except SettingsError Settings := do
  let settings ← match arguments.config with
    | some path => Settings.ofFile tree path
    | none => pure (Settings.load tree root)
  let settings : Settings :=
    { settings with
      cluster :=
        { enabled := settings.cluster.enabled && !arguments.flags.contains .noCluster
          jobs := arguments.jobs.or settings.cluster.jobs }
      parse :=
        { settings.parse with
          wholeCommand := settings.parse.wholeCommand || arguments.flags.contains .wholeCommand } }
  settings.validate
  return settings

/-- Where the database of a workspace is. -/
def databasePath (root : String) : String :=
  Path.join (Path.join root ".sextant") "workspace.duckdb"

/-- The name of the log beside an open database. -/
def logPath (path : String) : String := path ++ ".wal"

/-- The store in the file at a path: a new one if there is no file, none if the file is something
else. -/
def storeAt? (tree : FileTree) (path : String) : Option Store :=
  if tree.exists? path then (tree.readText? path).bind Store.ofDocument? else some {}

/-- The tree with a directory, unless something else is in its place. -/
def withDirectory? (tree : FileTree) (path : String) : Option FileTree :=
  if path.isEmpty then some tree
  else
    let tree := tree.makeDirectories path
    if (tree.find? path).any Node.isDirectory then some tree else none

/-- Run over a workspace with a database. -/
def runWith (tree : FileTree) (time root : String) (arguments : Arguments) (settings : Settings)
    (path : String) (store : Store) : Result :=
  let save := fun (tree : FileTree) (store : Store) =>
    tree.write path store.document.toUTF8
  let opened := (save tree store).write (logPath path) ByteArray.empty
  let setup := RunSetup.builtIn opened settings time
  let options : RunOptions :=
    { root, buildLog := arguments.buildLog, project := RunOptions.projectOf root }
  let (outcome, state) := runWorkspace setup options (Database.ofStore store)
  let after := state.bench.database.store
  let closed := (save opened after).remove (logPath path)
  let database := some (path, after.document)
  match outcome with
  | .ok summary =>
    { status := 0, output := .summary summary (arguments.flags.contains .json), tree := closed
      database }
  | .error (.log error) =>
    { status := 1, tree := closed, database
      complaint := some (error.message?.getD "The build log cannot be read") }
  | .error (.fault fault) =>
    { status := 1, tree := closed, database
      complaint := some (fault.message?.getD "The database cannot be used") }

/-- A run as the arguments ask for. -/
def runArguments (tree : FileTree) (time : String) (arguments : Arguments) : Result :=
  let root := (tree.canonical? arguments.root).getD arguments.root
  match settingsOf tree root arguments with
  | .error error =>
    { status := 1, tree
      complaint := some (error.message?.getD "The configuration cannot be read") }
  | .ok settings =>
    let path := arguments.database.getD (databasePath root)
    match withDirectory? tree ((Path.parent? path).getD "") with
    | none => { status := 1, tree, complaint := some "The directory cannot be made" }
    | some tree =>
      match storeAt? tree path with
      | none => { status := 1, tree, complaint := some "The database cannot be opened" }
      | some store => runWith tree time root arguments settings path store

/-- One call of the program. -/
def run (tree : FileTree) (time : String) (environment : Option String) (args : List String) :
    Result :=
  match Request.parse environment args with
  | none => { status := 2, tree, complaint := some "The arguments are wrong; see --help" }
  | some .help => { status := 0, tree, output := .help }
  | some .version => { status := 0, tree, output := .version }
  | some (.run arguments) => runArguments tree time arguments

end SymbolAtlas.CommandLine
