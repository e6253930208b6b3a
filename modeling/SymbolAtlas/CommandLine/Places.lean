import SymbolAtlas.CommandLine.Session

/-!
# Where a call looks

The program works on a file tree that is a value, so whoever calls it has to know which part of the
file system it can look at.

* `namedPlaces`: the workspace and the files that the arguments name.
* `loggedPlaces`: what the settings and the build log lead to.
-/

namespace SymbolAtlas.CommandLine

/-- The directory of a path; that of a bare name is the working directory. -/
def directoryOf (path : String) : String :=
  match Path.parent? path with
  | some parent => if parent.isEmpty then "." else parent
  | none => path

/-- The workspace and the files that the arguments name. -/
def namedPlaces (arguments : Arguments) : List String :=
  [arguments.root] ++ arguments.buildLog.toList ++ arguments.config.toList ++
    [arguments.database.getD (databasePath arguments.root)]

/-- The directories of the sources in the build log, and those searched for included files. -/
def loggedPlaces (tree : FileTree) (arguments : Arguments) : List String :=
  let root := (tree.canonical? arguments.root).getD arguments.root
  let base := match settingsOf tree root arguments with
    | .ok settings => settings.resolvedIncludePaths root
    | .error _ => []
  let actions := match arguments.buildLog.map (BuildLog.load tree) with
    | some (.ok actions) => actions
    | _ => []
  let ofAction := fun (action : BuildLog.LogAction) =>
    let directories := action.sources.map directoryOf
    directories ++ directories.flatMap fun directory =>
      (Command.Options.ofLabel action.label base).includePaths.map fun path =>
        Path.resolve directory path
  (actions.flatMap ofAction).eraseDups

end SymbolAtlas.CommandLine
