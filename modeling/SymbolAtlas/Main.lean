import SymbolAtlas.CommandLine.Places
import Std.Time

/-!
# The program

The outer layer: it takes a picture of the part of the file system that a call can look at, makes
the call on that picture, and carries out what the call decided.
-/

namespace SymbolAtlas.Main

/-- A picture of what is at a path. What cannot be looked at is taken for something that is neither
file nor directory. -/
partial def picture (path : String) : IO Node := do
  try
    let place := (← IO.currentDir) / path
    match (← place.symlinkMetadata).type with
    | .symlink => return .link (← IO.FS.realPath place).toString
    | .file => return .file (← IO.FS.readBinFile place)
    | .other => return .pipe
    | .dir =>
      let mut entries := []
      for entry in ← place.readDir do
        let node ← picture (Path.join path entry.fileName)
        entries := Ascending.put entry.fileName node entries
      return .directory entries
  catch _ => return .pipe

/-- The tree with a picture of what is at a path, unless a directory above it has been pictured. -/
def addPicture (tree : FileTree) (pictured : List String) (path : String) :
    IO (FileTree × List String) := do
  let full := Path.resolve tree.workingDirectory path
  if pictured.any fun done => (Path.components done).isPrefixOf (Path.components full) then
    return (tree, pictured)
  if ← ((← IO.currentDir) / full).pathExists then
    return (tree.place full (← picture full), pictured ++ [full])
  return (tree, pictured)

/-- The tree with pictures of what is at the paths. -/
def addPictures (tree : FileTree) (pictured : List String) :
    List String → IO (FileTree × List String)
  | [] => return (tree, pictured)
  | path :: paths => do
    let (tree, pictured) ← addPicture tree pictured path
    addPictures tree pictured paths

/-- The part of the file system that a call can look at. -/
def look (arguments : CommandLine.Arguments) : IO FileTree := do
  let tree : FileTree := ⟨.directory [], (← IO.currentDir).toString⟩
  let tree := tree.makeDirectories tree.workingDirectory
  let (tree, pictured) ← addPictures tree [] (CommandLine.namedPlaces arguments)
  return (← addPictures tree pictured (CommandLine.loggedPlaces tree arguments)).1

/-- Write the database that a call has opened. -/
def save (path content : String) : IO Unit := do
  IO.FS.createDirAll ((← IO.currentDir) / CommandLine.directoryOf path)
  IO.FS.writeFile ((← IO.currentDir) / path) content

/-- The time as it is noted. -/
def timeNow : IO String := do
  return (← Std.Time.DateTime.now).toISO8601String

end SymbolAtlas.Main

/-- Parse the build actions of a workspace and cluster its ambiguous symbols. -/
def main (args : List String) : IO UInt32 := do
  let environment ← IO.getEnv "SEXTANT_DATABASE"
  let start ← IO.monoNanosNow
  let tree ← match SymbolAtlas.CommandLine.Request.parse environment args with
    | some (.run arguments) => SymbolAtlas.Main.look arguments
    | _ => pure ⟨.directory [], "/"⟩
  let result := SymbolAtlas.CommandLine.run tree (← SymbolAtlas.Main.timeNow) environment args
  if let some (path, content) := result.database then SymbolAtlas.Main.save path content
  let stop ← IO.monoNanosNow
  for line in result.lines (stop - start) do IO.println line
  if let some complaint := result.complaint then IO.eprintln complaint
  return result.status.toUInt32
