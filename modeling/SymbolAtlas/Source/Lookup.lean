import SymbolAtlas.FileTree.Basic
import SymbolAtlas.Source.Extraction

/-!
# Where included files are

A quoted include is looked for next to the including file first. Both forms then search the include
directories in order; a relative one is seen from the directory of the including file.
-/

namespace SymbolAtlas.Source

/-- The paths at which an included file is looked for, in order. -/
def candidates (found : Include) (directory : String) (includePaths : List String) : List String :=
  let searched := includePaths.map fun dir => Path.join directory dir
  let directories := if found.system then searched else directory :: searched
  directories.map fun dir => Path.resolve dir found.path

/-- The file that an include directive in a file of the given directory names. -/
def lookup? (tree : FileTree) (found : Include) (directory : String) (includePaths : List String) :
    Option String :=
  (candidates found directory includePaths).find? tree.isFile

end SymbolAtlas.Source
