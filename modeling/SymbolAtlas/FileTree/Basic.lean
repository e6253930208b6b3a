import SymbolAtlas.Ascending
import SymbolAtlas.Path

/-!
# File trees

A file tree is a value: directories with their entries in order of name, regular files with their
bytes, symbolic links and pipes. Paths are followed the way a file system does it: a link in the
middle of a path is always followed, the number of links on the way is bounded, and two dots lead
to the directory above the place that was reached.

* `Node.entry?`, `Node.descend?`: what a directory holds.
* `FileTree.locate?`: the names that lead from the root to what a path names, without links.
* `FileTree.find?`, `FileTree.findEntry?`: what a path names, with a link at the end followed or
  not.
* `FileTree.makeDirectories`, `FileTree.write`, `FileTree.link`, `FileTree.remove`: changes.
-/

namespace SymbolAtlas

/-- An entry of a file tree. -/
inductive Node where
  | file (content : ByteArray)
  /-- a directory with its entries, in ascending order of name -/
  | directory (entries : List (String × Node))
  | link (target : String)
  /-- a named pipe -/
  | pipe
  deriving Inhabited

namespace Node

/-- The entry of a directory with the given name. -/
def entry? (name : String) : Node → Option Node
  | .directory entries => Ascending.get? name entries
  | _ => none

/-- What the names lead to, directory by directory. -/
def descend? (node : Node) : List String → Option Node
  | [] => some node
  | name :: rest => (node.entry? name).bind fun child => child.descend? rest

/-- Put an entry at the end of the given names, making the directories on the way. An entry that is
no directory is in the way of what lies below it. -/
def insert (node new : Node) : List String → Node
  | [] => new
  | name :: rest =>
    match node with
    | .directory entries =>
      let child := (Ascending.get? name entries).getD (.directory [])
      .directory (Ascending.put name (child.insert new rest) entries)
    | other => other

/-- Take away the entry at the end of the given names. -/
def erase (node : Node) : List String → Node
  | [] => node
  | [name] =>
    match node with
    | .directory entries => .directory (entries.filter fun entry => entry.1 != name)
    | other => other
  | name :: rest =>
    match node with
    | .directory entries =>
      match Ascending.get? name entries with
      | some child => .directory (Ascending.put name (child.erase rest) entries)
      | none => node
    | other => other

/-- The node is a directory. -/
def isDirectory : Node → Bool
  | .directory _ => true
  | _ => false

/-- The node is a regular file. -/
def isFile : Node → Bool
  | .file _ => true
  | _ => false

end Node

/-- A file tree with a working directory. -/
structure FileTree where
  root : Node
  /-- the directory that relative paths start from -/
  workingDirectory : String
  deriving Inhabited

namespace FileTree

/-- How many links may be followed on the way to one entry. -/
def linkLimit : Nat := 40

/-- Follow components from the directory `here`, given by its names, deepest first. `jump` goes on
after a link. With `last` a link at the end is followed as well. -/
def follow (root : Node) (last : Bool)
    (jump : List String → List Path.Component → Option (List String)) :
    List String → List Path.Component → Option (List String)
  | here, [] => some here
  | _, .root :: rest => follow root last jump [] rest
  | here, .current :: rest => follow root last jump here rest
  | here, .parent :: rest => follow root last jump here.tail rest
  | here, .normal name :: rest =>
    match root.descend? (name :: here).reverse with
    | none => none
    | some (.directory _) => follow root last jump (name :: here) rest
    | some (.link target) =>
      if rest.isEmpty && !last then some (name :: here)
      else jump here (Path.components target ++ rest)
    | some _ => if rest.isEmpty then some (name :: here) else none

/-- Follow components through at most `links` links. -/
def followLinks (root : Node) (last : Bool) :
    Nat → List String → List Path.Component → Option (List String)
  | 0 => follow root last fun _ _ => none
  | links + 1 => follow root last (followLinks root last links)

/-- The path can name a directory only: it ends with a slash or with a dot for a component. -/
def namesDirectory (path : String) : Bool :=
  match path.toList.reverse with
  | '/' :: _ => true
  | ['.'] => true
  | '.' :: '/' :: _ => true
  | _ => false

/-- The names that lead to what a path names, deepest last. -/
def locate? (tree : FileTree) (last : Bool) (path : String) : Option (List String) :=
  if path.isEmpty then none
  else
    let full := Path.join tree.workingDirectory path
    let last := last || namesDirectory path
    match followLinks tree.root last linkLimit [] (Path.components full) with
    | none => none
    | some names =>
      let names := names.reverse
      if namesDirectory path && !((tree.root.descend? names).any Node.isDirectory) then none
      else some names

/-- What a path names, a link at its end followed. -/
def find? (tree : FileTree) (path : String) : Option Node :=
  (tree.locate? true path).bind tree.root.descend?

/-- The entry that a path names, which may be a link. -/
def findEntry? (tree : FileTree) (path : String) : Option Node :=
  (tree.locate? false path).bind tree.root.descend?

/-- The path names something. -/
def exists? (tree : FileTree) (path : String) : Bool := (tree.find? path).isSome

/-- The path names a regular file. -/
def isFile (tree : FileTree) (path : String) : Bool := (tree.find? path).any Node.isFile

/-- The bytes of the regular file that a path names. -/
def read? (tree : FileTree) (path : String) : Option ByteArray :=
  match tree.find? path with
  | some (.file content) => some content
  | _ => none

/-- The text of the regular file that a path names; none if its bytes are no text. -/
def readText? (tree : FileTree) (path : String) : Option String :=
  (tree.read? path).bind String.fromUTF8?

/-- The path of the given names. -/
def pathOf (names : List String) : String := "/" ++ "/".intercalate names

/-- The path without links and dots that names the same entry. -/
def canonical? (tree : FileTree) (path : String) : Option String :=
  (tree.locate? true path).map pathOf

/-- The path of each directory on the way along a path, the path itself included. -/
def ancestors (path : String) : List String :=
  let components := Path.components path
  (List.range components.length).map fun i => Path.ofComponents (components.take (i + 1))

/-- The directory that an entry at a path is in, and its name there. -/
def placeOf? (path : String) : Option (String × String) := do
  let parent ← Path.parent? path
  return (if parent.isEmpty then "." else parent, ← Path.fileName? path)

/-- Make a directory unless there is something already. -/
def makeDirectory (tree : FileTree) (path : String) : FileTree :=
  if tree.exists? path then tree
  else
    match placeOf? path with
    | some (parent, name) =>
      match tree.locate? true parent with
      | some names => { tree with root := tree.root.insert (.directory []) (names ++ [name]) }
      | none => tree
    | none => tree

/-- Make all directories on the way along a path. -/
def makeDirectories (tree : FileTree) (path : String) : FileTree :=
  (ancestors path).foldl makeDirectory tree

/-- Put an entry at a path whose directories are made if they are missing. A link at the end of the
path is followed if it leads somewhere. -/
def place (tree : FileTree) (path : String) (node : Node) : FileTree :=
  match placeOf? path with
  | some (parent, name) =>
    let tree := tree.makeDirectories parent
    match tree.locate? true path, tree.locate? true parent with
    | some names, _ => { tree with root := tree.root.insert node names }
    | none, some names => { tree with root := tree.root.insert node (names ++ [name]) }
    | none, none => tree
  | none => tree

/-- Write a regular file. -/
def write (tree : FileTree) (path : String) (content : ByteArray) : FileTree :=
  tree.place path (.file content)

/-- Take away the entry at a path with all that it holds. -/
def remove (tree : FileTree) (path : String) : FileTree :=
  match tree.locate? false path with
  | some names => { tree with root := tree.root.erase names }
  | none => tree

end FileTree

end SymbolAtlas
