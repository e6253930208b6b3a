import SymbolAtlas.Text.Cut

/-!
# Paths

A path is a text. What it names depends only on its components: the root if it starts with a
slash, then the pieces between slashes, where empty pieces count for nothing and a single dot
counts only at the start of a relative path.

* `components`: the components of a path.
* `join`: a path seen from a base directory; an absolute path stands for itself.
* `parent?`, `fileName?`, `extension?`: the parts of a path.
* `normalize`: the lexical normal form. Components are pushed on a `Trail`; two dots take away the
  last name of the trail, whatever it is, and stay as a name where there is none to take away.
-/

namespace SymbolAtlas.Path

/-- One component of a path. -/
inductive Component where
  /-- the root directory -/
  | root
  /-- the directory itself, written as a dot -/
  | current
  /-- the directory above, written as two dots -/
  | parent
  /-- an entry of a directory -/
  | normal (name : String)
  deriving DecidableEq, Repr

/-- The text of a component. -/
def Component.text : Component → String
  | .root => "/"
  | .current => "."
  | .parent => ".."
  | .normal name => name

/-- The path starts at the root. -/
def isAbsolute (p : String) : Bool := p.toList.head? == some '/'

/-- The component that a piece between slashes stands for, past the start of the path. -/
def pieceComponent? (piece : List Char) : Option Component :=
  if piece = [] || piece = ['.'] then none
  else if piece = ['.', '.'] then some .parent
  else some (.normal (String.ofList piece))

/-- The components of a path. -/
def components (p : String) : List Component :=
  let pieces := Text.cut '/' p.toList
  let start :=
    if isAbsolute p then [Component.root]
    else if pieces.head? = some ['.'] then [Component.current]
    else []
  start ++ pieces.filterMap pieceComponent?

/-- The path `p` seen from the directory `base`. -/
def join (base p : String) : String :=
  if isAbsolute p || base.isEmpty then p
  else if base.toList.getLast? == some '/' then base ++ p
  else base ++ "/" ++ p

/-- The text of a list of components. -/
def ofComponents : List Component → String
  | [] => ""
  | .root :: rest => "/" ++ "/".intercalate (rest.map Component.text)
  | rest => "/".intercalate (rest.map Component.text)

/-- The directory that holds the last component; the root and the empty path have none. -/
def parent? (p : String) : Option String :=
  match (components p).getLast? with
  | none | some .root => none
  | some _ => some (ofComponents (components p).dropLast)

/-- The last component, if it is the name of an entry. -/
def fileName? (p : String) : Option String :=
  match (components p).getLast? with
  | some (.normal name) => some name
  | _ => none

/-- The part of a file name after its last dot, unless that dot is the first character. -/
def nameExtension? (name : String) : Option String :=
  let backward := name.toList.reverse
  match backward.dropWhile (· ≠ '.') with
  | [] | [_] => none
  | _ :: _ => some (String.ofList (backward.takeWhile (· ≠ '.')).reverse)

/-- The extension of the file that a path names. -/
def extension? (p : String) : Option String := (fileName? p).bind nameExtension?

/-- A place reached by following components: whether it was entered at the root, and the names
below, deepest first. -/
structure Trail where
  rooted : Bool
  names : List String
  deriving DecidableEq, Repr

namespace Trail

/-- The place where every relative path starts. -/
def start : Trail := ⟨false, []⟩

/-- Follow one component. -/
def follow (t : Trail) : Component → Trail
  | .root => ⟨true, []⟩
  | .current => t
  | .parent =>
    match t.names with
    | [] => { t with names := [".."] }
    | _ :: above => { t with names := above }
  | .normal name => { t with names := name :: t.names }

/-- The path that names the place. -/
def text (t : Trail) : String :=
  (if t.rooted then "/" else "") ++ "/".intercalate t.names.reverse

end Trail

/-- The place that a path leads to, seen lexically. -/
def trail (p : String) : Trail := (components p).foldl Trail.follow Trail.start

/-- The lexical normal form of a path. -/
def normalize (p : String) : String := (trail p).text

/-- The normal form of `p` seen from the directory `base`. -/
def resolve (base p : String) : String := normalize (join base p)

end SymbolAtlas.Path
