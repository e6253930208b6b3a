import SymbolAtlas.Text.Blank
import SymbolAtlas.Text.Cut

/-!
# Options of a parse

What a parser is told about the command line of an action: the include directories it names and
its other words. The label is cut at blanks only and its first word, the tool, is left out.
-/

namespace SymbolAtlas.Command

/-- Options of a parse. -/
structure Options where
  /-- directories searched for included files, in order -/
  includePaths : List String
  /-- the other words of the command line -/
  extraArgs : List String
  deriving DecidableEq, Repr, Inhabited

namespace Options

/-- Flags that name an include directory, joined to the flag or as the next word. -/
def includeFlags : List String := ["-I", "-iquote", "-isystem"]

/-- The directory that is joined to an include flag. -/
def joinedDirectory? (word : String) : Option String :=
  (includeFlags.findSome? fun flag => Text.afterStart flag word).filter fun dir => !dir.isEmpty

/-- Read the words of a command line, adding to `options`. -/
def readWords (options : Options) : List String → Options
  | [] => options
  | [word] =>
    match if includeFlags.contains word then none else joinedDirectory? word with
    | some dir => { options with includePaths := options.includePaths ++ [dir] }
    | none => { options with extraArgs := options.extraArgs ++ [word] }
  | word :: next :: rest =>
    if includeFlags.contains word then
      readWords { options with includePaths := options.includePaths ++ [next] } rest
    else
      match joinedDirectory? word with
      | some dir => readWords { options with includePaths := options.includePaths ++ [dir] } (next :: rest)
      | none => readWords { options with extraArgs := options.extraArgs ++ [word] } (next :: rest)

/-- The options of an action: the configured include directories, then those of its label. -/
def ofLabel (label : String) (base : List String) : Options :=
  readWords ⟨base, []⟩ ((Text.words label).drop 1)

end Options

end SymbolAtlas.Command
