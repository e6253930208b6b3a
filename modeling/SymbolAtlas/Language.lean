import SymbolAtlas.Path
import SymbolAtlas.Text.LetterCase

/-!
# Languages

The language of a file is told from the extension of its path, whatever its letter case.
-/

namespace SymbolAtlas.Language

/-- Extensions, in lower case, of each known language. -/
def extensions : List (String × List String) :=
  [("c", ["c"]),
   ("c-header", ["h"]),
   ("cpp", ["cc", "cpp", "cxx", "c++", "ino"]),
   ("cpp-header", ["hh", "hpp", "hxx", "h++", "inl", "ipp", "tcc"]),
   ("python", ["py", "pyw", "pyi"]),
   ("javascript", ["js", "mjs"]),
   ("typescript", ["ts", "tsx"]),
   ("java", ["java"]),
   ("go", ["go"]),
   ("rust", ["rs"]),
   ("csharp", ["cs"]),
   ("shell", ["sh", "bash", "zsh"]),
   ("cmake", ["cmake"])]

/-- The language of the file at a path, if its extension is known. -/
def detect? (path : String) : Option String := do
  let ext ← Path.extension? path
  let (language, _) ← extensions.find? fun (_, exts) => exts.contains (Text.lower ext)
  return language

/-- Files of the language are only ever included. -/
def isHeader (language : String) : Bool := language == "c-header" || language == "cpp-header"

end SymbolAtlas.Language
