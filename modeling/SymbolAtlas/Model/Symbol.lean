import SymbolAtlas.Hash.Xxh3
import SymbolAtlas.Model.Word

/-!
# Symbols

A symbol row records that a file defines or declares a named entity. Entities of equal kind and
qualified name have equal hashes, whatever the file.
-/

namespace SymbolAtlas

/-- What a symbol names. -/
inductive SymbolKind where
  | function
  | type
  | variable
  deriving DecidableEq, Repr, Inhabited

instance : Worded SymbolKind where
  all := [.function, .type, .variable]
  word
    | .function => "function"
    | .type => "type"
    | .variable => "variable"

/-- Whether a file defines a symbol or only declares it. -/
inductive SymbolRole where
  | definition
  | declaration
  deriving DecidableEq, Repr, Inhabited

instance : Worded SymbolRole where
  all := [.definition, .declaration]
  word
    | .definition => "definition"
    | .declaration => "declaration"

/-- One occurrence of a symbol in a file. -/
structure Symbol where
  hash : Int
  name : String
  kind : SymbolKind
  role : SymbolRole
  file : Int
  deriving DecidableEq, Repr, Inhabited

/-- The identity of an entity across files. -/
def symbolHash (kind : SymbolKind) (qualifiedName : String) : Int :=
  (Hash.Xxh3.digestText (Worded.word kind ++ ":" ++ qualifiedName)).toInt

end SymbolAtlas
