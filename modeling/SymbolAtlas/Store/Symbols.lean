import SymbolAtlas.Ascending
import SymbolAtlas.Store.Basic

/-!
# Symbols and includes in the store

What parsers record about a file replaces what was recorded before.
-/

namespace SymbolAtlas

/-- The row of a symbol. -/
def Symbol.row (symbol : Symbol) : SymbolRow :=
  ⟨symbol.hash, symbol.name, Worded.word symbol.kind, Worded.word symbol.role, symbol.file⟩

/-- The symbol that a row stands for. -/
def SymbolRow.read (row : SymbolRow) : Except Fault Symbol :=
  match Worded.parse? row.kind with
  | none => .error (.unknownSymbolKind row.kind)
  | some kind =>
    match Worded.parse? row.role with
    | none => .error (.unknownSymbolRole row.role)
    | some role => .ok ⟨row.hash, row.name, kind, role, row.file⟩

/-- Rows are listed by name, then kind, then role. -/
def SymbolRow.notAfter (a b : SymbolRow) : Bool :=
  if a.name ≠ b.name then a.name < b.name
  else if a.kind ≠ b.kind then a.kind < b.kind
  else !(b.role < a.role)

namespace Store

/-- Add a row, whatever its words. -/
def addSymbolRow (row : SymbolRow) (store : Store) : Store :=
  { store with symbols := store.symbols ++ [row] }

/-- Record an occurrence of a symbol. -/
def addSymbol (symbol : Symbol) (store : Store) : Store := store.addSymbolRow symbol.row

/-- Replace the symbols of a file, which all become symbols of that file. -/
def replaceSymbols (file : Int) (symbols : List Symbol) (store : Store) : Store :=
  { store with
    symbols := (store.symbols.filter fun row => row.file ≠ file) ++
      symbols.map fun symbol => { symbol.row with file } }

/-- The symbols of a file by name, kind and role. -/
def symbolsIn (store : Store) (file : Int) : Except Fault (List Symbol) :=
  ((store.symbols.filter fun row => row.file = file).mergeSort SymbolRow.notAfter).mapM
    SymbolRow.read

/-- Record that a file includes another one. -/
def addInclude (includer included : Int) (store : Store) : Store :=
  { store with includes := store.includes ++ [⟨includer, included⟩] }

/-- Replace what a file includes. -/
def replaceIncludes (includer : Int) (included : List Int) (store : Store) : Store :=
  { store with
    includes := (store.includes.filter fun row => row.includer ≠ includer) ++
      (Ascending.ofList included).map fun file => ⟨includer, file⟩ }

/-- Some file includes the file, be it the file itself. -/
def isIncluded (store : Store) (file : Int) : Bool :=
  store.includes.any fun row => row.included = file

/-- The other files that include a file, ascending. -/
def includersOf (store : Store) (file : Int) : List Int :=
  Ascending.ofList ((store.includes.filter fun row =>
    row.included = file && row.includer ≠ file).map IncludeRow.includer)

/-- One hop from a frontier of files to those that include them: ascending rows without repeats. -/
def includers (store : Store) (frontier : List Int) : List (Int × Option Int) :=
  (Ascending.ofList frontier).flatMap fun file =>
    (store.includersOf file).map fun includer => (file, some includer)

end Store

end SymbolAtlas
