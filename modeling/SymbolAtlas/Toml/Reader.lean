import SymbolAtlas.Toml.Quoted
import SymbolAtlas.Toml.Scalar
import SymbolAtlas.Toml.Table

/-!
# Reading TOML documents

A document is a sequence of lines: entries, headers, comments and blank ones. Every function takes
the characters that are left and gives back what it read with the rest, or nothing.

* `readKey`, `readValue`: the parts of a line.
* `Document`: the table read so far, and the table that entries go to.
* `read?`: the table that a text consists of.

Keys have less than `nestingLimit` parts, and arrays and inline tables are nested less deeply than
that.
-/

namespace SymbolAtlas.Toml

/-- How deep keys and values may be nested is below this. -/
def nestingLimit : Nat := 80

/-- The rest after blanks. -/
def skipBlanks (cs : List Char) : List Char := cs.dropWhile isBlank

/-- The rest after blanks, line ends and comments that end with a line. `inComment` tells whether a
comment is going on. -/
def skipLines (inComment : Bool) : List Char → Option (List Char)
  | [] => if inComment then none else some []
  | '\n' :: rest => skipLines false rest
  | '\r' :: '\n' :: rest => skipLines false rest
  | c :: rest =>
    if inComment then if isTextChar c then skipLines true rest else none
    else if isBlank c then skipLines false rest
    else if c = '#' then skipLines true rest
    else some (c :: rest)

/-! ### Keys -/

/-- A character of a key without quotes. -/
def isKeyChar (c : Char) : Bool := c.isAlphanum || c == '-' || c == '_'

/-- One part of a key. -/
def readKeyPart (cs : List Char) : Option (String × List Char) :=
  let read := match cs with
    | '"' :: rest => readBasic rest
    | '\'' :: rest => readLiteral rest
    | cs =>
      let (part, rest) := cs.span isKeyChar
      if part.isEmpty then none else some (part, rest)
  read.map fun (part, rest) => (String.ofList part, rest)

/-- The parts of a key, of which there are at most `fuel`: those before the last one, and the last
one. -/
def readKeyParts : (fuel : Nat) → List Char → Option (List String × String × List Char)
  | 0, _ => none
  | fuel + 1, cs => do
    let (part, rest) ← readKeyPart (skipBlanks cs)
    match skipBlanks rest with
    | '.' :: rest =>
      let (path, key, rest) ← readKeyParts fuel rest
      return (part :: path, key, rest)
    | rest => return ([], part, rest)

/-- A key, with the blanks around it. -/
def readKey (cs : List Char) : Option (List String × String × List Char) :=
  readKeyParts (nestingLimit - 1) cs

/-! ### Values -/

/-- A text in quotes. -/
def readText : List Char → Option (List Char × List Char)
  | '"' :: '"' :: '"' :: rest => readLongBasic rest
  | '"' :: rest => readBasic rest
  | '\'' :: '\'' :: '\'' :: rest => readLongLiteral rest
  | '\'' :: rest => readLiteral rest
  | _ => none

mutual

/-- A value inside so many others. -/
def readValue : (fuel depth : Nat) → List Char → Option (Value × List Char)
  | 0, _, _ => none
  | fuel + 1, depth, cs =>
    match cs with
    | '[' :: rest =>
      if nestingLimit ≤ depth + 1 then none
      else (readItems fuel (depth + 1) rest).map fun (items, rest) => (.array items, rest)
    | '{' :: rest =>
      if nestingLimit ≤ depth + 1 then none
      else
        match skipBlanks rest with
        | '}' :: rest => some (.table .inline [], rest)
        | rest => readEntries fuel (depth + 1) (.table .inline []) rest
    | c :: rest =>
      if c = '"' || c = '\'' then
        (readText (c :: rest)).map fun (text, rest) => (.text (String.ofList text), rest)
      else
        let (word, rest) := takeWord (c :: rest)
        (scalar? word).map fun value => (value, rest)
    | [] => none

/-- The items of an array up to its closing bracket. -/
def readItems : (fuel depth : Nat) → List Char → Option (List Value × List Char)
  | 0, _, _ => none
  | fuel + 1, depth, cs => do
    match ← skipLines false cs with
    | ']' :: rest => return ([], rest)
    | cs =>
      let (item, rest) ← readValue fuel depth cs
      match ← skipLines false rest with
      | ']' :: rest => return ([item], rest)
      | ',' :: rest =>
        let (items, rest) ← readItems fuel depth rest
        return (item :: items, rest)
      | _ => none

/-- The entries of an inline table up to its closing brace, at least one, added to a table. -/
def readEntries : (fuel depth : Nat) → Value → List Char → Option (Value × List Char)
  | 0, _, _, _ => none
  | fuel + 1, depth, table, cs => do
    let (path, key, rest) ← readKey cs
    match rest with
    | '=' :: rest =>
      let (value, rest) ← readValue fuel depth (skipBlanks rest)
      let table ← Value.addEntry path key value table
      match skipBlanks rest with
      | '}' :: rest => return (table, rest)
      | ',' :: rest => readEntries fuel depth table rest
      | _ => none
    | _ => none

end

/-! ### Documents -/

/-- What has been read of a document. -/
structure Document where
  root : Value := .table .header []
  /-- the path of the table that entries go to -/
  current : List String := []

namespace Document

/-- Add an entry to the current table. -/
def addEntry (path : List String) (key : String) (value : Value) (doc : Document) :
    Option Document :=
  (Value.within .parent (Value.addEntry path key value) doc.current doc.root).map fun root =>
    { doc with root }

/-- Go on with the table of a header. -/
def openTable (path : List String) (key : String) (doc : Document) : Option Document :=
  (Value.within .parent (Value.openKey key) path doc.root).map fun root =>
    ⟨root, path ++ [key]⟩

/-- Go on with a new table under a header that may be repeated. -/
def pushTable (path : List String) (key : String) (doc : Document) : Option Document :=
  (Value.within .parent (Value.pushKey key) path doc.root).map fun root =>
    ⟨root, path ++ [key]⟩

end Document

/-- The rest after what may end a line: blanks, a comment, and a line end unless the document ends
there. -/
def endLine (cs : List Char) : Option (List Char) :=
  let rest := match skipBlanks cs with
    | '#' :: comment => comment.dropWhile isTextChar
    | rest => rest
  if rest.isEmpty then some [] else afterLineEnd? rest

/-- One line that is not blank. -/
def readLine (doc : Document) (cs : List Char) : Option (Document × List Char) := do
  let fuel := 2 * cs.length + 2
  match cs with
  | '#' :: _ => return (doc, ← endLine cs)
  | '[' :: '[' :: rest =>
    let (path, key, rest) ← readKey rest
    match rest with
    | ']' :: ']' :: rest => return (← doc.pushTable path key, ← endLine rest)
    | _ => none
  | '[' :: rest =>
    let (path, key, rest) ← readKey rest
    match rest with
    | ']' :: rest => return (← doc.openTable path key, ← endLine rest)
    | _ => none
  | cs =>
    let (path, key, rest) ← readKey cs
    match rest with
    | '=' :: rest =>
      let (value, rest) ← readValue fuel 0 (skipBlanks rest)
      return (← doc.addEntry path key value, ← endLine rest)
    | _ => none

/-- The lines of a document, of which there are at most `fuel`. -/
def readDocument : (fuel : Nat) → Document → List Char → Option Document
  | 0, doc, cs => if (skipBlanks cs).isEmpty then some doc else none
  | fuel + 1, doc, cs =>
    match skipBlanks cs with
    | [] => some doc
    | rest =>
      match afterLineEnd? rest with
      | some rest => readDocument fuel doc rest
      | none => do
        let (doc, rest) ← readLine doc rest
        readDocument fuel doc rest

/-- The table that a text consists of. A byte order mark at its start is left out. -/
def read? (s : String) : Option Value :=
  let cs := match s.toList with
    | '\uFEFF' :: rest => rest
    | cs => cs
  (readDocument (cs.length + 1) {} cs).map Document.root

end SymbolAtlas.Toml
