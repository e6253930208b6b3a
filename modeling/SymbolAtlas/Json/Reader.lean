import SymbolAtlas.Json.Basic

/-!
# Reading JSON

A strict reader: no trailing commas, no text after the document, no leading zeros, no control
characters inside texts. Every function takes the characters that are left and gives back what it
read with the rest, or nothing.

* `Json.read?`: the document that a text consists of.
-/

namespace SymbolAtlas.Json

/-- White space between the parts of a document. -/
def isSpace (c : Char) : Bool := c == ' ' || c == '\t' || c == '\n' || c == '\r'

/-- The rest after white space. -/
def skipSpace (cs : List Char) : List Char := cs.dropWhile isSpace

/-- The value of a hexadecimal digit. -/
def hexDigit? (c : Char) : Option Nat :=
  if '0' ≤ c ∧ c ≤ '9' then some (c.toNat - '0'.toNat)
  else if 'a' ≤ c ∧ c ≤ 'f' then some (c.toNat - 'a'.toNat + 10)
  else if 'A' ≤ c ∧ c ≤ 'F' then some (c.toNat - 'A'.toNat + 10)
  else none

/-- The value of four hexadecimal digits. -/
def hexQuad? (a b c d : Char) : Option Nat := do
  return (((← hexDigit? a) * 16 + (← hexDigit? b)) * 16 + (← hexDigit? c)) * 16 + (← hexDigit? d)

/-- The character of a one-letter escape. -/
def shortEscape? : Char → Option Char
  | '"' => some '"'
  | '\\' => some '\\'
  | '/' => some '/'
  | 'b' => some '\x08'
  | 'f' => some '\x0c'
  | 'n' => some '\n'
  | 'r' => some '\r'
  | 't' => some '\t'
  | _ => none

/-- A unit of a text: a code point, or a code unit written by its number. -/
inductive TextUnit where
  | char (c : Char)
  | unit (n : Nat)
  deriving DecidableEq, Repr

/-- The units of a text up to its closing quote. -/
def readUnits : List Char → Option (List TextUnit × List Char)
  | [] => none
  | '"' :: rest => some ([], rest)
  | '\\' :: 'u' :: a :: b :: c :: d :: rest => do
    let n ← hexQuad? a b c d
    let (units, rest) ← readUnits rest
    return (.unit n :: units, rest)
  | '\\' :: c :: rest => do
    let e ← shortEscape? c
    let (units, rest) ← readUnits rest
    return (.char e :: units, rest)
  | c :: rest =>
    if c.toNat < 0x20 || c == '\\' then none
    else do
      let (units, rest) ← readUnits rest
      return (.char c :: units, rest)

/-- The first half of a surrogate pair. -/
def isHighHalf (n : Nat) : Bool := 0xD800 ≤ n && n < 0xDC00

/-- The second half of a surrogate pair. -/
def isLowHalf (n : Nat) : Bool := 0xDC00 ≤ n && n < 0xE000

/-- The characters that units stand for; none if a half of a surrogate pair stands alone. -/
def decodeUnits : List TextUnit → Option (List Char)
  | [] => some []
  | .unit hi :: .unit lo :: rest =>
    if isHighHalf hi && isLowHalf lo then
      (Char.ofNat (0x10000 + (hi - 0xD800) * 0x400 + (lo - 0xDC00)) :: ·) <$> decodeUnits rest
    else if isHighHalf hi || isLowHalf hi then none
    else (Char.ofNat hi :: ·) <$> decodeUnits (.unit lo :: rest)
  | .unit n :: rest =>
    if isHighHalf n || isLowHalf n then none else (Char.ofNat n :: ·) <$> decodeUnits rest
  | .char c :: rest => (c :: ·) <$> decodeUnits rest

/-- A text, after its opening quote. -/
def readText (cs : List Char) : Option (Option String × List Char) := do
  let (units, rest) ← readUnits cs
  return ((decodeUnits units).map String.ofList, rest)

/-- The number that decimal digits denote, read on from `n`. -/
def digitsValue (n : Nat) (ds : List Char) : Nat :=
  ds.foldl (fun n d => n * 10 + (d.toNat - '0'.toNat)) n

/-- Digits, at least one, and the rest. -/
def readDigits (cs : List Char) : Option (List Char × List Char) :=
  let ds := cs.takeWhile Char.isDigit
  if ds.isEmpty then none else some (ds, cs.dropWhile Char.isDigit)

/-- The digits before the point: a zero, or digits that do not start with one. -/
def readWhole : List Char → Option (List Char × List Char)
  | '0' :: rest => if (rest.head?.any Char.isDigit) then none else some (['0'], rest)
  | cs => readDigits cs

/-- The digits after the point, if there is a point. -/
def readFraction : List Char → Option (Option (List Char) × List Char)
  | '.' :: rest => do
    let (ds, rest) ← readDigits rest
    return (some ds, rest)
  | rest => some (none, rest)

/-- The exponent, if there is one. -/
def readExponent : List Char → Option (Option Int × List Char)
  | c :: rest =>
    if c == 'e' || c == 'E' then
      match rest with
      | '-' :: rest => do
        let (ds, rest) ← readDigits rest
        return (some (-(digitsValue 0 ds : Int)), rest)
      | '+' :: rest => do
        let (ds, rest) ← readDigits rest
        return (some (digitsValue 0 ds : Int), rest)
      | rest => do
        let (ds, rest) ← readDigits rest
        return (some (digitsValue 0 ds : Int), rest)
    else some (none, c :: rest)
  | [] => some (none, [])

/-- A numeral. -/
def readNumeral (cs : List Char) : Option (Numeral × List Char) := do
  let (negative, cs) := match cs with
    | '-' :: rest => (true, rest)
    | _ => (false, cs)
  let (whole, cs) ← readWhole cs
  let (fraction, cs) ← readFraction cs
  let (exponent, cs) ← readExponent cs
  let places := fraction.getD []
  let numeral : Numeral :=
    { negative, digits := digitsValue (digitsValue 0 whole) places, scale := places.length
      exponent := exponent.getD 0, isWhole := fraction.isNone && exponent.isNone }
  return (numeral, cs)

/-- The rest after one of the three words of the notation. -/
def readWord (word : String) (cs : List Char) : Option (List Char) :=
  if word.toList.isPrefixOf cs then some (cs.drop word.length) else none

mutual

/-- A value, with fuel for its nesting. -/
def readValue : Nat → List Char → Option (Json × List Char)
  | 0, _ => none
  | fuel + 1, cs =>
    match skipSpace cs with
    | '[' :: rest => do
      match skipSpace rest with
      | ']' :: rest => return (.array [], rest)
      | _ =>
        let (items, rest) ← readItems fuel rest
        return (.array items, rest)
    | '{' :: rest => do
      match skipSpace rest with
      | '}' :: rest => return (.object [], rest)
      | _ =>
        let (fields, rest) ← readFields fuel rest
        return (.object fields, rest)
    | '"' :: rest => do
      let (value, rest) ← readText rest
      return (.text value, rest)
    | 'n' :: rest => do return (.null, ← readWord "ull" rest)
    | 't' :: rest => do return (.bool true, ← readWord "rue" rest)
    | 'f' :: rest => do return (.bool false, ← readWord "alse" rest)
    | rest => do
      let (n, rest) ← readNumeral rest
      return (.number n, rest)

/-- The items of an array up to its closing bracket, at least one. -/
def readItems : Nat → List Char → Option (List Json × List Char)
  | 0, _ => none
  | fuel + 1, cs => do
    let (item, rest) ← readValue fuel cs
    match skipSpace rest with
    | ']' :: rest => return ([item], rest)
    | ',' :: rest =>
      let (items, rest) ← readItems fuel rest
      return (item :: items, rest)
    | _ => none

/-- The fields of an object up to its closing brace, at least one. -/
def readFields : Nat → List Char → Option (List (Option String × Json) × List Char)
  | 0, _ => none
  | fuel + 1, cs => do
    match skipSpace cs with
    | '"' :: rest =>
      let (key, rest) ← readText rest
      match skipSpace rest with
      | ':' :: rest =>
        let (value, rest) ← readValue fuel rest
        match skipSpace rest with
        | '}' :: rest => return ([(key, value)], rest)
        | ',' :: rest =>
          let (fields, rest) ← readFields fuel rest
          return ((key, value) :: fields, rest)
        | _ => none
      | _ => none
    | _ => none

end

/-- The document that a text consists of. Each level of reading consumes a character or passes to
a level that does, so twice the length of the text is fuel enough. -/
def read? (s : String) : Option Json := do
  let (value, rest) ← readValue (2 * s.length + 2) s.toList
  if (skipSpace rest).isEmpty then some value else none

end SymbolAtlas.Json
