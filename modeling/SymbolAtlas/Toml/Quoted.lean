import SymbolAtlas.Json.Reader

/-!
# Quoted TOML texts

A text stands between quotes, or between three of them if it may run over several lines. Double
quotes allow escapes, single ones do not. Every function takes the characters after the opening
quotes and gives back the text with the rest, or nothing.

* `readBasic`, `readLiteral`: texts on one line.
* `readLongBasic`, `readLongLiteral`: texts over several lines. The last three quotes of a run
  close the text, so it may end with one or two quotes. Line ends are read as line feeds.
-/

namespace SymbolAtlas.Toml

/-- A character that may stand in a text as it is. -/
def isTextChar (c : Char) : Bool := c == '\t' || (0x20 ≤ c.toNat && c.toNat ≠ 0x7F)

/-- A blank within a line. -/
def isBlank (c : Char) : Bool := c == ' ' || c == '\t'

/-- The character of an escape by one letter. -/
def letterEscape? (c : Char) : Option Char :=
  if c = '/' then none else Json.shortEscape? c

/-- The character with the number that hexadecimal digits denote. -/
def numbered? (digits : List Char) : Option Char := do
  let values ← digits.mapM Json.hexDigit?
  let n := values.foldl (fun n d => 16 * n + d) 0
  if n.isValidChar then some (Char.ofNat n) else none

/-- A character in front of what was read. -/
def pushChar (c : Char) (read : Option (List Char × List Char)) : Option (List Char × List Char) :=
  read.map fun (text, rest) => (c :: text, rest)

/-- A text with escapes. -/
def readBasic : List Char → Option (List Char × List Char)
  | [] => none
  | '"' :: rest => some ([], rest)
  | '\\' :: 'u' :: a :: b :: c :: d :: rest => do
    pushChar (← numbered? [a, b, c, d]) (readBasic rest)
  | '\\' :: 'U' :: a :: b :: c :: d :: e :: f :: g :: h :: rest => do
    pushChar (← numbered? [a, b, c, d, e, f, g, h]) (readBasic rest)
  | '\\' :: c :: rest => do pushChar (← letterEscape? c) (readBasic rest)
  | c :: rest => if isTextChar c && c ≠ '\\' then pushChar c (readBasic rest) else none

/-- A text without escapes. -/
def readLiteral : List Char → Option (List Char × List Char)
  | [] => none
  | '\'' :: rest => some ([], rest)
  | c :: rest => if isTextChar c then pushChar c (readLiteral rest) else none

/-- The rest after a line end, if there is one. -/
def afterLineEnd? : List Char → Option (List Char)
  | '\n' :: rest => some rest
  | '\r' :: '\n' :: rest => some rest
  | _ => none

/-- What is going on in a text over several lines. -/
inductive LongMode where
  /-- so many quotes have just been seen -/
  | quotes (count : Nat)
  /-- after a backslash at the end of a line, before the line end -/
  | lineEnd
  /-- after that line end: blanks and line ends are left out -/
  | skipping
  deriving DecidableEq, Repr

/-- Quotes in front of what was read. -/
def pushQuotes (quote : Char) (count : Nat) (read : Option (List Char × List Char)) :
    Option (List Char × List Char) :=
  read.map fun (text, rest) => (List.replicate count quote ++ text, rest)

/-- What ends with so many quotes before `rest`, if that is enough of them. -/
def closed? (quote : Char) (count : Nat) (rest : List Char) : Option (List Char × List Char) :=
  if 3 ≤ count then some (List.replicate (count - 3) quote, rest) else none

/-- A text without escapes over several lines, after so many quotes. -/
def readLongLiteralFrom : Nat → List Char → Option (List Char × List Char)
  | count, [] => closed? '\'' count []
  | count, '\'' :: rest => if count < 5 then readLongLiteralFrom (count + 1) rest else none
  | count, '\r' :: '\n' :: rest =>
    if 3 ≤ count then closed? '\'' count ('\r' :: '\n' :: rest)
    else pushQuotes '\'' count (pushChar '\n' (readLongLiteralFrom 0 rest))
  | count, c :: rest =>
    if 3 ≤ count then closed? '\'' count (c :: rest)
    else if isTextChar c || c == '\n' then
      pushQuotes '\'' count (pushChar c (readLongLiteralFrom 0 rest))
    else none

/-- A text with escapes over several lines. -/
def readLongBasicFrom : LongMode → List Char → Option (List Char × List Char)
  | .quotes count, [] => closed? '"' count []
  | .lineEnd, [] | .skipping, [] => none
  | .lineEnd, '\n' :: rest => readLongBasicFrom .skipping rest
  | .lineEnd, '\r' :: '\n' :: rest => readLongBasicFrom .skipping rest
  | .lineEnd, c :: rest => if isBlank c then readLongBasicFrom .lineEnd rest else none
  | .skipping, '\n' :: rest => readLongBasicFrom .skipping rest
  | .skipping, '\r' :: '\n' :: rest => readLongBasicFrom .skipping rest
  | mode, c :: rest =>
    if mode = .skipping && isBlank c then readLongBasicFrom .skipping rest
    else
      let count := match mode with
        | .quotes count => count
        | _ => 0
      if c = '"' then if count < 5 then readLongBasicFrom (.quotes (count + 1)) rest else none
      else if 3 ≤ count then closed? '"' count (c :: rest)
      else
        pushQuotes '"' count (match c, rest with
          | '\\', 'u' :: a :: b :: c :: d :: rest => do
            pushChar (← numbered? [a, b, c, d]) (readLongBasicFrom (.quotes 0) rest)
          | '\\', 'U' :: a :: b :: c :: d :: e :: f :: g :: h :: rest => do
            pushChar (← numbered? [a, b, c, d, e, f, g, h]) (readLongBasicFrom (.quotes 0) rest)
          | '\\', '\r' :: rest => readLongBasicFrom .lineEnd ('\r' :: rest)
          | '\\', c :: rest =>
            if isBlank c || c == '\n' then readLongBasicFrom .lineEnd (c :: rest)
            else do pushChar (← letterEscape? c) (readLongBasicFrom (.quotes 0) rest)
          | '\r', '\n' :: rest => pushChar '\n' (readLongBasicFrom (.quotes 0) rest)
          | c, rest =>
            if (isTextChar c && c ≠ '\\') || c == '\n' then
              pushChar c (readLongBasicFrom (.quotes 0) rest)
            else none)

/-- The text after a line end that follows the opening quotes. -/
def afterOpening (cs : List Char) : List Char := (afterLineEnd? cs).getD cs

/-- A text without escapes over several lines. -/
def readLongLiteral (cs : List Char) : Option (List Char × List Char) :=
  readLongLiteralFrom 0 (afterOpening cs)

/-- A text with escapes over several lines. -/
def readLongBasic (cs : List Char) : Option (List Char × List Char) :=
  readLongBasicFrom (.quotes 0) (afterOpening cs)

end SymbolAtlas.Toml
