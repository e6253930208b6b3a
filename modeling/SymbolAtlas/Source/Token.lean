import SymbolAtlas.Text.Blank

/-!
# Tokens of a source file

A token keeps its text and the comments in front of it: comments are no part of the grammar, but
they count in the spelling of a name that runs around them.

* `Token`: one token.
* `spelling`: the text of several tokens without its blanks.
* `afterClose`, `group?`: what a bracket encloses.
* `afterAngle`, `afterArguments`: what follows a list of template arguments.
-/

namespace SymbolAtlas.Source

/-- What kind of token it is. -/
inductive TokenKind where
  /-- a keyword or an identifier -/
  | word
  | number
  /-- a text or character literal -/
  | quoted
  /-- an operator or a separator -/
  | mark
  /-- an include directive -/
  | inclusion (path : String) (system : Bool)
  deriving DecidableEq, Repr

/-- A token. -/
structure Token where
  kind : TokenKind
  /-- the text; empty for a directive -/
  text : String
  /-- comments and line continuations in front -/
  lead : String
  deriving DecidableEq, Repr

/-- Tokens that are still to be read. -/
abbrev Tokens := List Token

namespace Token

/-- A comment stands in front of the token. -/
def hasComment (t : Token) : Bool := t.lead.toList.contains '/'

/-- An opening bracket. -/
def isOpen (t : Token) : Bool := t.text == "(" || t.text == "[" || t.text == "\x7b"

/-- A closing bracket. -/
def isClose (t : Token) : Bool := t.text == ")" || t.text == "]" || t.text == "\x7d"

end Token

/-- The first token has the given text. -/
def startsWith (text : String) : Tokens → Bool
  | t :: _ => t.text == text
  | [] => false

/-- The first token has one of the given texts. -/
def startsWithAny (texts : List String) : Tokens → Bool
  | t :: _ => texts.contains t.text
  | [] => false

/-- The rest after a token with the given text. -/
def expect? (text : String) : Tokens → Option Tokens
  | t :: ts => if t.text == text then some ts else none
  | [] => none

/-- The rest after a token with the given text, if there is one. -/
def dropMark (text : String) (ts : Tokens) : Tokens := (expect? text ts).getD ts

/-- The text of tokens, with the comments between them and without blanks. -/
def spelling : Tokens → String
  | [] => ""
  | first :: rest =>
    Text.compact (first.text ++ String.join (rest.map fun t => t.lead ++ t.text))

/-- The tokens that were read between two points. -/
def between (before after : Tokens) : Tokens := before.take (before.length - after.length)

/-- What follows the bracket that closes the one just read; `depth` more brackets are open. -/
def afterClose (depth : Nat) : Tokens → Option Tokens
  | [] => none
  | t :: ts =>
    if t.isOpen then afterClose (depth + 1) ts
    else if t.isClose then
      match depth with
      | 0 => some ts
      | depth + 1 => afterClose depth ts
    else afterClose depth ts

/-- The tokens inside the bracket at the start, and those after it. -/
def group? : Tokens → Option (Tokens × Tokens)
  | t :: ts =>
    if t.isOpen then (afterClose 0 ts).map fun rest => ((between ts rest).dropLast, rest) else none
  | [] => none

/-- What follows the bracket at the start, if there is one. -/
def afterGroup (ts : Tokens) : Tokens := ((group? ts).map Prod.snd).getD ts

/-- What follows a bracket of the given kind at the start, if there is one. -/
def afterGroupOf (bracket : String) (ts : Tokens) : Tokens :=
  if startsWith bracket ts then afterGroup ts else ts

/-- What follows the angle bracket that closes the one just read. `angles` tells for each open
bracket, innermost first, whether it is an angle bracket; only then do angle brackets count. -/
def afterAngle : List Bool → Tokens → Option Tokens
  | _, [] => none
  | angles, t :: ts =>
    if t.isOpen then afterAngle (false :: angles) ts
    else
      match angles with
      | [] => none
      | false :: outer => if t.isClose then afterAngle outer ts else afterAngle angles ts
      | true :: outer =>
        if t.isClose || t.text == ";" then none
        else if t.text == "<" then afterAngle (true :: angles) ts
        else if t.text == ">" then (if outer.isEmpty then some ts else afterAngle outer ts)
        else afterAngle angles ts

/-- What follows a list of template arguments at the start. -/
def afterArguments? (ts : Tokens) : Option Tokens :=
  (expect? "<" ts).bind (afterAngle [true])

/-- What follows a list of template arguments at the start, if there is one. -/
def afterArguments (ts : Tokens) : Tokens := (afterArguments? ts).getD ts

/-- What follows attributes in double brackets at the start. -/
def afterAttribute? : Tokens → Option Tokens
  | a :: b :: rest =>
    if a.text == "[" && b.text == "[" then some (afterGroup (a :: b :: rest)) else none
  | _ => none

end SymbolAtlas.Source
