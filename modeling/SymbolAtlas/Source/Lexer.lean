import SymbolAtlas.Source.Token

/-!
# Reading tokens

Comments, line continuations and blanks separate tokens. Of the directives only include directives
become tokens. Conditional directives hide nothing: the lines of every branch are read one after
the other. All other directives are passed over to the end of their line.

A closing angle bracket is always a token of its own, so that two of them can close two lists of
template arguments.

* `tokens`: the tokens of a source text.
-/

namespace SymbolAtlas.Source.Lexer

/-- What stands for bytes that are no text. -/
def replacement : Char := '\uFFFD'

/-- A blank between tokens; what stands for bytes that are no text is passed over like one. -/
def isGap (c : Char) : Bool :=
  c == ' ' || c == '\t' || c == '\n' || c == '\r' || c == '\x0b' || c == '\x0c' || c == replacement

/-- A character that a word can start with. -/
def isWordStart (c : Char) : Bool :=
  c.isAlpha || c == '_' || c == '$' || (0x80 ≤ c.toNat && c ≠ replacement)

/-- A character inside a word. -/
def isWordChar (c : Char) : Bool := isWordStart c || c.isDigit

/-- The text of a comment to the end of its line, which a backslash continues, and the rest. -/
def lineComment : List Char → List Char × List Char
  | [] => ([], [])
  | '\n' :: cs => ([], '\n' :: cs)
  | '\\' :: '\r' :: '\n' :: cs =>
    let (text, rest) := lineComment cs
    ('\\' :: text, rest)
  | '\\' :: c :: cs =>
    let (text, rest) := lineComment cs
    ('\\' :: c :: text, rest)
  | c :: cs =>
    let (text, rest) := lineComment cs
    (c :: text, rest)

/-- The text of a comment to its end mark, and the rest. -/
def blockComment : List Char → List Char × List Char
  | [] => ([], [])
  | '*' :: '/' :: cs => (['*', '/'], cs)
  | c :: cs =>
    let (text, rest) := blockComment cs
    (c :: text, rest)

/-- The text of a literal to its closing quote, and the rest. -/
def quoted (quote : Char) : List Char → List Char × List Char
  | [] => ([], [])
  | '\\' :: c :: cs =>
    let (text, rest) := quoted quote cs
    ('\\' :: c :: text, rest)
  | c :: cs =>
    if c = quote then ([c], cs)
    else
      let (text, rest) := quoted quote cs
      (c :: text, rest)

/-- The text of a raw literal to the given end, and the rest. -/
def rawText (ending : List Char) : List Char → List Char × List Char
  | [] => ([], [])
  | c :: cs =>
    if ending.isPrefixOf (c :: cs) then (ending, (c :: cs).drop ending.length)
    else
      let (text, rest) := rawText ending cs
      (c :: text, rest)

/-- A raw literal after its opening quote: a delimiter, then text up to the same delimiter. -/
def rawQuoted (cs : List Char) : List Char × List Char :=
  let delimiter := cs.takeWhile (· ≠ '(')
  let (text, rest) := rawText (')' :: delimiter ++ ['"']) (cs.drop (delimiter.length + 1))
  (delimiter ++ '(' :: text, rest)

/-- The text of a number, and the rest. A sign belongs to it after the letter of an exponent. -/
def number : List Char → List Char × List Char
  | [] => ([], [])
  | e :: sign :: cs =>
    if "eEpP".toList.contains e && "+-".toList.contains sign then
      let (text, rest) := number cs
      (e :: sign :: text, rest)
    else if isWordChar e || e == '.' || (e == '\'' && isWordChar sign) then
      let (text, rest) := number (sign :: cs)
      (e :: text, rest)
    else ([], e :: sign :: cs)
  | [c] => if isWordChar c || c == '.' then ([c], []) else ([], [c])

/-- Words that can stand before the quote of a literal. -/
def literalMarks : List String := ["L", "u", "U", "u8"]

/-- Words that can stand before the quote of a raw literal. -/
def rawMarks : List String := ["R", "LR", "uR", "UR", "u8R"]

/-- Operators of more than one character, the longer ones first. -/
def longMarks : List String :=
  ["...", "->*", "<<=", "<=>", "->", "++", "--", "<<", "<=", "==", "!=", "&&", "||", "+=", "-=", "*=",
   "/=", "%=", "^=", "&=", "|=", "::", ".*"]

/-- The operator at the start. -/
def mark (cs : List Char) : List Char :=
  match longMarks.find? fun m => m.toList.isPrefixOf cs with
  | some m => m.toList
  | none => cs.take 1

/-- The rest after the line of a directive. A backslash continues the line, and a comment that
starts in it is passed over as a whole. -/
def afterLine : List Char → List Char
  | [] => []
  | '\n' :: cs => '\n' :: cs
  | '\\' :: '\r' :: '\n' :: cs => afterLine cs
  | '\\' :: '\n' :: cs => afterLine cs
  | '/' :: '*' :: cs => afterBlock cs
  | '/' :: '/' :: cs => afterLine cs
  | _ :: cs => afterLine cs
where
  /-- The rest after a comment in the line, and after the line. -/
  afterBlock : List Char → List Char
  | [] => []
  | '*' :: '/' :: cs => afterLine cs
  | _ :: cs => afterBlock cs

/-- The rest after the line of a condition, where a line comment ends the line. -/
def afterCondition : List Char → List Char
  | [] => []
  | '\n' :: cs => '\n' :: cs
  | '\\' :: '\r' :: '\n' :: cs => afterCondition cs
  | '\\' :: '\n' :: cs => afterCondition cs
  | '/' :: '*' :: cs => afterBlock cs
  | '/' :: '/' :: cs => (lineComment cs).2
  | _ :: cs => afterCondition cs
where
  /-- The rest after a comment in the line, and after the line. -/
  afterBlock : List Char → List Char
  | [] => []
  | '*' :: '/' :: cs => afterCondition cs
  | _ :: cs => afterBlock cs

/-- The rest after blanks and comments; `fuel` bounds the number of steps. -/
def afterGaps : Nat → List Char → List Char
  | 0, cs => cs
  | fuel + 1, cs =>
    match cs with
    | '/' :: '*' :: rest => afterGaps fuel (blockComment rest).2
    | '\\' :: '\n' :: rest => afterGaps fuel rest
    | '\\' :: '\r' :: '\n' :: rest => afterGaps fuel rest
    | c :: rest => if isGap c then afterGaps fuel rest else c :: rest
    | [] => []

/-- A path in angle brackets, after the opening one, without brackets at its end. -/
def systemPath (cs : List Char) : List Char × List Char :=
  let path := cs.takeWhile fun c => c ≠ '>' && c ≠ '\n'
  (path.dropWhile (· = '<'), cs.drop (path.length + 1))

/-- A text without quotes at its ends. -/
def trimQuotes (cs : List Char) : List Char :=
  ((cs.dropWhile (· = '"')).reverse.dropWhile (· = '"')).reverse

/-- The path of an include directive and the rest; a path that is not written out gives none. -/
def includePath (cs : List Char) : Option TokenKind × List Char :=
  let start := cs.takeWhile isWordChar
  match cs.drop start.length with
  | '<' :: rest =>
    let (path, rest) := systemPath rest
    (some (.inclusion (String.ofList path) true), rest)
  | '"' :: rest =>
    let (text, rest) := quoted '"' rest
    (some (.inclusion (String.ofList (trimQuotes (start ++ '"' :: text))) false), rest)
  | _ => (none, afterLine cs)

/-- What a directive adds and the rest after it, given its word and what follows the word. -/
def directive (word : String) (cs : List Char) : Option TokenKind × List Char :=
  if word == "include" then includePath (afterGaps cs.length cs)
  else if ["ifdef", "ifndef", "elifdef", "elifndef"].contains word then
    (none, (afterGaps cs.length cs).dropWhile isWordChar)
  else if word == "if" || word == "elif" then (none, afterCondition cs)
  else if word == "else" || word == "endif" then (none, cs)
  else (none, afterLine cs)

/-- The tokens of a text, where `lead` holds the comments before the next token. -/
def tokensFrom : Nat → List Char → List Char → Tokens
  | 0, _, _ => []
  | fuel + 1, lead, cs =>
    let emit := fun (kind : TokenKind) (text rest : List Char) =>
      (⟨kind, String.ofList text, String.ofList lead⟩ : Token) :: tokensFrom fuel [] rest
    match cs with
    | [] => []
    | '\\' :: '\n' :: rest => tokensFrom fuel (lead ++ ['\\']) rest
    | '\\' :: '\r' :: '\n' :: rest => tokensFrom fuel (lead ++ ['\\']) rest
    | '/' :: '/' :: rest =>
      let (text, rest) := lineComment rest
      tokensFrom fuel (lead ++ '/' :: '/' :: text) rest
    | '/' :: '*' :: rest =>
      let (text, rest) := blockComment rest
      tokensFrom fuel (lead ++ '/' :: '*' :: text) rest
    | '#' :: rest =>
      let start := rest.dropWhile fun c => c == ' ' || c == '\t'
      let word := start.takeWhile isWordChar
      match directive (String.ofList word) (start.drop word.length) with
      | (some kind, rest) => emit kind [] rest
      | (none, rest) => tokensFrom fuel lead rest
    | '"' :: rest =>
      let (text, rest) := quoted '"' rest
      emit .quoted ('"' :: text) rest
    | '\'' :: rest =>
      let (text, rest) := quoted '\'' rest
      emit .quoted ('\'' :: text) rest
    | c :: rest =>
      if isGap c then tokensFrom fuel lead rest
      else if isWordStart c then
        let word := cs.takeWhile isWordChar
        let rest := cs.drop word.length
        match rest with
        | '"' :: after =>
          if literalMarks.contains (String.ofList word) then
            let (text, rest) := quoted '"' after
            emit .quoted (word ++ '"' :: text) rest
          else if rawMarks.contains (String.ofList word) then
            let (text, rest) := rawQuoted after
            emit .quoted (word ++ '"' :: text) rest
          else emit .word word rest
        | '\'' :: after =>
          if literalMarks.contains (String.ofList word) then
            let (text, rest) := quoted '\'' after
            emit .quoted (word ++ '\'' :: text) rest
          else emit .word word rest
        | _ => emit .word word rest
      else if c.isDigit || (c == '.' && rest.head?.any Char.isDigit) then
        let (text, rest) := number cs
        emit .number text rest
      else
        let m := mark cs
        emit .mark m (cs.drop m.length)

/-- The tokens of a source text. Every step consumes a character, so the length of the text is
fuel enough. A byte order mark at the start is passed over. -/
def tokens (source : String) : Tokens :=
  let cs := source.toList
  let cs := if cs.head? == some '\uFEFF' then cs.drop 1 else cs
  tokensFrom (cs.length + 1) [] cs

end SymbolAtlas.Source.Lexer
