import SymbolAtlas.Source.Shape

/-!
# Recognizing expressions

A statement that starts with the name of a type and a parenthesis can be a declaration or an
expression; where it can be both, it is an expression. Only the tokens have to be told apart, so an
expression is recognized and not kept.

* `isExpression`: the tokens form one expression. Outside of all braces an expression cannot be a
  binary operation or a list with commas; `Strictness` tells which of the two are allowed.
-/

namespace SymbolAtlas.Source

/-- What an expression may consist of. -/
inductive Strictness where
  /-- no binary operation at the outside -/
  | unary
  /-- a binary operation, but no list with commas -/
  | binary
  /-- anything -/
  | list
  deriving DecidableEq, Repr

/-- Operators in front of their operand. -/
def prefixMarks : List String := ["*", "&", "&&", "!", "~", "-", "+", "++", "--", "not", "compl"]

/-- Operators between two operands. -/
def binaryMarks : List String :=
  ["+", "-", "*", "/", "%", "^", "&", "|", "<", ">", "<<", "==", "!=", "<=", "<=>", "&&", "||", "and",
   "or", "xor", "bitand", "bitor", "not_eq"]

/-- Operators that assign. -/
def assignMarks : List String := ["=", "+=", "-=", "*=", "/=", "%=", "^=", "&=", "|=", "<<="]

/-- Words that are operands by themselves. -/
def constantWords : List String := ["true", "false", "nullptr", "NULL", "this"]

/-- Words in front of an operand. -/
def operandWords : List String :=
  ["sizeof", "alignof", "_Alignof", "delete", "co_await", "noexcept", "throw"]

/-- The tokens are a type with an abstract shape, as in a cast. -/
def isTypeId (ts : Tokens) : Bool := !ts.isEmpty && (afterTypeId ts).isEmpty

/-- The rest after a binary operator. -/
def afterBinaryMark? : Tokens → Option Tokens
  | a :: b :: rest =>
    if a.text == ">" && (b.text == ">" || b.text == "=") then some rest
    else if binaryMarks.contains a.text then some (b :: rest)
    else none
  | _ => none

mutual

/-- The rest after an expression. -/
def afterExpression : Nat → Strictness → Tokens → Option Tokens
  | 0, _, _ => none
  | fuel + 1, strictness, ts => do
    let rest ← afterOperand fuel ts
    afterOperators fuel strictness rest

/-- The rest after the operators and operands that follow an operand. -/
def afterOperators : Nat → Strictness → Tokens → Option Tokens
  | 0, _, _ => none
  | fuel + 1, strictness, ts =>
    match ts with
    | [] => some []
    | t :: rest =>
      if assignMarks.contains t.text then
        if startsWith "\x7b" rest then afterOperators fuel strictness (afterGroup rest)
        else
          match afterExpression fuel .binary rest with
          | some rest => afterOperators fuel strictness rest
          | none => none
      else if t.text == "?" then do
        let rest ← afterExpression fuel .list rest
        let rest ← expect? ":" rest
        let rest ← afterExpression fuel .binary rest
        afterOperators fuel strictness rest
      else if t.text == "," && strictness = .list then afterExpression fuel .list rest
      else if strictness = .unary then some ts
      else
        match afterBinaryMark? ts with
        | some rest => do
          let rest ← afterOperand fuel rest
          afterOperators fuel strictness rest
        | none => some ts

/-- The rest after an operand. -/
def afterOperand : Nat → Tokens → Option Tokens
  | 0, _ => none
  | fuel + 1, ts =>
    match ts with
    | [] => none
    | t :: rest =>
      if prefixMarks.contains t.text then afterOperand fuel rest
      else if t.text == "sizeof" && startsWith "..." rest then some (afterGroup (rest.drop 1))
      else if operandWords.contains t.text then
        match group? rest with
        | some (inside, after) =>
          if isTypeId inside then some (afterPostfix fuel after) else afterOperand fuel rest
        | none => afterOperand fuel rest
      else if t.text == "new" then
        let rest := afterTypeId (afterGroupOf "(" rest)
        some (afterPostfix fuel rest)
      else if t.text == "(" then
        match group? ts with
        | some (inside, after) =>
          if afterExpression fuel .list inside == some [] then some (afterPostfix fuel after)
          else if isTypeId inside then
            if startsWith "\x7b" after then some (afterPostfix fuel (afterGroup after))
            else afterOperand fuel after
          else none
        | none => none
      else if t.text == "[" then
        let rest := afterGroupOf "(" (afterGroup ts)
        let rest := functionTail rest.length rest
        if startsWith "\x7b" rest then some (afterPostfix fuel (afterGroup rest)) else none
      else if t.kind == .number || constantWords.contains t.text then some (afterPostfix fuel rest)
      else if t.kind == .quoted then
        some (afterPostfix fuel (rest.dropWhile fun t => t.kind == .quoted || t.isName))
      else if primitiveTypes.contains t.text then
        if startsWithAny ["(", "\x7b"] rest then some (afterPostfix fuel rest) else none
      else
        match declaredName? ts with
        | some (_, form, rest) =>
          if form = .ordinary || form = .templated then some (afterPostfix fuel rest) else none
        | none => none

/-- The rest after calls, subscripts, member accesses and steps that follow an operand. -/
def afterPostfix : Nat → Tokens → Tokens
  | 0, ts => ts
  | fuel + 1, ts =>
    match ts with
    | [] => []
    | t :: rest =>
      if t.text == "(" then
        match group? ts with
        | some (inside, after) =>
          if areArguments fuel inside then afterPostfix fuel after else ts
        | none => ts
      else if t.text == "[" then
        match group? ts with
        | some (inside, after) =>
          if afterExpression fuel .list inside == some [] then afterPostfix fuel after else ts
        | none => ts
      else if t.text == "\x7b" then afterPostfix fuel (afterGroup ts)
      else if [".", "->", ".*", "->*"].contains t.text then
        match declaredName? rest with
        | some (_, _, rest) => afterPostfix fuel rest
        | none => ts
      else if t.text == "++" || t.text == "--" || t.text == "..." then afterPostfix fuel rest
      else ts

/-- The tokens are a list of arguments, possibly empty. -/
def areArguments : Nat → Tokens → Bool
  | 0, _ => false
  | fuel + 1, ts =>
    if ts.isEmpty then true
    else
      let after := if startsWith "\x7b" ts then some (afterGroup ts) else afterExpression fuel .binary ts
      match after with
      | some [] => true
      | some (t :: rest) => t.text == "," && !rest.isEmpty && areArguments fuel rest
      | none => false

end

/-- The tokens form one expression. -/
def isExpression (strictness : Strictness) (ts : Tokens) : Bool :=
  afterExpression (8 * ts.length + 8) strictness ts == some []

end SymbolAtlas.Source
