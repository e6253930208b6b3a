import SymbolAtlas.Source.Declarator
import SymbolAtlas.Source.Specifier

/-!
# Reading declarators

* `declaredName?`: the name inside a declarator.
* `functionTail`: what follows the parameters of a function.
* `declarator?`: a declarator, for one of the `Site`s where declarators stand.
* `parameters`: the tokens between parentheses are a parameter list. A list that could also be
  arguments counts as parameters.
-/

namespace SymbolAtlas.Source

/-- Where a declarator stands. -/
inductive Site where
  /-- in a declaration outside of a class body, or in a parameter -/
  | plain
  /-- in a declaration of a class body -/
  | member
  /-- in a type definition -/
  | typeName
  deriving DecidableEq, Repr

/-- The rest after an abstract shape: pointers, references, and brackets. -/
def afterAbstract : Nat → Tokens → Tokens
  | 0, ts => ts
  | fuel + 1, ts =>
    match ts with
    | t :: rest =>
      if ["*", "&", "&&", "const", "volatile"].contains t.text then afterAbstract fuel rest
      else if t.text == "[" then afterAbstract fuel (afterGroup ts)
      else if t.text == "(" && startsWithAny ["*", "&", "&&"] rest then
        afterAbstract fuel (afterGroupOf "(" (afterGroup ts))
      else ts
    | [] => []

/-- The rest after a type with an abstract shape. -/
def afterTypeId (ts : Tokens) : Tokens :=
  let start := afterModifiers ts
  match typeSpecifier? start with
  | some (_, rest) =>
    let rest := afterModifiers rest
    afterAbstract rest.length rest
  | none => start

/-- The rest after what may follow the parameters of a function: qualifiers, an exception
specification, attributes, a trailing result type, virtual specifiers and a requires clause. -/
def functionTail : Nat → Tokens → Tokens
  | 0, ts => ts
  | fuel + 1, ts =>
    match afterAttribute? ts with
    | some rest => functionTail fuel rest
    | none =>
      match ts with
      | t :: rest =>
        if ["const", "volatile", "restrict", "constexpr", "&", "&&", "override", "final"].contains t.text
        then functionTail fuel rest
        else if ["noexcept", "throw", "__asm__", "__asm", "asm"].contains t.text ||
            attributeWords.contains t.text then
          functionTail fuel (afterGroupOf "(" rest)
        else if t.text == "->" then functionTail fuel (afterTypeId rest)
        else if t.text == "requires" then functionTail fuel (afterRequires ts)
        else ts
      | [] => []

/-- The marks that an operator function can be named after, parentheses and brackets apart. -/
def operatorMarks : List String :=
  ["+", "-", "*", "/", "%", "^", "&", "|", "~", "!", "=", "<", ">", "+=", "-=", "*=", "/=", "%=", "^=",
   "&=", "|=", "<<", ">>", "<<=", "==", "!=", "<=", "<=>", "&&", "||", "++", "--", ",", "->*", "->"]

/-- Words that an operator function can be named after. -/
def operatorWords : List String :=
  ["co_await", "xor", "bitand", "bitor", "compl", "not", "xor_eq", "and_eq", "or_eq", "not_eq", "and",
   "or"]

/-- The rest after closing angle brackets and an equals sign, which are tokens of their own. -/
def afterAngleMarks (ts : Tokens) : Tokens :=
  dropMark "=" (ts.dropWhile fun t => t.text == ">")

/-- The rest after the mark or the word of an operator function. -/
def afterOperator? : Tokens → Option Tokens
  | a :: b :: rest =>
    if (a.text == "(" && b.text == ")") || (a.text == "[" && b.text == "]") then some rest
    else if a.text == "new" || a.text == "delete" then
      match rest with
      | c :: more => if b.text == "[" && c.text == "]" then some more else some (b :: rest)
      | [] => some (b :: rest)
    else if a.kind == .quoted then some rest
    else if a.text == ">" then some (afterAngleMarks (b :: rest))
    else if operatorMarks.contains a.text || operatorWords.contains a.text then some (b :: rest)
    else none
  | _ => none

/-- The rest after the type of a conversion, with its empty parameter list and what follows it. -/
def afterConversion (ts : Tokens) : Tokens :=
  let start := afterModifiers ts
  match typeSpecifier? start with
  | some (_, rest) =>
    let rest := afterModifiers rest
    let rest := afterAbstract rest.length rest
    let rest := afterGroupOf "(" rest
    functionTail rest.length rest
  | none => start

/-- How the last part of a declared name is written. -/
inductive NameForm where
  | ordinary
  /-- with template arguments -/
  | templated
  /-- a conversion to a type, parameters included -/
  | conversion
  /-- a pointer to a member, with all that follows it -/
  | memberPointer
  deriving DecidableEq, Repr

/-- The end of a declared name after the scopes in front of it. -/
def afterNameEnd : Nat → Tokens → Option (NameForm × Tokens)
  | 0, _ => none
  | fuel + 1, ts =>
    match ts with
    | [] => none
    | t :: rest =>
      if t.text == "operator" then
        match afterOperator? rest with
        | some rest => some (.ordinary, rest)
        | none => some (.conversion, afterConversion rest)
      else if t.text == "~" then
        match rest with
        | n :: rest => if n.isName then some (.ordinary, rest) else none
        | [] => none
      else if t.text == "template" then afterNameEnd fuel rest
      else if !t.isName then none
      else
        match afterArguments? rest with
        | some rest => if startsWith "::" rest then afterScope fuel (rest.drop 1) else some (.templated, rest)
        | none => if startsWith "::" rest then afterScope fuel (rest.drop 1) else some (.ordinary, rest)
where
  /-- The end of a declared name after a scope, where a pointer to a member may stand. -/
  afterScope : Nat → Tokens → Option (NameForm × Tokens)
  | 0, _ => none
  | fuel + 1, ts =>
    match ts with
    | star :: rest =>
      if star.text == "*" then
        match rest.dropWhile fun t => t.text == "*" || t.text == "const" with
        | n :: rest => if n.isName then some (.memberPointer, rest) else none
        | [] => none
      else if primitiveTypes.contains star.text then some (.ordinary, rest)
      else afterNameEnd fuel ts
    | [] => none

/-- A declared name, whether it has scopes, its form, and the rest. -/
def declaredName? (ts : Tokens) : Option (Bool × NameForm × Tokens) :=
  let start := dropMark "::" ts
  let qualified := start.length < ts.length
  match afterNameEnd (2 * ts.length + 1) start with
  | none => none
  | some (form, rest) =>
    let read := between start rest
    some (qualified || read.any fun t => t.text == "::", form, rest)

/-- The rest of brackets that follow a pointer to a member. -/
def afterBrackets : Nat → Tokens → Tokens
  | 0, ts => ts
  | fuel + 1, ts =>
    if startsWithAny ["[", "("] ts then afterBrackets fuel (afterGroup ts) else ts

/-- The declarator of a bare name, and the rest. -/
def nameDeclarator? (site : Site) (ts : Tokens) : Option (Declarator × Tokens) :=
  match declaredName? ts with
  | some (qualified, form, rest) =>
    match form with
    | .ordinary => some (.name (spelling (between ts rest)), rest)
    | .templated =>
      if site = .member && !qualified then some (.unnamed, rest)
      else some (.name (spelling (between ts rest)), rest)
    | .conversion =>
      if qualified then some (.name (spelling (between ts rest)), rest) else some (.unnamed, rest)
    | .memberPointer =>
      let rest := afterBrackets rest.length rest
      some (.name (spelling (between ts rest)), rest)
  | none =>
    match site, ts with
    | .typeName, t :: rest =>
      if primitiveTypes.contains t.text || sizeWords.contains t.text then some (.unnamed, rest) else none
    | _, _ => none

/-- A value may be cut off after template arguments only where they are followed by one of these. -/
def valueMarks : List String := ["(", "::", "\x7b"]

/-- The rest after a value: up to a comma, a semicolon or the end. -/
def afterValue : Nat → Tokens → Tokens
  | 0, ts => ts
  | fuel + 1, ts =>
    match ts with
    | [] => []
    | t :: rest =>
      if t.text == "," || t.text == ";" then ts
      else if t.isOpen then
        match group? ts with
        | some (_, rest) => afterValue fuel rest
        | none => []
      else if t.isName then
        match afterArguments? rest with
        | some more =>
          if startsWithAny valueMarks more then afterValue fuel more else afterValue fuel rest
        | none => afterValue fuel rest
      else afterValue fuel rest

mutual

/-- A declarator, and the rest. -/
def declaratorFrom : Nat → Site → Tokens → Option (Declarator × Tokens)
  | 0, _, _ => none
  | fuel + 1, site, ts =>
    match ts with
    | [] => none
    | t :: rest =>
      if t.text == "*" then do
        let (inner, rest) ← declaratorFrom fuel site (afterModifiers rest)
        return (.pointer inner, rest)
      else if t.text == "&" || t.text == "&&" then do
        let (inner, rest) ← declaratorFrom fuel site (afterModifiers rest)
        return (.reference inner, rest)
      else if t.text == "..." then declaratorFrom fuel site rest
      else if t.text == "(" then do
        let (inside, rest) ← group? ts
        let base ← parenthesized fuel site inside
        return suffixes fuel base rest
      else if t.text == "[" then do
        let (_, rest) ← group? ts
        return (.unnamed, rest)
      else do
        let (base, rest) ← nameDeclarator? site ts
        return suffixes fuel base rest

/-- A declarator in parentheses, from what they enclose. -/
def parenthesized : Nat → Site → Tokens → Option Declarator
  | 0, _, _ => none
  | fuel + 1, site, inside =>
    match inside with
    | [] => none
    | t :: rest =>
      let start := if callWords.contains t.text then rest else inside
      match declaratorFrom fuel site start with
      | some (inner, []) =>
        if t.hasComment || callWords.contains t.text then some (.obscured inner)
        else some (.parenthesized inner)
      | _ => none

/-- Add the parameter lists, the array bounds and the attributes that follow a declarator. -/
def suffixes : Nat → Declarator → Tokens → Declarator × Tokens
  | 0, d, ts => (d, ts)
  | fuel + 1, d, ts =>
    match afterAttribute? ts with
    | some rest => suffixes fuel (.attributed d) rest
    | none =>
      match group? ts with
      | none => (d, ts)
      | some (inside, rest) =>
        if startsWith "[" ts then suffixes fuel (.array d) rest
        else if startsWith "(" ts && parameters fuel inside then
          suffixes fuel (.function d) (functionTail rest.length rest)
        else (d, ts)

/-- The tokens are a list of parameters, possibly empty. -/
def parameters : Nat → Tokens → Bool
  | 0, _ => false
  | fuel + 1, ts =>
    if ts.isEmpty then true
    else
      match afterParameter fuel ts with
      | some [] => true
      | some (t :: rest) =>
        if t.text == "," && !rest.isEmpty then parameters fuel rest
        else t.text == "..." && rest.isEmpty
      | none => false

/-- The rest after one parameter. -/
def afterParameter : Nat → Tokens → Option Tokens
  | 0, _ => none
  | fuel + 1, ts =>
    if startsWith "..." ts then some (ts.drop 1)
    else do
      let (_, rest) ← typeSpecifier? (afterModifiers (dropMark "this" ts))
      let rest := afterModifiers rest
      let rest := match declaratorFrom fuel .plain rest with
        | some (_, after) => if endsParameter after then after else afterUnnamed fuel rest
        | none => afterUnnamed fuel rest
      let rest := afterModifiers rest
      if startsWith "=" rest then some (afterValue rest.length (rest.drop 1))
      else if endsParameter rest then some rest
      else none

/-- A parameter can end here. -/
def endsParameter (ts : Tokens) : Bool :=
  ts.isEmpty || startsWithAny [",", "=", "...", "__attribute__"] ts || (afterAttribute? ts).isSome

/-- The rest after the shape of a parameter without a name. -/
def afterUnnamed : Nat → Tokens → Tokens
  | 0, ts => ts
  | fuel + 1, ts =>
    match ts with
    | t :: rest =>
      if ["*", "&", "&&", "..."].contains t.text then afterUnnamed fuel (afterModifiers rest)
      else if t.text == "[" then afterUnnamed fuel (afterGroup ts)
      else if t.text == "(" then
        match group? ts with
        | some (inside, rest) =>
          if parameters fuel inside then afterUnnamed fuel (functionTail rest.length rest)
          else if (afterUnnamed fuel inside).isEmpty && !inside.isEmpty then afterUnnamed fuel rest
          else if (parenthesized fuel .plain inside).isSome then afterUnnamed fuel rest
          else ts
        | none => ts
      else ts
    | [] => []

end

/-- The declarator at the start, and the rest. Each step consumes a token or passes to one that
does, so a few steps for each token are enough. -/
def declarator? (site : Site) (ts : Tokens) : Option (Declarator × Tokens) :=
  declaratorFrom (8 * ts.length + 8) site ts

end SymbolAtlas.Source
