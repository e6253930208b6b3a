import SymbolAtlas.Source.Expression
import SymbolAtlas.Source.Extraction
import SymbolAtlas.Source.Lexer

/-!
# Reading the items of a C or C++ source

The reader goes through the tokens of a well-formed source, item by item. It keeps what the index
wants to know and passes over the rest. What an item can be depends on its `Place`.

* `read`: the items of a source text.
* `extract`: what a source text declares and includes.

Some sources can be read in two ways. These rules decide:

* A declarator in parentheses directly after a bare type gives way to an expression.
* A list that can be parameters is not a list of arguments.
* Empty braces between a declarator of a function with a result type and a semicolon are an initial
  value.
* A defaulted or deleted function is a definition if it has no result type or stands in a class;
  elsewhere what follows the equals sign is an initial value.
-/

namespace SymbolAtlas.Source

/-- Where an item stands. -/
inductive Place where
  /-- outside of all braces -/
  | outside
  /-- in a namespace or in a linkage block -/
  | block
  /-- in a class body -/
  | member
  /-- after a template head -/
  | template
  deriving DecidableEq, Repr

namespace Place

/-- The site of the declarators of an item. -/
def site : Place → Site
  | .member => .member
  | _ => .plain

/-- Expressions are items. -/
def hasExpressions : Place → Bool
  | .outside | .block => true
  | .member | .template => false

/-- What an expression that is an item may consist of. -/
def strictness : Place → Strictness
  | .outside => .unary
  | _ => .list

end Place

namespace Declarator

/-- A function is somewhere among the shapes. -/
def wrapsFunction : Declarator → Bool
  | .function _ => true
  | .name _ | .unnamed => false
  | .pointer inner | .reference inner | .array inner | .parenthesized inner | .obscured inner
  | .attributed inner | .initialized inner => inner.wrapsFunction

end Declarator

/-! ### Statements -/

/-- The rest from the next semicolon on; `depth` brackets are open. -/
def toSemicolon (depth : Nat) : Tokens → Tokens
  | [] => []
  | t :: ts =>
    if t.isOpen then toSemicolon (depth + 1) ts
    else if t.isClose then toSemicolon (depth - 1) ts
    else if t.text == ";" && depth == 0 then t :: ts
    else toSemicolon depth ts

/-- The rest after the next semicolon. -/
def afterSemicolon (ts : Tokens) : Tokens := (toSemicolon 0 ts).drop 1

/-- The rest after the handlers of a try block. -/
def afterHandlers : Nat → Tokens → Tokens
  | 0, ts => ts
  | fuel + 1, ts =>
    match expect? "catch" ts with
    | some rest => afterHandlers fuel (afterGroupOf "\x7b" (afterGroupOf "(" rest))
    | none => ts

/-- The rest after a statement. -/
def afterStatementFrom : Nat → Tokens → Tokens
  | 0, ts => ts
  | fuel + 1, ts =>
    match ts with
    | [] => []
    | t :: rest =>
      if t.text == "\x7b" then afterGroup ts
      else if ["if", "while", "for", "switch"].contains t.text then
        let head := afterGroupOf "(" (dropMark "constexpr" rest)
        let rest := afterStatementFrom fuel head
        if t.text == "if" && startsWith "else" rest then afterStatementFrom fuel (rest.drop 1) else rest
      else if t.text == "do" then afterSemicolon (afterStatementFrom fuel rest)
      else if t.text == "try" then
        let rest := afterGroup rest
        afterHandlers rest.length rest
      else if t.text == "case" || t.text == "default" then
        afterStatementFrom fuel ((rest.dropWhile fun t => t.text != ":").drop 1)
      else afterSemicolon ts

/-- The rest after a statement. -/
def afterStatement (ts : Tokens) : Tokens := afterStatementFrom ts.length ts

/-- Words that a statement starts with. -/
def statementWords : List String :=
  ["if", "else", "for", "while", "do", "switch", "case", "default", "return", "break", "continue",
   "goto", "try", "throw", "co_return", "co_yield", "co_await", "static_assert", "_Static_assert",
   "asm", "__asm__", "__asm", "concept", "\x7b"]

/-! ### Functions -/

/-- The rest after the initial values that a constructor gives to members. -/
def afterMemberValues : Nat → Tokens → Option Tokens
  | 0, _ => none
  | fuel + 1, ts => do
    let rest ← afterTypeName? ts
    let (_, rest) ← group? rest
    let rest := dropMark "..." rest
    match expect? "," rest with
    | some rest => afterMemberValues fuel rest
    | none => some rest

/-- The rest after a body in braces. -/
def afterBraces? (ts : Tokens) : Option Tokens := (body? ts).map Prod.snd

/-- The rest after a function body, with the initial values of members before it. -/
def afterFunctionBody? (ts : Tokens) : Option Tokens := do
  let withHandlers := startsWith "try" ts
  let rest := dropMark "try" ts
  let rest ← match expect? ":" rest with
    | some values => afterMemberValues values.length values
    | none => some rest
  let rest ← afterBraces? rest
  return if withHandlers then afterHandlers rest.length rest else rest

/-- The rest after a clause that stands for a function body: an equals sign, one of the given words
and a semicolon. -/
def afterClause? (words : List String) : Tokens → Option Tokens
  | equals :: word :: semicolon :: rest =>
    if equals.text == "=" && words.contains word.text && semicolon.text == ";" then some rest else none
  | _ => none

/-- A function or a conversion without a result type. -/
def untyped? (place : Place) (m : Modifiers) (ts : Tokens) : Option (List Item × Tokens) := do
  let (_, form, afterName) ← declaredName? ts
  if form = .conversion then
    let (d, _) ← nameDeclarator? .plain ts
    match afterFunctionBody? afterName with
    | some rest => return ([.function m.isStatic d (between afterName rest)], rest)
    | none =>
      if startsWithAny [";", "="] afterName then
        return ([.declaration .plain m.isStatic m.isExternal [d]], afterSemicolon afterName)
      else none
  else
    match declarator? .plain ts with
    | some (.function d, rest) =>
      match afterFunctionBody? rest with
      | some after => return ([.function m.isStatic (.function d) (between rest after)], after)
      | none =>
        match afterClause? ["default", "delete", "0"] rest with
        | some after => return ([.function m.isStatic (.function d) []], after)
        | none =>
          if startsWith ";" rest && !place.hasExpressions then
            return ([.declaration .plain m.isStatic m.isExternal [.function d]], rest.drop 1)
          else none
    | _ => none

/-! ### Declarators with values -/

/-- A declarator with its initial value. In a class body a value does not change the declarator. -/
def valued (place : Place) (d : Declarator) (ts : Tokens) : Declarator × Tokens :=
  let set := if place = .member then d else .initialized d
  if startsWith "=" ts then (set, afterValue ts.length (ts.drop 1))
  else if startsWith "\x7b" ts then (set, afterGroup ts)
  else if startsWith "(" ts && place ≠ .member then (set, afterGroup ts)
  else if startsWith ":" ts && place = .member then (d, afterValue ts.length (ts.drop 1))
  else (d, ts)

/-- The rest after annotations that follow a declarator. -/
def afterAnnotations : Nat → Tokens → Tokens
  | 0, ts => ts
  | fuel + 1, ts =>
    match ts with
    | t :: rest =>
      if attributeWords.contains t.text || ["asm", "__asm__", "__asm"].contains t.text then
        afterAnnotations fuel (afterGroupOf "(" rest)
      else ts
    | [] => []

/-- Declarators up to a semicolon, and the rest after it. -/
def declarators? : Nat → Site → Place → Tokens → Option (List Declarator × Tokens)
  | 0, _, _, _ => none
  | fuel + 1, site, place, ts => do
    let (d, rest) ← declarator? site (afterModifiers ts)
    let (d, rest) := valued place d (afterAnnotations rest.length rest)
    match afterAnnotations rest.length rest with
    | t :: rest =>
      if t.text == ";" then return ([d], rest)
      else if t.text == "," then
        let (more, rest) ← declarators? fuel site place rest
        return (d :: more, rest)
      else none
    | [] => none

/-! ### Items -/

/-- A function definition with a result type, after the type. -/
def definition? (place : Place) (m : Modifiers) (ts : Tokens) : Option (List Item × Tokens) := do
  let (d, rest) ← declarator? place.site ts
  if !d.wrapsFunction then none
  else if startsWith "\x7b" rest then
    let (inside, after) ← group? rest
    if inside.isEmpty && startsWithAny [";", ","] after then none
    else return ([.function m.isStatic d inside], after)
  else if startsWith "try" rest then
    let after ← afterFunctionBody? rest
    return ([.function m.isStatic d (between rest after)], after)
  else if place = .member then
    let after ← afterClause? ["default", "delete"] rest
    return ([.function m.isStatic d []], after)
  else none

/-- The name that a using declaration gives to a type, after the word. -/
def aliasOf (ts : Tokens) : List Item :=
  match ts with
  | t :: rest => if t.isName && startsWith "=" (afterModifiers rest) then [.typeAlias t.text] else [.other]
  | [] => []

mutual

/-- The items of the tokens. -/
def itemsFrom : Nat → Place → Tokens → List Item
  | 0, _, _ => []
  | fuel + 1, place, ts =>
    match ts with
    | [] => []
    | _ :: next =>
      let (items, rest) := itemFrom fuel place ts
      items ++ itemsFrom fuel place (if rest.length < ts.length then rest else next)

/-- The items that one construct stands for, and the rest. -/
def itemFrom : Nat → Place → Tokens → List Item × Tokens
  | 0, _, ts => ([], ts)
  | fuel + 1, place, ts =>
    match ts with
    | [] => ([], [])
    | t :: rest =>
      match t.kind with
      | .inclusion path system => (if place = .member then [] else [.inclusion path system], rest)
      | _ =>
        if t.text == ";" || t.isClose then ([], rest)
        else if t.text == "namespace" then namespaceFrom fuel rest
        else if t.text == "inline" && startsWith "namespace" rest then namespaceFrom fuel (rest.drop 1)
        else if t.text == "using" then (aliasOf rest, afterSemicolon rest)
        else if t.text == "typedef" then (typeDefinition fuel rest).getD ([.other], afterStatement ts)
        else if t.text == "__extension__" && startsWith "typedef" rest then itemFrom fuel place rest
        else if t.text == "template" then
          match afterArguments? rest with
          | some rest =>
            let (items, rest) := itemFrom fuel .template (afterRequires rest)
            ([.group items], rest)
          | none => ([.other], afterSemicolon rest)
        else if t.text == "extern" && rest.head?.any (fun s => s.kind == .quoted) then
          match body? (rest.drop 1) with
          | some (inside, rest) => ([.group (itemsFrom fuel .block inside)], rest)
          | none =>
            let (items, rest) := itemFrom fuel .block (rest.drop 1)
            ([.group items], rest)
        else if t.text == "friend" then ([.other], (itemFrom fuel place rest).2)
        else if ["public", "private", "protected"].contains t.text then ([], dropMark ":" rest)
        else if statementWords.contains t.text then ([.other], afterStatement ts)
        else if t.isName && startsWith ":" rest && place ≠ .member then
          ([.other], (itemFrom fuel place (rest.drop 1)).2)
        else (declaration fuel place ts).getD ([.other], afterSemicolon ts)

/-- A namespace or an alias of one, after the word. -/
def namespaceFrom : Nat → Tokens → List Item × Tokens
  | 0, ts => ([], ts)
  | fuel + 1, ts =>
    let start := (afterAttribute? ts).getD ts
    let name := start.takeWhile fun t => t.text != "\x7b" && t.text != "=" && t.text != ";"
    match body? (start.drop name.length) with
    | some (inside, rest) =>
      let text := spelling name
      ([.scope (if name.isEmpty then none else some text) (itemsFrom fuel .block inside)], rest)
    | none => ([.other], afterSemicolon start)

/-- A function definition or a declaration. -/
def declaration : Nat → Place → Tokens → Option (List Item × Tokens)
  | 0, _, _ => none
  | fuel + 1, place, ts =>
    let (before, start) := modifiers ts
    match untyped? place before start with
    | some found => some found
    | none => do
      let (type, rest) ← typeSpecifier? start
      let (after, rest) := modifiers rest
      let m := before.both after
      let type := typeItem fuel type
      let statement := between ts (toSemicolon 0 ts)
      if startsWith ";" rest then return ([.type type], rest.drop 1)
      else if place.hasExpressions && m.isEmpty && startsWith "(" rest &&
          isExpression place.strictness statement then
        return ([.other], afterSemicolon ts)
      else if place = .member && startsWith ":" rest then return ([.type type], afterSemicolon rest)
      else
        match definition? place m rest with
        | some found => return found
        | none =>
          let (ds, rest) ← declarators? rest.length place.site place rest
          return ([.declaration type m.isStatic m.isExternal ds], rest)

/-- A type with the items of its body. -/
def typeItem : Nat → TypeSpecifier → TypeItem
  | 0, _ => .plain
  | _, .plain => .plain
  | fuel + 1, .tagged name isEnum body =>
    if isEnum then .enumeration name body
    else
      match body with
      | some inside => .record name true (itemsFrom fuel .member inside)
      | none => .record name false []

/-- A type definition, after the word. -/
def typeDefinition : Nat → Tokens → Option (List Item × Tokens)
  | 0, _ => none
  | fuel + 1, ts => do
    let (type, rest) ← typeSpecifier? (afterModifiers ts)
    let (ds, rest) ← declarators? rest.length .typeName .member (afterModifiers rest)
    return ([.typeNames (typeItem fuel type) ds], rest)

end

/-- The items of a source text. Each step consumes a token or passes to one that does. -/
def read (source : String) : List Item :=
  let ts := Lexer.tokens source
  itemsFrom (8 * ts.length + 8) .outside ts

/-- What a source text declares and includes. -/
def extract (source : String) : Extraction :=
  (visit false Visitor.start (.group (read source))).found

end SymbolAtlas.Source
