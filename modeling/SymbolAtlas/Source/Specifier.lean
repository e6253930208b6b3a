import SymbolAtlas.Source.Token

/-!
# Names, modifiers and types

The parts of a declaration before its declarators. Readers take the tokens that are left and give
back the rest; the tokens in between are what was read.

* `afterTypeName?`: a name of a type, with its scopes and template arguments.
* `modifiers`: storage classes, qualifiers and attributes.
* `typeSpecifier?`: a type. The body of a class is given as tokens.
* `afterConstraint`: the condition of a requires clause.
-/

namespace SymbolAtlas.Source

/-- Types that are known by a word of their own. -/
def primitiveTypes : List String :=
  ["bool", "char", "int", "float", "double", "void", "size_t", "ssize_t", "ptrdiff_t", "intptr_t",
   "uintptr_t", "charptr_t", "nullptr_t", "max_align_t", "int8_t", "int16_t", "int32_t", "int64_t",
   "uint8_t", "uint16_t", "uint32_t", "uint64_t", "char8_t", "char16_t", "char32_t", "char64_t"]

/-- Words that give a size or a sign to an arithmetic type. -/
def sizeWords : List String := ["signed", "unsigned", "long", "short"]

/-- Words of calling conventions. -/
def callWords : List String :=
  ["__cdecl", "__clrcall", "__stdcall", "__fastcall", "__thiscall", "__vectorcall"]

/-- Words that modify a declaration and stand alone. -/
def modifierWords : List String :=
  ["static", "extern", "register", "inline", "__inline", "__inline__", "__forceinline",
   "thread_local", "__thread", "const", "volatile", "restrict", "__restrict__", "__restrict",
   "__extension__", "_Atomic", "_Noreturn", "noreturn", "_Nonnull", "constexpr", "constinit",
   "consteval", "mutable", "virtual", "explicit", "__unaligned", "_unaligned"] ++ callWords

/-- Words that modify a declaration and take an argument in parentheses. -/
def attributeWords : List String :=
  ["__attribute__", "__attribute", "__declspec", "alignas", "_Alignas"]

/-- Words that are never the name of something declared. -/
def reservedWords : List String :=
  primitiveTypes ++ sizeWords ++ modifierWords ++ attributeWords ++
  ["auto", "decltype", "class", "struct", "union", "enum", "typename", "template", "typedef",
   "using", "namespace", "friend", "operator", "concept", "requires", "static_assert", "asm",
   "__asm__", "__asm", "if", "else", "for", "while", "do", "switch", "case", "default", "return",
   "break", "continue", "goto", "try", "catch", "throw", "co_return", "co_yield", "co_await", "true",
   "false", "nullptr", "NULL", "this", "sizeof", "alignof", "_Alignof", "offsetof", "new", "delete",
   "and", "or", "not", "xor", "bitand", "bitor", "compl", "not_eq", "and_eq", "or_eq", "xor_eq",
   "public", "private", "protected", "noexcept"]

/-- The token can be the name of something declared. -/
def Token.isName (t : Token) : Bool := t.kind == .word && !reservedWords.contains t.text

/-- The token can be a name inside a scope, where the words of types are names like others. -/
def Token.isScopedName (t : Token) : Bool := t.isName || primitiveTypes.contains t.text

/-- The rest after the components of a name that are joined by colons, from a component on. -/
def afterComponents? : Nat → Tokens → Option Tokens
  | 0, _ => none
  | fuel + 1, ts =>
    match ts with
    | t :: rest =>
      if !t.isScopedName then none
      else
        match afterArguments rest with
        | colons :: next :: more =>
          if colons.text == "::" then
            if next.text == "template" then afterComponents? fuel more
            else afterComponents? fuel (next :: more)
          else some (colons :: next :: more)
        | rest => some rest
    | [] => none

/-- The rest after the name of a type. A name that goes on with a part that no type has, such as an
operator, is none. -/
def afterTypeName? (ts : Tokens) : Option Tokens :=
  match ts with
  | t :: rest =>
    if t.text == "::" then afterComponents? rest.length rest
    else if t.isName then afterComponents? ts.length ts
    else none
  | [] => none

/-- What the modifiers of a declaration say. -/
structure Modifiers where
  isStatic : Bool
  isExternal : Bool
  /-- there is no modifier at all -/
  isEmpty : Bool
  deriving DecidableEq, Repr

namespace Modifiers

/-- No modifiers. -/
def none : Modifiers := ⟨false, false, true⟩

/-- One more word. -/
def add (m : Modifiers) (word : String) : Modifiers :=
  ⟨m.isStatic || word == "static", m.isExternal || word == "extern", false⟩

/-- Modifiers at two places of one declaration. -/
def both (a b : Modifiers) : Modifiers :=
  ⟨a.isStatic || b.isStatic, a.isExternal || b.isExternal, a.isEmpty && b.isEmpty⟩

end Modifiers

/-- Read modifiers, adding to `m`. -/
def modifiersFrom : Nat → Modifiers → Tokens → Modifiers × Tokens
  | 0, m, ts => (m, ts)
  | fuel + 1, m, ts =>
    match afterAttribute? ts with
    | some rest => modifiersFrom fuel (m.add "") rest
    | none =>
      match ts with
      | t :: rest =>
        if t.text == "explicit" || attributeWords.contains t.text then
          modifiersFrom fuel (m.add t.text) (afterGroupOf "(" rest)
        else if modifierWords.contains t.text then modifiersFrom fuel (m.add t.text) rest
        else (m, ts)
      | [] => (m, [])

/-- The modifiers at the start, and the rest. -/
def modifiers (ts : Tokens) : Modifiers × Tokens := modifiersFrom ts.length .none ts

/-- The rest after the modifiers at the start. -/
def afterModifiers (ts : Tokens) : Tokens := (modifiers ts).2

/-- A type in front of declarators. -/
inductive TypeSpecifier where
  /-- a type that is only named -/
  | plain
  /-- a class, a structure, a union or an enumeration, with the tokens of its body -/
  | tagged (name : Option String) (isEnum : Bool) (body : Option Tokens)
  deriving Repr

/-- The rest after words of size and sign. -/
def afterSizes (ts : Tokens) : Tokens := ts.dropWhile fun t => sizeWords.contains t.text

/-- A name after words of size and sign belongs to the type, since a declarator follows it. -/
def isSizedName : Tokens → Bool
  | t :: next :: _ =>
    t.isName && (next.isName || ["*", "&", "&&", "const", "volatile"].contains next.text)
  | _ => false

/-- The rest after an arithmetic type with words of size and sign, after the first of them. -/
def afterSizedType (ts : Tokens) : Tokens :=
  let ts := afterSizes ((afterSizes ts).dropWhile fun t => ["const", "volatile"].contains t.text)
  match ts with
  | t :: rest =>
    if primitiveTypes.contains t.text || isSizedName ts then afterSizes rest else ts
  | [] => []

/-- The rest up to the first opening brace; brackets in between are passed over. -/
def toBrace : Nat → Tokens → Tokens
  | 0, ts => ts
  | fuel + 1, ts =>
    match ts with
    | [] => []
    | t :: rest =>
      if t.text == "\x7b" || t.text == ";" then ts
      else if t.isOpen then toBrace fuel (afterGroup ts)
      else toBrace fuel rest

/-- The body in braces at the start. -/
def body? (ts : Tokens) : Option (Tokens × Tokens) :=
  if startsWith "\x7b" ts then group? ts else none

/-- A tagged type, read up to its name, with the rest from its body on. -/
def taggedFrom (name : Option String) (isEnum : Bool) (ts : Tokens) :
    Option (TypeSpecifier × Tokens) :=
  match body? ts with
  | some (inside, rest) => some (.tagged name isEnum (some inside), rest)
  | none => if name.isSome then some (.tagged name isEnum none, ts) else none

/-- The rest after the underlying type of an enumeration. -/
def afterUnderlyingType (ts : Tokens) : Tokens :=
  match expect? ":" ts with
  | none => ts
  | some rest =>
    let rest := afterModifiers rest
    match rest with
    | t :: more =>
      if sizeWords.contains t.text then afterSizedType more
      else if primitiveTypes.contains t.text then afterSizes more
      else (afterTypeName? rest).getD rest
    | [] => []

/-- The rest after the bases of a class, if it has any: a colon and bases stand before a body. -/
def afterBases (ts : Tokens) : Tokens :=
  let ts := match ts with
    | f :: next :: rest =>
      if f.text == "final" && (next.text == ":" || next.text == "\x7b") then next :: rest else ts
    | _ => ts
  if startsWith ":" ts then toBrace ts.length ts else ts

/-- The name of a tagged type, if it has one, and the rest. -/
def tagName (ts : Tokens) : Option String × Tokens :=
  match afterTypeName? ts with
  | some rest => (some (spelling (between ts rest)), rest)
  | none => (none, ts)

/-- The type at the start, and the rest. -/
def typeSpecifier? (ts : Tokens) : Option (TypeSpecifier × Tokens) :=
  match ts with
  | [] => none
  | t :: rest =>
    if ["class", "struct", "union"].contains t.text then
      let (name, rest) := tagName (afterModifiers rest)
      taggedFrom name false (afterBases rest)
    else if t.text == "enum" then
      let rest := if startsWithAny ["class", "struct"] rest then rest.drop 1 else rest
      let (name, rest) := tagName (afterModifiers rest)
      taggedFrom name true (afterUnderlyingType rest)
    else if sizeWords.contains t.text then some (.plain, afterSizedType rest)
    else if primitiveTypes.contains t.text then some (.plain, afterSizes rest)
    else if t.text == "auto" then some (.plain, rest)
    else if t.text == "decltype" then
      let rest := afterGroupOf "(" rest
      some (.plain, if startsWith "::" rest then (afterTypeName? rest).getD rest else rest)
    else if t.text == "typename" then (afterTypeName? rest).map fun rest => (.plain, rest)
    else (afterTypeName? ts).map fun rest => (.plain, dropMark "auto" rest)

/-- The rest after one term of a condition. -/
def afterConstraintTerm (ts : Tokens) : Tokens :=
  match ts with
  | [] => []
  | t :: rest =>
    if t.text == "(" then afterGroup ts
    else if t.text == "requires" then afterGroupOf "\x7b" (afterGroupOf "(" rest)
    else if t.isName || t.text == "::" then (afterTypeName? ts).getD rest
    else rest

/-- The rest after the condition of a requires clause: terms joined by and and or. -/
def afterConstraint : Nat → Tokens → Tokens
  | 0, ts => ts
  | fuel + 1, ts =>
    let rest := afterConstraintTerm (dropMark "!" ts)
    if startsWithAny ["&&", "||"] rest then afterConstraint fuel (rest.drop 1) else rest

/-- The rest after a requires clause, if there is one. -/
def afterRequires (ts : Tokens) : Tokens :=
  match expect? "requires" ts with
  | some rest => afterConstraint rest.length rest
  | none => ts

end SymbolAtlas.Source
