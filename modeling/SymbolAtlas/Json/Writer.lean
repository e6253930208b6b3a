import SymbolAtlas.Json.Basic

/-!
# Writing JSON

The compact form has no white space and escapes only what has to be escaped: quotes, backslashes
and control characters. The indented form puts every item and every field on a line of its own.

* `Json.compact`, `Json.indented`: the two forms of a document.
-/

namespace SymbolAtlas.Json

/-- A lower-case hexadecimal digit. -/
def hexChar (n : Nat) : Char := (Nat.toDigits 16 (n % 16)).headD '0'

/-- One character inside a text. -/
def escapeChar (c : Char) : List Char :=
  match c with
  | '"' => ['\\', '"']
  | '\\' => ['\\', '\\']
  | '\x08' => ['\\', 'b']
  | '\x0c' => ['\\', 'f']
  | '\n' => ['\\', 'n']
  | '\r' => ['\\', 'r']
  | '\t' => ['\\', 't']
  | c =>
    if c.toNat < 0x20 then ['\\', 'u', '0', '0', hexChar (c.toNat / 16), hexChar c.toNat] else [c]

/-- A text in quotes. -/
def quote (s : String) : String :=
  String.ofList ('"' :: (s.toList.flatMap escapeChar ++ ['"']))

/-- A text document. -/
def ofText (s : String) : Json := .text (some s)

/-- An integer document. -/
def ofInt (i : Int) : Json :=
  .number { negative := decide (i < 0), digits := i.natAbs, scale := 0, exponent := 0, isWhole := true }

/-- A text document, or null. -/
def ofText? : Option String → Json
  | some s => ofText s
  | none => .null

/-- A natural number document. -/
def ofNat (n : Nat) : Json := ofInt n

/-- A list of texts. -/
def ofTexts (texts : List String) : Json := .array (texts.map ofText)

/-- A list of integers. -/
def ofInts (ints : List Int) : Json := .array (ints.map ofInt)

/-- A value, or null. -/
def ofOption {α : Type} (write : α → Json) : Option α → Json
  | some a => write a
  | none => .null

/-- An object with the given fields. -/
def record (fields : List (String × Json)) : Json := .object (fields.map fun (k, v) => (some k, v))

/-- A numeral in its written form; only whole numerals are ever written. -/
def numeralText (n : Numeral) : String :=
  (if n.negative then "-" else "") ++ toString n.digits

mutual

/-- The compact form. -/
def compact : Json → String
  | .null => "null"
  | .bool b => if b then "true" else "false"
  | .number n => numeralText n
  | .text s => quote (s.getD "")
  | .array items => "[" ++ compactItems items ++ "]"
  | .object fields => "\x7b" ++ compactFields fields ++ "\x7d"

/-- Items separated by commas. -/
def compactItems : List Json → String
  | [] => ""
  | [item] => compact item
  | item :: items => compact item ++ "," ++ compactItems items

/-- Fields separated by commas. -/
def compactFields : List (Option String × Json) → String
  | [] => ""
  | [(key, value)] => quote (key.getD "") ++ ":" ++ compact value
  | (key, value) :: fields =>
    quote (key.getD "") ++ ":" ++ compact value ++ "," ++ compactFields fields

end

/-- The start of a line, two blanks for each level. -/
def margin (level : Nat) : String := "\n" ++ String.ofList (List.replicate (2 * level) ' ')

mutual

/-- The indented form at a nesting level. -/
def indentedAt (level : Nat) : Json → String
  | .array [] => "[]"
  | .object [] => "\x7b\x7d"
  | .array items => "[" ++ indentedItems (level + 1) items ++ margin level ++ "]"
  | .object fields => "\x7b" ++ indentedFields (level + 1) fields ++ margin level ++ "\x7d"
  | .null => "null"
  | .bool b => if b then "true" else "false"
  | .number n => numeralText n
  | .text s => quote (s.getD "")

/-- Items on lines of their own. -/
def indentedItems (level : Nat) : List Json → String
  | [] => ""
  | [item] => margin level ++ indentedAt level item
  | item :: items => margin level ++ indentedAt level item ++ "," ++ indentedItems level items

/-- Fields on lines of their own. -/
def indentedFields (level : Nat) : List (Option String × Json) → String
  | [] => ""
  | [(key, value)] => margin level ++ quote (key.getD "") ++ ": " ++ indentedAt level value
  | (key, value) :: fields =>
    margin level ++ quote (key.getD "") ++ ": " ++ indentedAt level value ++ "," ++
      indentedFields level fields

end

/-- The form with one item or field on each line. -/
def indented (j : Json) : String := indentedAt 0 j

end SymbolAtlas.Json
