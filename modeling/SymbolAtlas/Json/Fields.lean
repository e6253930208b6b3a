import SymbolAtlas.Json.Basic
import SymbolAtlas.Model.Word

/-!
# Reading documents by fields

What is read from a field is there, or the name of the field tells what is wrong. A missing field
is null; a missing list is empty and a missing truth value is false.

* `Fields.as…`: read a document of which the name is given.
* `Fields.text`, `Fields.int`, `Fields.texts` and so on: read a field of a document.
-/

namespace SymbolAtlas.Json.Fields

/-- What is read, or the name of the field that is wrong. -/
abbrev Read (α : Type) := Except String α

variable {α β : Type}

/-- The field of an object with the given name; the first one if there are several. -/
def field (j : Json) (name : String) : Json :=
  match j with
  | .object fields => (fields.lookup (some name)).getD .null
  | _ => .null

/-- The named fields of an object, in order. -/
def entries (j : Json) : List (String × Json) :=
  match j with
  | .object fields => fields.filterMap fun (key, value) => key.map fun key => (key, value)
  | _ => []

/-- What may be missing, or else the error of the field. -/
def orWrong (name : String) : Option α → Read α
  | some a => .ok a
  | none => .error name

/-- A text. -/
def asText (name : String) (j : Json) : Read String := orWrong name j.text?

/-- A number written in decimal digits, possibly with a sign. -/
def decimal? (text : String) : Option Int :=
  let digits := fun (cs : List Char) =>
    if !cs.isEmpty && cs.all Char.isDigit then
      some (cs.foldl (fun n c => 10 * n + (c.toNat - 48)) 0 : Nat)
    else none
  match text.toList with
  | '-' :: cs => (digits cs).map fun n => -(n : Int)
  | '+' :: cs => (digits cs).map Int.ofNat
  | cs => (digits cs).map Int.ofNat

/-- An integer of 64 bits, as a number or as a text. -/
def asInt (name : String) (j : Json) : Read Int :=
  orWrong name (match j with
    | .text (some s) => (decimal? s).filter fits64
    | _ => j.int64?)

/-- A value or null. -/
def orNull (read : Json → Read α) (j : Json) : Read (Option α) :=
  match j with
  | .null => .ok none
  | _ => some <$> read j

/-- A list; null is the empty one. -/
def asList (name : String) (read : Json → Read α) (j : Json) : Read (List α) :=
  match j with
  | .null => .ok []
  | .array items => items.mapM read
  | _ => .error name

/-- A list of two. -/
def asPair (name : String) (first : Json → Read α) (second : Json → Read β) (j : Json) :
    Read (α × β) :=
  match j with
  | .array [a, b] => return (← first a, ← second b)
  | _ => .error name

/-- A word of a worded type; a text that is no such word is told apart. -/
def asWord [Worded α] (name : String) (j : Json) : Read α := do
  orWrong "enum" (Worded.ofWord? (← asText name j))

/-- A field that is a text. -/
def text (j : Json) (name : String) : Read String := asText name (field j name)

/-- A field that is a text or null. -/
def text? (j : Json) (name : String) : Read (Option String) := orNull (asText name) (field j name)

/-- A field that is an integer. -/
def int (j : Json) (name : String) : Read Int := asInt name (field j name)

/-- A field that is an integer or null. -/
def int? (j : Json) (name : String) : Read (Option Int) := orNull (asInt name) (field j name)

/-- A field that is a list. -/
def list (j : Json) (name : String) (read : Json → Read α) : Read (List α) :=
  asList name read (field j name)

/-- A field that is a list of texts. -/
def texts (j : Json) (name : String) : Read (List String) := list j name (asText name)

/-- A field that is a list of integers. -/
def ints (j : Json) (name : String) : Read (List Int) := list j name (asInt name)

/-- A field that is a word. -/
def word [Worded α] (j : Json) (name : String) : Read α := asWord name (field j name)

/-- A field that is a truth value. -/
def flag (j : Json) (name : String) : Read Bool :=
  match field j name with
  | .null => .ok false
  | .bool b => .ok b
  | _ => .error name

end SymbolAtlas.Json.Fields
