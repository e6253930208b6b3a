import SymbolAtlas.Json.Basic

/-!
# Records in JSON

A record with named fields is written as an object, or as an array that holds the values of the
fields in order. In an object, fields may come in any order and unknown ones are passed over, but
no known field may be repeated.

* `Json.record?`: the values that a document gives to the fields of a record.
* `Record.required`, `Record.optional`, `Record.defaulted`: one field of each kind.
-/

namespace SymbolAtlas.Json

/-- The values of the fields of a record. -/
structure Record where
  /-- the record was written as an array -/
  positional : Bool
  values : List (String × Json)

/-- The known fields of an object, in order of appearance; none if a key is no text. -/
def knownFields (names : List String) : List (Option String × Json) → Option (List (String × Json))
  | [] => some []
  | (none, _) :: _ => none
  | (some key, value) :: fields => do
    let rest ← knownFields names fields
    return if names.contains key then (key, value) :: rest else rest

/-- No name occurs twice. -/
def allDistinct : List String → Bool
  | [] => true
  | name :: names => !names.contains name && allDistinct names

/-- The values that a document gives to the fields `names` of a record. -/
def record? (names : List String) : Json → Option Record
  | .object fields => do
    let values ← knownFields names fields
    if allDistinct (values.map Prod.fst) then some ⟨false, values⟩ else none
  | .array items =>
    if items.length ≤ names.length then some ⟨true, names.zip items⟩ else none
  | _ => none

namespace Record

variable {α : Type}

/-- The value of a field. -/
def get? (r : Record) (name : String) : Option Json := r.values.lookup name

/-- A field that must be given. -/
def required (r : Record) (name : String) (read : Json → Option α) : Option α :=
  (r.get? name).bind read

/-- A value that may be null. -/
def nullable (read : Json → Option α) : Json → Option (Option α)
  | .null => some none
  | value => (read value).map some

/-- A field that may be null, and may be left out of an object. -/
def optional (r : Record) (name : String) (read : Json → Option α) : Option (Option α) :=
  match r.get? name with
  | some value => nullable read value
  | none => if r.positional then none else some none

/-- A field that may be left out; `fallback` is then its value. -/
def defaulted (r : Record) (name : String) (fallback : α) (read : Json → Option α) : Option α :=
  match r.get? name with
  | some value => read value
  | none => some fallback

end Record

end SymbolAtlas.Json
