import SymbolAtlas.Json.Reader
import SymbolAtlas.Json.Record
import SymbolAtlas.Json.Writer
import SymbolAtlas.Model.Action
import SymbolAtlas.Model.File
import SymbolAtlas.Model.Outcome
import SymbolAtlas.Model.Statistic
import SymbolAtlas.Model.Symbol

/-!
# The model in JSON

Every type of the model can be written as a JSON document and read back. A worded value is
written as its word; on reading, an object with the word as its only key and null as its value
stands for it too. Records are written as objects with their fields in a fixed order.

* `Documented`: types with such a form.
* `Documented.print`, `Documented.parse?`: compact text and back.
-/

namespace SymbolAtlas

/-- A type with a JSON form. -/
class Documented (α : Type) where
  toJson : α → Json
  ofJson? : Json → Option α

namespace Documented

variable {α : Type}

/-- The compact text of a value. -/
def print [Documented α] (a : α) : String := (toJson a).compact

/-- The value that a text stands for. -/
def parse? [Documented α] (s : String) : Option α := (Json.read? s).bind ofJson?

/-- A worded value as a document. -/
def wordToJson [Worded α] (a : α) : Json := Json.ofText (Worded.word a)

/-- The worded value that a document stands for. -/
def wordOfJson? [Worded α] : Json → Option α
  | .text (some s) => Worded.ofWord? s
  | .object [(some s, .null)] => Worded.ofWord? s
  | _ => none

/-- A value or null. -/
def toJson? [Documented α] : Option α → Json
  | some a => toJson a
  | none => .null

end Documented

open Documented

instance : Documented ActionKind := ⟨wordToJson, wordOfJson?⟩
instance : Documented ActionState := ⟨wordToJson, wordOfJson?⟩
instance : Documented Outcome := ⟨wordToJson, wordOfJson?⟩
instance : Documented SymbolKind := ⟨wordToJson, wordOfJson?⟩
instance : Documented SymbolRole := ⟨wordToJson, wordOfJson?⟩

instance : Documented BuildAction where
  toJson a := .record
    [("id", .ofInt a.id), ("action_type", toJson a.kind), ("state", toJson a.state),
     ("label", .ofText a.label), ("project", .ofText a.project)]
  ofJson? j := do
    let r ← j.record? ["id", "action_type", "state", "label", "project"]
    let id ← r.required "id" Json.int64?
    let kind ← r.required "action_type" ofJson?
    let state ← r.required "state" ofJson?
    let label ← r.required "label" Json.text?
    let project ← r.required "project" Json.text?
    return { id, kind, state, label, project }

instance : Documented File where
  toJson f := .record
    [("id", .ofInt f.id), ("path", .ofText f.path), ("language", .ofText? f.language)]
  ofJson? j := do
    let r ← j.record? ["id", "path", "language"]
    let id ← r.required "id" Json.int64?
    let path ← r.required "path" Json.text?
    let language ← r.optional "language" Json.text?
    return { id, path, language }

instance : Documented FilePair where
  toJson p := .record [("source", toJson? p.source), ("target", toJson? p.target)]
  ofJson? j := do
    let r ← j.record? ["source", "target"]
    let source ← r.optional "source" ofJson?
    let target ← r.optional "target" ofJson?
    return { source, target }

instance : Documented Symbol where
  toJson s := .record
    [("mangled_hash", .ofInt s.hash), ("name", .ofText s.name), ("kind", toJson s.kind),
     ("role", toJson s.role), ("file_id", .ofInt s.file)]
  ofJson? j := do
    let r ← j.record? ["mangled_hash", "name", "kind", "role", "file_id"]
    let hash ← r.required "mangled_hash" Json.int64?
    let name ← r.required "name" Json.text?
    let kind ← r.required "kind" ofJson?
    let role ← r.required "role" ofJson?
    let file ← r.required "file_id" Json.int64?
    return { hash, name, kind, role, file }

instance : Documented Statistic where
  toJson s := .record
    [("category", .ofText s.category), ("key", .ofText s.key), ("value", .ofInt s.value)]
  ofJson? j := do
    let r ← j.record? ["category", "key", "value"]
    let category ← r.required "category" Json.text?
    let key ← r.required "key" Json.text?
    let value ← r.required "value" Json.int64?
    return { category, key, value }

end SymbolAtlas
