import SymbolAtlas.Model.Symbol
import SymbolAtlas.Source.Item
import SymbolAtlas.Text.Blank
import SymbolAtlas.Text.Cut

/-!
# What a source file declares and includes

The items of a file are visited in order. Entities with internal linkage are left out, since they
never collide across binaries: what stands in a namespace without a name, and static functions and
variables outside of classes. Data members belong to their class and are left out as well.

* `Extraction`: the include directives and the symbols of a source, in order.
* `Visitor`: the scopes that are open, and what was found so far.
* `visit`: visit one item. The scopes that it opens are closed again after its parts.
-/

namespace SymbolAtlas.Source

/-- An include directive. -/
structure Include where
  path : String
  /-- the form with angle brackets -/
  system : Bool
  deriving DecidableEq, Repr

/-- A symbol before it is tied to a file. -/
structure Found where
  name : String
  kind : SymbolKind
  role : SymbolRole
  deriving DecidableEq, Repr

/-- The row of a symbol in a file. -/
def Found.symbol (found : Found) (file : Int) : Symbol :=
  { hash := symbolHash found.kind found.name, name := found.name, kind := found.kind
    role := found.role, file }

/-- What is found in a source. -/
structure Extraction where
  includes : List Include
  symbols : List Found
  deriving DecidableEq, Repr

namespace Extraction

/-- Nothing is found. -/
def empty : Extraction := ⟨[], []⟩

/-- One extraction after the other. -/
def append (a b : Extraction) : Extraction := ⟨a.includes ++ b.includes, a.symbols ++ b.symbols⟩

instance : Append Extraction := ⟨append⟩

end Extraction

/-- A name without the colons that lead to the global scope. -/
def dropLeadingColons : List Char → List Char
  | ':' :: ':' :: rest => dropLeadingColons rest
  | cs => cs

/-- A name seen from outside of its scopes. -/
def qualify (scope : List String) (name : String) : String :=
  let base := String.ofList (dropLeadingColons name.toList)
  if scope.isEmpty then base else "::".intercalate scope ++ "::" ++ base

/-- The scopes that the name of a namespace opens. -/
def scopesOf (name : String) : List String :=
  ((Text.cutColons name.toList).filter fun piece => !piece.isEmpty).map String.ofList

/-- Where a visit stands. -/
structure Visitor where
  /-- the names of the open scopes, outermost first -/
  scope : List String
  /-- what was found so far -/
  found : Extraction

namespace Visitor

/-- The start of a visit. -/
def start : Visitor := ⟨[], .empty⟩

/-- Open scopes, the last one innermost. -/
def enter (v : Visitor) (names : List String) : Visitor := { v with scope := v.scope ++ names }

/-- Close as many scopes, the innermost ones. -/
def leave (v : Visitor) (depth : Nat) : Visitor :=
  { v with scope := v.scope.take (v.scope.length - depth) }

/-- Find an include directive. -/
def recordInclude (v : Visitor) (path : String) (system : Bool) : Visitor :=
  { v with found := { v.found with includes := v.found.includes ++ [⟨path, system⟩] } }

/-- Find a symbol with a name; an empty name counts for nothing. -/
def record (v : Visitor) (name : String) (kind : SymbolKind) (role : SymbolRole) : Visitor :=
  if name.isEmpty then v
  else
    let symbol := ⟨qualify v.scope name, kind, role⟩
    { v with found := { v.found with symbols := v.found.symbols ++ [symbol] } }

/-- Find what one declarator of a declaration declares. -/
def recordDeclared (inClass isExternal : Bool) (v : Visitor) (d : Declarator) : Visitor :=
  match d.name? with
  | none => v
  | some name =>
    if d.isFunction then v.record name .function .declaration
    else if inClass then v
    else v.record name .variable (if isExternal then .declaration else .definition)

/-- Find the name that one declarator of a type definition gives to the type. -/
def recordTypeName (v : Visitor) (d : Declarator) : Visitor :=
  match d.name? with
  | none => v
  | some name => v.record name .type .definition

end Visitor

/-- The role of a type with or without a body. -/
def typeRole (hasBody : Bool) : SymbolRole := if hasBody then .definition else .declaration

mutual

/-- Visit an item, inside a class body or not. -/
def visit (inClass : Bool) (v : Visitor) : Item → Visitor
  | .inclusion path system => v.recordInclude path system
  | .group items => visitAll inClass v items
  | .scope none _ => v
  | .scope (some name) items =>
    let names := scopesOf name
    (visitAll false (v.enter names) items).leave names.length
  | .type type => visitType v type
  | .function isStatic declarator _ =>
    if !inClass && isStatic then v
    else
      match declarator.name? with
      | some name => v.record name .function .definition
      | none => v
  | .declaration type isStatic isExternal declarators =>
    let v := visitType v type
    if !inClass && isStatic then v
    else declarators.foldl (Visitor.recordDeclared inClass isExternal) v
  | .typeNames type declarators => declarators.foldl Visitor.recordTypeName (visitType v type)
  | .typeAlias name => v.record name .type .definition
  | .other => v

/-- Visit a type. -/
def visitType (v : Visitor) : TypeItem → Visitor
  | .plain | .record none _ _ | .enumeration none _ => v
  | .record (some name) hasBody items =>
    let v := v.record name .type (typeRole hasBody)
    if hasBody then (visitAll true (v.enter [name]) items).leave 1 else v
  | .enumeration (some name) body => v.record name .type (typeRole body.isSome)

/-- Visit items one after the other. -/
def visitAll (inClass : Bool) (v : Visitor) : List Item → Visitor
  | [] => v
  | item :: items => visitAll inClass (visit inClass v item) items

end

end SymbolAtlas.Source
