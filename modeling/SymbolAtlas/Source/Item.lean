import SymbolAtlas.Source.Declarator
import SymbolAtlas.Source.Token

/-!
# Source items

What a source file declares, as far as the index wants to know. The bodies of functions and of
enumerations are kept as tokens, since nothing in them is looked at. Initial values and statements
are not kept.

* `Item`: one item of a source file, of a namespace or of a class body.
* `TypeItem`: the type of a declaration, which may bring the body of a class with it.
-/

namespace SymbolAtlas.Source

mutual

/-- One item of a source file, of a namespace or of a class body. -/
inductive Item where
  /-- an include directive, with the path as it is written -/
  | inclusion (path : String) (system : Bool)
  /-- items in a common frame: a source file, a template head or a linkage specification -/
  | group (items : List Item)
  /-- a namespace; its name is missing, or is a list of names separated by colons -/
  | scope (name : Option String) (items : List Item)
  /-- a type without declarators -/
  | type (type : TypeItem)
  /-- a function definition, with the tokens of its body -/
  | function (isStatic : Bool) (declarator : Declarator) (body : Tokens)
  /-- a declaration of functions and variables -/
  | declaration (type : TypeItem) (isStatic isExternal : Bool) (declarators : List Declarator)
  /-- the names given to a type by a type definition -/
  | typeNames (type : TypeItem) (declarators : List Declarator)
  /-- a name for a type -/
  | typeAlias (name : String)
  /-- anything else -/
  | other

/-- A type, alone or in front of declarators. -/
inductive TypeItem where
  /-- a type that is only named -/
  | plain
  /-- a class, a structure or a union, with the items of its body if it has one -/
  | record (name : Option String) (hasBody : Bool) (items : List Item)
  /-- an enumeration, with the tokens of its body if it has one -/
  | enumeration (name : Option String) (body : Option Tokens)

end

end SymbolAtlas.Source
