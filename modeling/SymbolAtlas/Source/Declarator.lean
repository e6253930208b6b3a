/-!
# Declarators

A declarator wraps a name in the shape of what is declared. The index reads a declarator from the
outside:

* `Declarator.name?`: the declared name. It is not seen behind a reference or an attribute, nor in
  parentheses where something else comes first.
* `Declarator.isFunction`: the outermost shape, pointers apart, is a function.
-/

namespace SymbolAtlas.Source

/-- A declarator. -/
inductive Declarator where
  /-- a name, as it is written without its blanks -/
  | name (text : String)
  /-- a form without a name of its own, such as a list of bindings or a conversion -/
  | unnamed
  | pointer (inner : Declarator)
  | reference (inner : Declarator)
  | array (inner : Declarator)
  | function (inner : Declarator)
  | parenthesized (inner : Declarator)
  /-- in parentheses, behind a comment or the word of a calling convention -/
  | obscured (inner : Declarator)
  /-- followed by attributes in double brackets -/
  | attributed (inner : Declarator)
  /-- with an initial value -/
  | initialized (inner : Declarator)
  deriving DecidableEq, Repr, Inhabited

namespace Declarator

/-- The declared name. -/
def name? : Declarator → Option String
  | .name text => some text
  | .unnamed | .reference _ | .attributed _ | .obscured _ => none
  | .pointer inner | .array inner | .function inner | .parenthesized inner | .initialized inner =>
    inner.name?

/-- The declarator counts as that of a function. -/
def isFunction : Declarator → Bool
  | .function _ => true
  | .pointer inner => inner.isFunction
  | _ => false

end Declarator

end SymbolAtlas.Source
