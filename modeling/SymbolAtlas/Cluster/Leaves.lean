import SymbolAtlas.Propagation
import SymbolAtlas.Store.Actions
import SymbolAtlas.Store.Symbols

/-!
# Where builds and includes end

* `Store.actionLeaves`: the actions that a build ends in, following products to their consumers.
* `Store.includerLeaves`: the files that the includers of a file end in.
* `Store.ownCluster`: the actions that a file ends in by its own actions.

Revisits are rejected, so every hop reaches an action or a file for the first time; there are at
most as many hops as links, which is what the number of queries allows for.
-/

namespace SymbolAtlas.Store

/-- The actions where the propagation along products stops, ascending. -/
def actionLeaves (store : Store) (seeds : List Int) : List Int :=
  ((Propagation.run true store.actionSuccessors (fun _ _ => true)
    (seeds.length + store.sources.length) seeds).leaves).getD []

/-- The files where the propagation along includers stops, ascending. -/
def includerLeaves (store : Store) (file : Int) : List Int :=
  ((Propagation.run true store.includers (fun _ _ => true)
    (1 + store.includes.length) [file]).leaves).getD []

/-- The actions that a file ends in by the actions it is a source of; none if it is not built. -/
def ownCluster (store : Store) (file : Int) : List Int :=
  store.actionLeaves (store.actionsWithSource file)

end SymbolAtlas.Store
