import SymbolAtlas.Store.Symbols

/-!
# Ambiguous symbols

A marker is a uniqueness test for one kind of symbols. It looks at the files that define and at
those that declare a symbol; a file counts once, however often it does so. A symbol that fails the
test is ambiguous, and the files that hold it are of concern.

* `Marker.unique`: the test on the two numbers of files.
* `Store.ambiguous`: the hashes that fail the test of a marker.
* `Store.concernedBy`: the files that hold such a hash.
-/

namespace SymbolAtlas

/-- A uniqueness test for one kind of symbols. -/
inductive Marker where
  | functions
  | types
  | variables
  deriving DecidableEq, Repr, Inhabited

instance : Worded Marker where
  all := [.functions, .types, .variables]
  word
    | .functions => "functions"
    | .types => "types"
    | .variables => "variables"

namespace Marker

/-- The kind of symbols that a marker tests. -/
def kind : Marker → SymbolKind
  | .functions => .function
  | .types => .type
  | .variables => .variable

/-- A symbol is unique that so many files define and so many declare: functions and variables are
defined once, or never and declared at most once; types are defined at most once. -/
def unique (marker : Marker) (definitions declarations : Nat) : Bool :=
  match marker with
  | .functions | .variables =>
    definitions = 1 || (definitions = 0 && declarations ≤ 1)
  | .types => definitions ≤ 1

end Marker

namespace Store

/-- The files that hold a hash in a kind and a role, ascending. -/
def holders (store : Store) (hash : Int) (kind : SymbolKind) (role : SymbolRole) : List Int :=
  Ascending.ofList ((store.symbols.filter fun row =>
    row.hash = hash && row.kind = Worded.word kind && row.role = Worded.word role).map
      SymbolRow.file)

/-- The hash fails the test of the marker. -/
def failsMarker (store : Store) (marker : Marker) (hash : Int) : Bool :=
  !marker.unique (store.holders hash marker.kind .definition).length
    (store.holders hash marker.kind .declaration).length

/-- The hashes that fail the test of the marker, ascending. -/
def ambiguous (store : Store) (marker : Marker) : List Int :=
  Ascending.ofList (((store.symbols.filter fun row =>
    row.kind = Worded.word marker.kind).map SymbolRow.hash).filter (store.failsMarker marker))

/-- The files that hold a hash that fails the test of the marker, ascending. -/
def concernedBy (store : Store) (marker : Marker) : List Int :=
  let hashes := store.ambiguous marker
  Ascending.ofList ((store.symbols.filter fun row => hashes.contains row.hash).map SymbolRow.file)

/-- The files that hold a hash that fails the test of one of the markers, ascending. -/
def concerned (store : Store) (markers : List Marker) : List Int :=
  Ascending.ofList (markers.flatMap store.concernedBy)

end Store

/-- A query over the symbols: that of a marker, or a text that is no query. -/
inductive MarkerQuery where
  | of (marker : Marker)
  | malformed (text : String)
  deriving DecidableEq, Repr

namespace MarkerQuery

/-- The hashes that a query finds. -/
def hashes (query : MarkerQuery) (store : Store) : Except Fault (List Int) :=
  match query with
  | .of marker => .ok (store.ambiguous marker)
  | .malformed _ => .error .unreadableQuery

/-- The files that hold a hash that the query finds. -/
def files (query : MarkerQuery) (store : Store) : Except Fault (List Int) :=
  match query with
  | .of marker => .ok (store.concernedBy marker)
  | .malformed text => .error (.invalidMarker text)

end MarkerQuery

end SymbolAtlas
