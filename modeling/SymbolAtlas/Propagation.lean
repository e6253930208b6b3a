import SymbolAtlas.Ascending

/-!
# Propagation to the leaves of a relation

Starting from seeds, a one-hop relation is followed breadth first, and only the keys where the
propagation stops are kept. The relation is asked for the whole frontier at once: its answer is a
list of rows, where a row without a successor, or no row at all, means that a key has none.

* `Propagation.State`: the frontier, what was visited, and the leaves so far.
* `Propagation.step`: one hop.
* `Propagation.run`: hops until the frontier is empty, at most a given number of them.

With revisits rejected, a successor that was in an earlier frontier is not followed again; without,
a cycle in the relation is followed for as long as hops are allowed.
-/

namespace SymbolAtlas.Propagation

variable {K : Type} [LT K] [DecidableLT K] [DecidableEq K]

/-- Where a propagation stands between two hops. -/
structure State (K : Type) where
  /-- the keys reached by the last hop, ascending -/
  frontier : List K
  /-- the keys of all frontiers so far, if revisits are rejected -/
  visited : Option (List K)
  /-- the keys that had no admitted successor, ascending -/
  leaves : List K

/-- The start of a propagation. -/
def start (rejectRevisits : Bool) (seeds : List K) : State K :=
  let frontier := Ascending.ofList seeds
  { frontier, visited := if rejectRevisits then some frontier else none, leaves := [] }

/-- The successors that the rows give for a key, in order. -/
def successors (rows : List (K × Option K)) (key : K) : List K :=
  rows.filterMap fun (k, next) => if k = key then next else none

/-- The successor was reached before. -/
def State.seen (s : State K) (key : K) : Bool :=
  match s.visited with
  | some visited => visited.contains key
  | none => false

/-- The successors of a key that are put to the admission test. -/
def State.candidates (s : State K) (rows : List (K × Option K)) (key : K) : List K :=
  (successors rows key).filter fun next => !s.seen next

/-- The successors of a key that are followed. -/
def State.admitted (s : State K) (permits : K → K → Bool) (rows : List (K × Option K)) (key : K) :
    List K :=
  (s.candidates rows key).filter (permits key)

/-- One hop, given the rows for the frontier. -/
def step (permits : K → K → Bool) (rows : List (K × Option K)) (s : State K) : State K :=
  let next := Ascending.ofList (s.frontier.flatMap (s.admitted permits rows))
  let stopped := s.frontier.filter fun key => (s.admitted permits rows key).isEmpty
  { frontier := next
    visited := s.visited.map fun visited => visited ++ next
    leaves := Ascending.insertAll stopped s.leaves }

/-- The hops that the admission test is asked about in one step, in order. -/
def State.asked (s : State K) (rows : List (K × Option K)) : List (K × K) :=
  s.frontier.flatMap fun key => (s.candidates rows key).map fun next => (key, next)

/-- What a run did. -/
structure Run (K : Type) where
  /-- the frontier of every query that was answered, in order -/
  frontiers : List (List K)
  /-- every hop put to the admission test, in order -/
  asked : List (K × K)
  /-- the leaves, ascending; none if the allowed queries were not enough -/
  leaves : Option (List K)

/-- Hop until the frontier is empty, asking `expand` at most `queries` times. -/
def runFrom (expand : List K → List (K × Option K)) (permits : K → K → Bool) :
    Nat → State K → Run K
  | 0, s => ⟨[], [], if s.frontier.isEmpty then some s.leaves else none⟩
  | queries + 1, s =>
    if s.frontier.isEmpty then ⟨[], [], some s.leaves⟩
    else
      let rows := expand s.frontier
      let rest := runFrom expand permits queries (step permits rows s)
      { frontiers := s.frontier :: rest.frontiers
        asked := s.asked rows ++ rest.asked
        leaves := rest.leaves }

/-- Propagate from `seeds`, with at most `queries` queries. -/
def run (rejectRevisits : Bool) (expand : List K → List (K × Option K)) (permits : K → K → Bool)
    (queries : Nat) (seeds : List K) : Run K :=
  runFrom expand permits queries (start rejectRevisits seeds)

end SymbolAtlas.Propagation
