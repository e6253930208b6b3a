/-!
# Ascending lists

Finite sets and finite maps as lists in strictly ascending order. The order of such a list is the
order in which its members are visited and printed.

* `Ascending.insert`, `Ascending.ofList`, `Ascending.union`: sets.
* `Ascending.put`, `Ascending.get?`, `Ascending.adjust`: maps from keys to values.
-/

namespace SymbolAtlas.Ascending

section

variable {α β : Type} [LT α] [DecidableLT α]

/-- Add a member to a set. -/
def insert (x : α) : List α → List α
  | [] => [x]
  | y :: ys => if x < y then x :: y :: ys else if y < x then y :: insert x ys else y :: ys

/-- Add several members to a set. -/
def insertAll (xs set : List α) : List α := xs.foldl (fun s x => insert x s) set

/-- The set of the members of a list. -/
def ofList (xs : List α) : List α := insertAll xs []

/-- The union of two sets. -/
def union (a b : List α) : List α := insertAll b a

/-- Give the key `k` the value `v`. -/
def put (k : α) (v : β) : List (α × β) → List (α × β)
  | [] => [(k, v)]
  | (k', v') :: rest =>
    if k < k' then (k, v) :: (k', v') :: rest
    else if k' < k then (k', v') :: put k v rest
    else (k, v) :: rest

/-- The value of the key `k`. -/
def get? (k : α) : List (α × β) → Option β
  | [] => none
  | (k', v) :: rest => if k < k' then none else if k' < k then get? k rest else some v

/-- Change the value of the key `k`, which is `fallback` if there is none. -/
def adjust (k : α) (fallback : β) (change : β → β) (map : List (α × β)) : List (α × β) :=
  put k (change ((get? k map).getD fallback)) map

end

end SymbolAtlas.Ascending
