/-!
# TOML tables

A table remembers how it came to be, since that decides what may still be added to it: a table
that has a header of its own cannot be given another one nor be extended by dotted keys, and an
inline table cannot be extended at all.

* `Value`: values. Of a fractional number and of a point in time only the form is kept.
* `Value.within`: change the table at a path, making the tables on the way.
* `Value.addEntry`, `Value.openTable`, `Value.pushTable`: what a line of a document adds.
-/

namespace SymbolAtlas.Toml

/-- How a table came to be. -/
inductive Origin where
  /-- by a header of its own -/
  | header
  /-- by the header of a table below it -/
  | parent
  /-- by a dotted key -/
  | dotted
  /-- written as a value -/
  | inline
  deriving DecidableEq, Repr, Inhabited

/-- A value. -/
inductive Value where
  | text (s : String)
  | integer (i : Int)
  | bool (b : Bool)
  /-- a number with a fraction or an exponent, or one that is not finite -/
  | fraction
  /-- a date, a time, or both -/
  | moment
  | array (items : List Value)
  | table (origin : Origin) (entries : List (String × Value))
  /-- tables under one header that is written several times -/
  | tables (items : List Value)
  deriving Repr, Inhabited

namespace Value

/-- Put a value in place of that of a key. -/
def replaceIn (key : String) (value : Value) (entries : List (String × Value)) :
    List (String × Value) :=
  entries.map fun entry => if entry.1 = key then (key, value) else entry

/-- Change the last item of a list. -/
def changeLast? (change : Value → Option Value) (items : List Value) : Option (List Value) :=
  match items.getLast? with
  | none => none
  | some last => (change last).map fun last => items.dropLast ++ [last]

/-- Change the table at a path below a table. Tables on the way are made if they are missing; of
tables under one header the last one is meant. -/
def within (made : Origin) (change : Value → Option Value) : List String → Value → Option Value
  | [], top => change top
  | key :: path, .table origin entries =>
    match entries.lookup key with
    | none =>
      (within made change path (.table made [])).map fun child =>
        .table origin (entries ++ [(key, child)])
    | some (.table childOrigin child) =>
      if childOrigin = .inline || (made = .dotted && childOrigin = .header) then none
      else
        (within made change path (.table childOrigin child)).map fun child =>
          .table origin (replaceIn key child entries)
    | some (.tables items) =>
      (changeLast? (within made change path) items).map fun items =>
        .table origin (replaceIn key (.tables items) entries)
    | some _ => none
  | _, _ => none

/-- Add an entry to a table, which a dotted key must have made if and only if the key is dotted. -/
def insertEntry (dotted : Bool) (key : String) (value : Value) : Value → Option Value
  | .table origin entries =>
    if (origin == .dotted) != dotted || (entries.lookup key).isSome then none
    else some (.table origin (entries ++ [(key, value)]))
  | _ => none

/-- Add an entry under a possibly dotted key. -/
def addEntry (path : List String) (key : String) (value : Value) (top : Value) : Option Value :=
  within .dotted (insertEntry (!path.isEmpty) key value) path top

/-- Give a header to the table of a key. -/
def openKey (key : String) : Value → Option Value
  | .table origin entries =>
    match entries.lookup key with
    | none => some (.table origin (entries ++ [(key, .table .header [])]))
    | some (.table .parent child) => some (.table origin (replaceIn key (.table .header child) entries))
    | some _ => none
  | _ => none

/-- Add a table to those of a key. -/
def pushKey (key : String) : Value → Option Value
  | .table origin entries =>
    match entries.lookup key with
    | none => some (.table origin (entries ++ [(key, .tables [.table .header []])]))
    | some (.tables items) =>
      some (.table origin (replaceIn key (.tables (items ++ [.table .header []])) entries))
    | some _ => none
  | _ => none

end Value

end SymbolAtlas.Toml
