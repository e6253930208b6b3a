/-!
# JSON documents

A document is kept as it was written: object fields in order and with repetitions, numbers as
numerals, and texts that contain half of a surrogate pair as texts without a value. Whether such a
part is acceptable depends on what is read from it.

* `Json`: documents.
* `Numeral.toInt?`: the integer that a numeral denotes.
* `Numeral.isInRange`: the numeral does not overflow when it is read into double precision.
* `Json.isPlain`: every part of the document has a value and the nesting is bounded.
-/

namespace SymbolAtlas

/-- A number as written: `digits · 10 ^ (exponent - scale)`, with a sign. -/
structure Numeral where
  negative : Bool
  /-- the digits before and after the point, read as one number -/
  digits : Nat
  /-- how many of the digits stand after the point -/
  scale : Nat
  exponent : Int
  /-- there is neither a point nor an exponent -/
  isWhole : Bool
  deriving DecidableEq, Repr

namespace Numeral

/-- The integer that a numeral denotes. A numeral with a point or an exponent denotes none, nor
does a negative zero. -/
def toInt? (n : Numeral) : Option Int :=
  if n.isWhole then
    if n.negative then (if n.digits = 0 then none else some (-(n.digits : Int)))
    else some n.digits
  else none

/-- The least number that rounds to infinity in double precision. -/
def infinityBound : Nat := Nat.pow 2 1024 - Nat.pow 2 970

/-- The greatest significand that is kept while a number is read. -/
def significandLimit : Nat := 0xffffffffffffffff

/-- Digits are added to a significand as long as there is room for them: the significand, and the
digits from the first one that does not fit. -/
def takeDigits (significand : Nat) : List Nat → Nat × List Nat
  | [] => (significand, [])
  | d :: ds =>
    if significandLimit < significand * 10 + d then (significand, d :: ds)
    else takeDigits (significand * 10 + d) ds

/-- The digits before and after the point. -/
def places (n : Numeral) : List Nat × List Nat :=
  let ds := (Nat.toDigits 10 n.digits).map fun c => c.toNat - '0'.toNat
  (ds.take (ds.length - n.scale),
    List.replicate (n.scale - ds.length) 0 ++ ds.drop (ds.length - n.scale))

/-- The significand and the power of ten that stand for a numeral. A digit before the point that
does not fit counts as a power of ten; one after the point is dropped, with all that follow. -/
def parts (n : Numeral) : Nat × Int :=
  let (whole, fraction) := n.places
  let (significand, excess) := takeDigits 0 whole
  let (significand, rest) := takeDigits significand fraction
  (significand, excess.length - (fraction.length - rest.length : Nat) + n.exponent)

/-- The number of double precision that is nearest to a natural number below the bound, of two
that are equally near the one with the even significand. -/
def nearestDouble (n : Nat) : Nat :=
  let unit := Nat.pow 2 (n.log2 - 52)
  let half := 2 * (n % unit)
  if half < unit || (half == unit && n / unit % 2 == 0) then n / unit * unit
  else (n / unit + 1) * unit

/-- The numeral is in range when its significand and its power of ten are multiplied in double
precision. Powers above `10 ^ 308` are not tried; small numbers are never out of range. -/
def isInRange (n : Numeral) : Bool :=
  let (significand, power) := n.parts
  significand == 0 || power < 0 ||
    (power ≤ 308 &&
      nearestDouble significand * nearestDouble (Nat.pow 10 power.toNat) < infinityBound)

/-- Both factors are rounded, and so the product may leave the range although the number itself
does not. -/
example : isInRange ⟨false, 17976931348623157, 16, 308, false⟩ = true ∧
    isInRange ⟨false, 17976931348623158, 16, 308, false⟩ = false ∧
    17976931348623158 * Nat.pow 10 292 < infinityBound := by decide +kernel

end Numeral

/-- A JSON document. -/
inductive Json where
  | null
  | bool (value : Bool)
  | number (value : Numeral)
  /-- a text; none if it contains half of a surrogate pair -/
  | text (value : Option String)
  | array (items : List Json)
  | object (fields : List (Option String × Json))
  deriving Repr, Inhabited

namespace Json

/-- The integers of 64 bits. -/
def fits64 (i : Int) : Bool := decide (-0x8000000000000000 ≤ i ∧ i < 0x8000000000000000)

/-- A text. -/
def text? : Json → Option String
  | .text value => value
  | _ => none

/-- An integer of 64 bits. -/
def int64? : Json → Option Int
  | .number n => n.toInt?.filter fits64
  | _ => none

/-- A list of texts. -/
def texts? : Json → Option (List String)
  | .array items => items.mapM text?
  | _ => none

mutual

/-- All texts have a value, all numbers are in range, and arrays and objects are nested at most
`depth` levels. -/
def isPlain (depth : Nat) : Json → Bool
  | .null | .bool _ => true
  | .number n => n.isInRange
  | .text value => value.isSome
  | .array items => depth != 0 && arePlain (depth - 1) items
  | .object fields => depth != 0 && fieldsPlain (depth - 1) fields

/-- `isPlain` of every item. -/
def arePlain (depth : Nat) : List Json → Bool
  | [] => true
  | item :: items => isPlain depth item && arePlain depth items

/-- `isPlain` of every field. -/
def fieldsPlain (depth : Nat) : List (Option String × Json) → Bool
  | [] => true
  | (key, value) :: fields => key.isSome && isPlain depth value && fieldsPlain depth fields

end

end Json

end SymbolAtlas
