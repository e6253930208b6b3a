/-!
# Bytes as text

Bytes that are no valid UTF-8 are read with replacement characters: one for each maximal start of a
well-formed sequence, and one for each byte that starts none.

* `decodeLossy`: the text of any bytes.
-/

namespace SymbolAtlas.Text

/-- The least and the greatest second byte of a sequence with the given first byte, and how many
bytes follow the first. -/
def sequenceShape? (first : Nat) : Option (Nat × Nat × Nat) :=
  if 0xC2 ≤ first && first ≤ 0xDF then some (0x80, 0xBF, 1)
  else if first == 0xE0 then some (0xA0, 0xBF, 2)
  else if first == 0xED then some (0x80, 0x9F, 2)
  else if 0xE1 ≤ first && first ≤ 0xEF then some (0x80, 0xBF, 2)
  else if first == 0xF0 then some (0x90, 0xBF, 3)
  else if 0xF1 ≤ first && first ≤ 0xF3 then some (0x80, 0xBF, 3)
  else if first == 0xF4 then some (0x80, 0x8F, 3)
  else none

/-- Read on in a sequence: `value` is the number so far, `missing` bytes follow, the next one
between `low` and `high`. -/
def continueSequence (value : Nat) : Nat → Nat → Nat → List UInt8 → Char × List UInt8
  | 0, _, _, bytes => (Char.ofNat value, bytes)
  | missing + 1, low, high, bytes =>
    match bytes with
    | b :: rest =>
      if low ≤ b.toNat && b.toNat ≤ high then
        continueSequence (value * 64 + b.toNat % 64) missing 0x80 0xBF rest
      else ('\uFFFD', bytes)
    | [] => ('\uFFFD', [])

/-- The first character, and the bytes after it. -/
def nextChar (first : UInt8) (rest : List UInt8) : Char × List UInt8 :=
  let n := first.toNat
  if n < 0x80 then (Char.ofNat n, rest)
  else
    match sequenceShape? n with
    | none => ('\uFFFD', rest)
    | some (low, high, missing) =>
      let lead := if missing == 1 then n % 32 else if missing == 2 then n % 16 else n % 8
      continueSequence lead missing low high rest

/-- The characters of bytes, with as many steps as there is fuel. -/
def decodeFrom : Nat → List UInt8 → List Char
  | 0, _ => []
  | _, [] => []
  | fuel + 1, first :: rest =>
    let (c, rest) := nextChar first rest
    c :: decodeFrom fuel rest

/-- The text of any bytes. Every step takes a byte, so their number is fuel enough. -/
def decodeLossy (bytes : ByteArray) : String :=
  match String.fromUTF8? bytes with
  | some text => text
  | none => String.ofList (decodeFrom bytes.size bytes.toList)

end SymbolAtlas.Text
