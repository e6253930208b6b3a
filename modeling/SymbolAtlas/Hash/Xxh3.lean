/-!
# XXH3, 64 bits

The 64-bit XXH3 digest with seed 0 and the standard secret. The input length picks one of six
schedules: empty, up to 3, up to 8, up to 16, up to 128, up to 240 bytes, and the striped
schedule for everything longer. All arithmetic is modulo 2^64 except the folded product, which
takes both halves of a 128-bit product.

* `digest`: the hash of a byte sequence.
-/

namespace SymbolAtlas.Hash.Xxh3

def prime32a : UInt64 := 0x9E3779B1
def prime32b : UInt64 := 0x85EBCA77
def prime32c : UInt64 := 0xC2B2AE3D
def prime64a : UInt64 := 0x9E3779B185EBCA87
def prime64b : UInt64 := 0xC2B2AE3D27D4EB4F
def prime64c : UInt64 := 0x165667B19E3779F9
def prime64d : UInt64 := 0x85EBCA77C2B2AE63
def prime64e : UInt64 := 0x27D4EB2F165667C5
def mixPrimeA : UInt64 := 0x165667919E3779F9
def mixPrimeB : UInt64 := 0x9FB21C651E98DF25

/-- The standard secret: 192 bytes. -/
def secret : Array UInt8 := #[
  0xb8, 0xfe, 0x6c, 0x39, 0x23, 0xa4, 0x4b, 0xbe, 0x7c, 0x01, 0x81, 0x2c, 0xf7, 0x21, 0xad, 0x1c,
  0xde, 0xd4, 0x6d, 0xe9, 0x83, 0x90, 0x97, 0xdb, 0x72, 0x40, 0xa4, 0xa4, 0xb7, 0xb3, 0x67, 0x1f,
  0xcb, 0x79, 0xe6, 0x4e, 0xcc, 0xc0, 0xe5, 0x78, 0x82, 0x5a, 0xd0, 0x7d, 0xcc, 0xff, 0x72, 0x21,
  0xb8, 0x08, 0x46, 0x74, 0xf7, 0x43, 0x24, 0x8e, 0xe0, 0x35, 0x90, 0xe6, 0x81, 0x3a, 0x26, 0x4c,
  0x3c, 0x28, 0x52, 0xbb, 0x91, 0xc3, 0x00, 0xcb, 0x88, 0xd0, 0x65, 0x8b, 0x1b, 0x53, 0x2e, 0xa3,
  0x71, 0x64, 0x48, 0x97, 0xa2, 0x0d, 0xf9, 0x4e, 0x38, 0x19, 0xef, 0x46, 0xa9, 0xde, 0xac, 0xd8,
  0xa8, 0xfa, 0x76, 0x3f, 0xe3, 0x9c, 0x34, 0x3f, 0xf9, 0xdc, 0xbb, 0xc7, 0xc7, 0x0b, 0x4f, 0x1d,
  0x8a, 0x51, 0xe0, 0x4b, 0xcd, 0xb4, 0x59, 0x31, 0xc8, 0x9f, 0x7e, 0xc9, 0xd9, 0x78, 0x73, 0x64,
  0xea, 0xc5, 0xac, 0x83, 0x34, 0xd3, 0xeb, 0xc3, 0xc5, 0x81, 0xa0, 0xff, 0xfa, 0x13, 0x63, 0xeb,
  0x17, 0x0d, 0xdd, 0x51, 0xb7, 0xf0, 0xda, 0x49, 0xd3, 0x16, 0x55, 0x26, 0x29, 0xd4, 0x68, 0x9e,
  0x2b, 0x16, 0xbe, 0x58, 0x7d, 0x47, 0xa1, 0xfc, 0x8f, 0xf8, 0xb8, 0xd1, 0x7a, 0xd0, 0x31, 0xce,
  0x45, 0xcb, 0x3a, 0x8f, 0x95, 0x16, 0x04, 0x28, 0xaf, 0xd7, 0xfb, 0xca, 0xbb, 0x4b, 0x40, 0x7e]

/-- The byte at position `i`, zero past the end. -/
def byteAt (data : Array UInt8) (i : Nat) : UInt64 := (data[i]?.getD 0).toUInt64

/-- Four bytes at position `i`, least significant first. -/
def read32 (data : Array UInt8) (i : Nat) : UInt64 :=
  byteAt data i ||| (byteAt data (i + 1) <<< 8) ||| (byteAt data (i + 2) <<< 16) |||
    (byteAt data (i + 3) <<< 24)

/-- Eight bytes at position `i`, least significant first. -/
def read64 (data : Array UInt8) (i : Nat) : UInt64 :=
  read32 data i ||| (read32 data (i + 4) <<< 32)

/-- Rotate left by `r` bits, for `0 < r < 64`. -/
def rotateLeft (x : UInt64) (r : UInt64) : UInt64 := (x <<< r) ||| (x >>> (64 - r))

/-- Reverse the order of the eight bytes. -/
def swapBytes (x : UInt64) : UInt64 :=
  (List.range 8).foldl
    (fun out k => (out <<< (8 : UInt64)) ||| (x >>> (8 * k).toUInt64 &&& (0xFF : UInt64))) 0

/-- The two halves of the 128-bit product, combined by exclusive or. -/
def foldProduct (a b : UInt64) : UInt64 :=
  let p := a.toNat * b.toNat
  p.toUInt64 ^^^ (p >>> 64).toUInt64

/-- Final mixing of the short and long schedules. -/
def avalanche (h : UInt64) : UInt64 :=
  let h := (h ^^^ (h >>> 37)) * mixPrimeA
  h ^^^ (h >>> 32)

/-- Final mixing of inputs of at most three bytes. -/
def shortAvalanche (h : UInt64) : UInt64 :=
  let h := (h ^^^ (h >>> 33)) * prime64b
  let h := (h ^^^ (h >>> 29)) * prime64c
  h ^^^ (h >>> 32)

/-- Sixteen bytes of input at `i` mixed with sixteen bytes of the secret at `s`. -/
def mix16 (data : Array UInt8) (i s : Nat) : UInt64 :=
  foldProduct (read64 data i ^^^ read64 secret s) (read64 data (i + 8) ^^^ read64 secret (s + 8))

/-- One to three bytes. -/
def digestTiny (data : Array UInt8) : UInt64 :=
  let n := data.size
  let combined := (byteAt data 0 <<< 16) ||| (byteAt data (n / 2) <<< 24) ||| byteAt data (n - 1) |||
    (n.toUInt64 <<< 8)
  shortAvalanche (combined ^^^ (read32 secret 0 ^^^ read32 secret 4))

/-- Four to eight bytes. -/
def digestWord (data : Array UInt8) : UInt64 :=
  let n := data.size
  let key := read64 secret 8 ^^^ read64 secret 16
  let h := (read32 data (n - 4) + (read32 data 0 <<< 32)) ^^^ key
  let h := (h ^^^ rotateLeft h 49 ^^^ rotateLeft h 24) * mixPrimeB
  let h := (h ^^^ ((h >>> 35) + n.toUInt64)) * mixPrimeB
  h ^^^ (h >>> 28)

/-- Nine to sixteen bytes. -/
def digestPair (data : Array UInt8) : UInt64 :=
  let n := data.size
  let lo := read64 data 0 ^^^ (read64 secret 24 ^^^ read64 secret 32)
  let hi := read64 data (n - 8) ^^^ (read64 secret 40 ^^^ read64 secret 48)
  avalanche (n.toUInt64 + swapBytes lo + hi + foldProduct lo hi)

/-- Seventeen to 128 bytes: pairs of chunks from both ends. -/
def digestShort (data : Array UInt8) : UInt64 :=
  let n := data.size
  let pairs := (n - 1) / 32 + 1
  avalanche <| (List.range pairs).foldl
    (fun acc k => acc + mix16 data (16 * k) (32 * k) + mix16 data (n - 16 * (k + 1)) (32 * k + 16))
    (n.toUInt64 * prime64a)

/-- From 129 to 240 bytes. -/
def digestMiddle (data : Array UInt8) : UInt64 :=
  let n := data.size
  let head := (List.range 8).foldl (fun acc k => acc + mix16 data (16 * k) (16 * k))
    (n.toUInt64 * prime64a)
  let body := (List.range (n / 16 - 8)).foldl
    (fun acc k => acc + mix16 data (16 * (k + 8)) (16 * k + 3)) (avalanche head)
  avalanche (body + mix16 data (n - 16) 119)

/-- Absorb the 64-byte stripe at `i` under the secret at `s` into the eight accumulators. -/
def absorb (data : Array UInt8) (acc : Array UInt64) (i s : Nat) : Array UInt64 :=
  (List.range 8).foldl
    (fun acc k =>
      let value := read64 data (i + 8 * k)
      let key := value ^^^ read64 secret (s + 8 * k)
      let acc := acc.modify (k ^^^ 1) (· + value)
      acc.modify k (· + (key &&& (0xFFFFFFFF : UInt64)) * (key >>> (32 : UInt64))))
    acc

/-- Mix the accumulators between two blocks. -/
def scramble (acc : Array UInt64) : Array UInt64 :=
  (List.range 8).foldl
    (fun acc k => acc.modify k fun a => (a ^^^ (a >>> 47) ^^^ read64 secret (128 + 8 * k)) * prime32a)
    acc

/-- Absorb `count` stripes starting at `start`. -/
def absorbStripes (data : Array UInt8) (acc : Array UInt64) (start count : Nat) : Array UInt64 :=
  (List.range count).foldl (fun acc k => absorb data acc (start + 64 * k) (8 * k)) acc

/-- More than 240 bytes. -/
def digestLong (data : Array UInt8) : UInt64 :=
  let n := data.size
  let blocks := (n - 1) / 1024
  let start : Array UInt64 :=
    #[prime32c, prime64a, prime64b, prime64c, prime64d, prime32b, prime64e, prime32a]
  let acc := (List.range blocks).foldl
    (fun acc b => scramble (absorbStripes data acc (1024 * b) 16)) start
  let acc := absorbStripes data acc (1024 * blocks) ((n - 1 - 1024 * blocks) / 64)
  let acc := absorb data acc (n - 64) 121
  avalanche <| (List.range 4).foldl
    (fun sum k => sum + foldProduct (acc[2 * k]?.getD 0 ^^^ read64 secret (11 + 16 * k))
      (acc[2 * k + 1]?.getD 0 ^^^ read64 secret (19 + 16 * k)))
    (n.toUInt64 * prime64a)

/-- The 64-bit digest of a byte sequence. -/
def digest (data : Array UInt8) : UInt64 :=
  let n := data.size
  if n = 0 then shortAvalanche (read64 secret 56 ^^^ read64 secret 64)
  else if n ≤ 3 then digestTiny data
  else if n ≤ 8 then digestWord data
  else if n ≤ 16 then digestPair data
  else if n ≤ 128 then digestShort data
  else if n ≤ 240 then digestMiddle data
  else digestLong data

/-- The digest of the UTF-8 bytes of a text, read as a signed number. -/
def digestText (s : String) : Int64 :=
  (digest s.toUTF8.data).toInt64

end SymbolAtlas.Hash.Xxh3
