import SymbolAtlas.Json.Reader
import SymbolAtlas.Toml.Table

/-!
# Words that are TOML values

Truth values, numbers, dates and times are written as one word; a date and a time may also stand
beside each other, divided by a blank. A word is read as a whole.

* `integer?`: whole numbers in four bases, of 64 bits.
* `isFraction`: numbers with a fraction or an exponent. One that is too large is refused unless it
  is negative.
* `isMoment`: dates, times, and both.
* `scalar?`: the value of a word.
-/

namespace SymbolAtlas.Toml

/-- Digits, the first one not preceded and the last one not followed by an underscore, and no two
underscores beside each other. -/
def areDigits (isDigit : Char → Bool) : List Char → Bool
  | [] => false
  | [c] => isDigit c
  | c :: '_' :: rest => isDigit c && areDigits isDigit rest
  | c :: rest => isDigit c && areDigits isDigit rest

/-- The number that digits denote in a base. -/
def digitsIn (base : Nat) (digits : List Char) : Nat :=
  (digits.filterMap Json.hexDigit?).foldl (fun n d => base * n + d) 0

/-- A digit of the base. -/
def isDigitOf (base : Nat) (c : Char) : Bool := (Json.hexDigit? c).any (· < base)

/-- The sign of a word, and the rest. -/
def takeSign : List Char → Bool × List Char
  | '-' :: rest => (true, rest)
  | '+' :: rest => (false, rest)
  | rest => (false, rest)

/-- A whole number in decimal digits: a zero, or digits that do not start with one. -/
def isWhole (cs : List Char) : Bool :=
  areDigits (isDigitOf 10) cs && (cs.length = 1 || cs.head? ≠ some '0')

/-- Digits of a base after its mark. -/
def based? (base : Nat) (digits : List Char) : Option Int :=
  if areDigits (isDigitOf base) digits then some (digitsIn base digits : Int) else none

/-- The integer that a word denotes, of any size. -/
def wholeNumber? (word : List Char) : Option Int :=
  match word with
  | '0' :: 'x' :: digits => based? 16 digits
  | '0' :: 'o' :: digits => based? 8 digits
  | '0' :: 'b' :: digits => based? 2 digits
  | word =>
    let (negative, digits) := takeSign word
    if isWhole digits then
      some (if negative then -(digitsIn 10 digits : Int) else (digitsIn 10 digits : Int))
    else none

/-- The integer that a word denotes. -/
def integer? (word : List Char) : Option Int := (wholeNumber? word).filter Json.fits64

/-- Cut a word at the first character of a kind. -/
def cutAt (isMark : Char → Bool) (word : List Char) : List Char × Option (List Char) :=
  (word.takeWhile fun c => !isMark c, (word.dropWhile fun c => !isMark c).tail?)

/-- The value of a numeral, taken exactly, does not round to infinity in double precision. -/
def isFinite (n : Numeral) : Bool :=
  let shift := n.exponent - n.scale
  if n.digits = 0 then true
  else if 400 < shift then false
  else if 0 ≤ shift then decide (n.digits * Nat.pow 10 shift.toNat < Numeral.infinityBound)
  else
    let down := (-shift).toNat
    -- fewer binary digits than decimal places: the value is below one
    if n.digits.log2 < down then true
    else decide (n.digits < Numeral.infinityBound * Nat.pow 10 down)

/-- The word is a number with a fraction or an exponent, or a word for one that is not finite. -/
def isFraction (word : List Char) : Bool :=
  let (negative, rest) := takeSign word
  if rest = "inf".toList || rest = "nan".toList then true
  else
    let (mantissa, exponent) := cutAt (fun c => c == 'e' || c == 'E') rest
    let (whole, places) := cutAt (· == '.') mantissa
    let (down, power) := takeSign (exponent.getD ['0'])
    let isForm := isWhole whole && (places.all (areDigits (isDigitOf 10))) &&
      areDigits (isDigitOf 10) power && (places.isSome || exponent.isSome)
    let fractional := (places.getD []).filter (· ≠ '_')
    let numeral : Numeral :=
      { negative, digits := digitsIn 10 (whole ++ fractional), scale := fractional.length
        exponent := if down then -(digitsIn 10 power : Int) else (digitsIn 10 power : Int)
        isWhole := false }
    isForm && (negative || isFinite numeral)

/-- The number that as many decimal digits denote. -/
def fixed? (count : Nat) (digits : List Char) : Option Nat :=
  if digits.length = count && digits.all (isDigitOf 10) then some (digitsIn 10 digits) else none

/-- The number of days of a month. -/
def daysIn (year month : Nat) : Nat :=
  if month = 2 then
    if year % 4 = 0 && (year % 100 ≠ 0 || year % 400 = 0) then 29 else 28
  else if [4, 6, 9, 11].contains month then 30
  else 31

/-- The word is a day of the calendar. -/
def isDate (word : List Char) : Bool :=
  word.length = 10 && word[4]? = some '-' && word[7]? = some '-' &&
    match fixed? 4 (word.take 4), fixed? 2 ((word.drop 5).take 2), fixed? 2 (word.drop 8) with
    | some year, some month, some day =>
      1 ≤ month && month ≤ 12 && 1 ≤ day && day ≤ daysIn year month
    | _, _, _ => false

/-- The digits are a number below a bound. -/
def isBelow (bound : Nat) (digits : List Char) : Bool := (fixed? 2 digits).any (· < bound)

/-- The word is a time of the day in hours and minutes. -/
def isClock (word : List Char) : Bool :=
  word.length = 5 && word[2]? = some ':' && isBelow 24 (word.take 2) && isBelow 60 (word.drop 3)

/-- The word is a time of the day, possibly with parts of a second. A leap second is allowed. -/
def isTime (word : List Char) : Bool :=
  isClock (word.take 5) && word[5]? = some ':' && isBelow 61 ((word.drop 6).take 2) &&
    match word.drop 8 with
    | [] => true
    | '.' :: places => !places.isEmpty && places.all (isDigitOf 10)
    | _ => false

/-- The word is a time of the day, possibly with its distance from universal time. -/
def isOffsetTime (word : List Char) : Bool :=
  let (time, rest) := word.span fun c => c.isDigit || c == ':' || c == '.'
  isTime time &&
    match rest with
    | [] => true
    | [c] => c == 'Z' || c == 'z'
    | c :: clock => (c == '+' || c == '-') && isClock clock

/-- The word is a date, a time, or both. -/
def isMoment (word : List Char) : Bool :=
  isTime word || isDate word ||
    (isDate (word.take 10) && [some 'T', some 't', some ' '].contains word[10]? &&
      isOffsetTime (word.drop 11))

/-- The value of a word. -/
def scalar? (word : List Char) : Option Value :=
  if word = "true".toList then some (.bool true)
  else if word = "false".toList then some (.bool false)
  else if isMoment word then some .moment
  else if isFraction word then some .fraction
  else (integer? word).map .integer

/-- A character of a word. -/
def isWordChar (c : Char) : Bool :=
  c.isAlphanum || c == '+' || c == '-' || c == '_' || c == '.' || c == ':'

/-- A word and the rest. A date takes a time after a blank with it. -/
def takeWord (cs : List Char) : List Char × List Char :=
  let (word, rest) := cs.span isWordChar
  match rest with
  | ' ' :: more =>
    let (next, rest') := more.span isWordChar
    if isDate word && isOffsetTime next then (word ++ ' ' :: next, rest') else (word, rest)
  | _ => (word, rest)

end SymbolAtlas.Toml
