/-!
# Cutting texts

* `cut`: the pieces of a text between the occurrences of one character; there is always one piece
  more than there are occurrences.
* `stripStart`: a text without a given start.
-/

namespace SymbolAtlas.Text

/-- The pieces between the occurrences of `sep`. -/
def cut (sep : Char) : List Char → List (List Char)
  | [] => [[]]
  | c :: cs =>
    if c = sep then [] :: cut sep cs
    else
      match cut sep cs with
      | [] => [[c]]
      | piece :: pieces => (c :: piece) :: pieces

/-- What follows `start` in a text that begins with it. -/
def stripStart : List Char → List Char → Option (List Char)
  | [], cs => some cs
  | _ :: _, [] => none
  | s :: ss, c :: cs => if s = c then stripStart ss cs else none

/-- What follows `start` in the text `s`, if it begins with it. -/
def afterStart (start s : String) : Option String :=
  (stripStart start.toList s.toList).map String.ofList

/-- Pieces of a text between occurrences of two colons. -/
def cutColons : List Char → List (List Char)
  | [] => [[]]
  | ':' :: ':' :: cs => [] :: cutColons cs
  | c :: cs =>
    match cutColons cs with
    | [] => [[c]]
    | piece :: pieces => (c :: piece) :: pieces

end SymbolAtlas.Text
