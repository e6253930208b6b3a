/-!
# Lower case

Keywords and file extensions are compared after lower-casing. All of them are ASCII words, so of
the Unicode lower-case mapping only the characters whose image is ASCII can decide a comparison:
the letters A to Z, and the Kelvin sign, whose lower-case form is the letter k. Every other
character that has a lower-case form keeps a character outside ASCII in it.
-/

namespace SymbolAtlas.Text

/-- Lower case of one character, as far as an ASCII text can tell. -/
def lowerChar (c : Char) : Char :=
  if c.toNat = 0x212A then 'k' else c.toLower

/-- Lower case of a text, as far as an ASCII text can tell. -/
def lower (s : String) : String :=
  String.ofList (s.toList.map lowerChar)

end SymbolAtlas.Text
