import SymbolAtlas.Json.Reader
import Mathlib.Data.List.TakeWhile

/-!
# Texts and numerals of JSON

The grammar of white space, texts and numerals, as relations between characters and what they
spell. None of them says how far to read: the readers take the longest spelling, so what they read
is spelled by the characters they take, and a spelling is read if no character that follows could
belong to it.

* `SpellsUnits`, `SpellsNumeral`: the grammar.
* `exists_of_readText`, `exists_of_readNumeral`: what is read is spelled.
* `SpellsUnits.readText_append`, `SpellsNumeral.readNumeral_append`: what is spelled is read.
-/

namespace SymbolAtlas.Json

/-! ## White space -/

section Blank

variable {cs : List Char}

/-- All characters are white space. -/
def Blank (cs : List Char) : Prop := ∀ c ∈ cs, isSpace c = true

theorem exists_of_skipSpace {rest : List Char} (h : skipSpace cs = rest) :
    ∃ before, Blank before ∧ cs = before ++ rest := by
  subst h
  exact ⟨cs.takeWhile isSpace, fun _ hc => List.mem_takeWhile_imp hc,
    List.takeWhile_append_dropWhile.symm⟩

theorem skipSpace_append {before : List Char} (h : Blank before) (cs : List Char) :
    skipSpace (before ++ cs) = skipSpace cs := by
  rw [skipSpace, List.dropWhile_append_of_pos h, skipSpace]

theorem skipSpace_cons {c : Char} (h : isSpace c = false) (cs : List Char) :
    skipSpace (c :: cs) = c :: cs := by
  simp [skipSpace, h]

theorem blank_iff_skipSpace : Blank cs ↔ skipSpace cs = [] := by
  rw [skipSpace, List.dropWhile_eq_nil_iff, Blank]

end Blank

/-! ## Texts -/

/-- The characters between the quotes of a text spell its units. -/
inductive SpellsUnits : List Char → List TextUnit → Prop where
  | nil : SpellsUnits [] []
  | plain {c : Char} {cs : List Char} {units : List TextUnit} (hc : 0x20 ≤ c.toNat)
      (hquote : c ≠ '"') (hescape : c ≠ '\\') (h : SpellsUnits cs units) : SpellsUnits (c :: cs) (.char c :: units)
  | short {c e : Char} {cs : List Char} {units : List TextUnit} (he : shortEscape? c = some e)
      (h : SpellsUnits cs units) : SpellsUnits ('\\' :: c :: cs) (.char e :: units)
  | code {a b c d : Char} {n : Nat} {cs : List Char} {units : List TextUnit}
      (hn : hexQuad? a b c d = some n) (h : SpellsUnits cs units) :
      SpellsUnits ('\\' :: 'u' :: a :: b :: c :: d :: cs) (.unit n :: units)

variable {cs rest text : List Char}

theorem SpellsUnits.readUnits_append {units : List TextUnit} (h : SpellsUnits text units)
    (rest : List Char) : readUnits (text ++ '"' :: rest) = some (units, rest) := by
  induction h with
  | nil => simp [readUnits]
  | plain hc hquote hescape h ih =>
    rw [List.cons_append, readUnits]
    · simp [ih, hescape, Nat.not_lt.mpr hc]
    · simpa using hquote
    · simp [hescape]
    · simp [hescape]
  | short he h ih =>
    rw [List.cons_append, List.cons_append, readUnits]
    · simp [he, ih]
    · rintro a b c d rest rfl
      cases he
  | code hn h ih => simp [readUnits, hn, ih]

theorem exists_of_readUnits {units : List TextUnit} (h : readUnits cs = some (units, rest)) :
    ∃ text, cs = text ++ '"' :: rest ∧ SpellsUnits text units := by
  fun_induction readUnits cs generalizing units with
  | case1 => cases h
  | case2 rest' =>
    cases h
    exact ⟨[], rfl, .nil⟩
  | case3 a b c d after ih =>
    simp only [Option.bind_eq_bind, Option.bind_eq_some_iff] at h
    obtain ⟨n, hn, ⟨units', rest'⟩, hunits, heq⟩ := h
    cases heq
    obtain ⟨text, rfl, htext⟩ := ih hunits
    exact ⟨_, rfl, .code hn htext⟩
  | case4 c after _ ih =>
    simp only [Option.bind_eq_bind, Option.bind_eq_some_iff] at h
    obtain ⟨e, he, ⟨units', rest'⟩, hunits, heq⟩ := h
    cases heq
    obtain ⟨text, rfl, htext⟩ := ih hunits
    exact ⟨_, rfl, .short he htext⟩
  | case5 => cases h
  | case6 c after hquote _ _ hplain ih =>
    simp only [Option.bind_eq_bind, Option.bind_eq_some_iff] at h
    obtain ⟨⟨units', rest'⟩, hunits, heq⟩ := h
    cases heq
    obtain ⟨text, rfl, htext⟩ := ih hunits
    simp only [Bool.or_eq_true, decide_eq_true_eq, beq_iff_eq, not_or, Nat.not_lt] at hplain
    exact ⟨_, rfl, .plain hplain.1 hquote hplain.2 htext⟩

/-- The text that units stand for. -/
def textOf (units : List TextUnit) : Option String := (decodeUnits units).map String.ofList

theorem exists_of_readText {value : Option String} (h : readText cs = some (value, rest)) :
    ∃ text units, cs = text ++ '"' :: rest ∧ SpellsUnits text units ∧ value = textOf units := by
  simp only [readText, Option.bind_eq_bind, Option.bind_eq_some_iff] at h
  obtain ⟨⟨units, rest'⟩, hunits, heq⟩ := h
  cases heq
  obtain ⟨text, htext, hspells⟩ := exists_of_readUnits hunits
  exact ⟨text, units, htext, hspells, rfl⟩

theorem SpellsUnits.readText_append {units : List TextUnit} (h : SpellsUnits text units)
    (rest : List Char) : readText (text ++ '"' :: rest) = some (textOf units, rest) := by
  simp [readText, h.readUnits_append, textOf]

/-! ## Numerals -/

/-- Decimal digits, at least one. -/
def IsDigits (ds : List Char) : Prop := ds ≠ [] ∧ ∀ d ∈ ds, d.isDigit = true

/-- The digits before the point: a zero, or digits that do not start with one. -/
def IsWhole (ds : List Char) : Prop := IsDigits ds ∧ (ds.head? = some '0' → ds = ['0'])

/-- The digits after the point. -/
inductive SpellsFraction : List Char → Option (List Char) → Prop where
  | absent : SpellsFraction [] none
  | point {ds : List Char} (h : IsDigits ds) : SpellsFraction ('.' :: ds) (some ds)

/-- The power of ten. -/
inductive SpellsExponent : List Char → Option Int → Prop where
  | absent : SpellsExponent [] none
  | unsigned {mark : Char} {ds : List Char} (hmark : mark = 'e' ∨ mark = 'E') (h : IsDigits ds) :
      SpellsExponent (mark :: ds) (some (digitsValue 0 ds : Int))
  | plus {mark : Char} {ds : List Char} (hmark : mark = 'e' ∨ mark = 'E') (h : IsDigits ds) :
      SpellsExponent (mark :: '+' :: ds) (some (digitsValue 0 ds : Int))
  | minus {mark : Char} {ds : List Char} (hmark : mark = 'e' ∨ mark = 'E') (h : IsDigits ds) :
      SpellsExponent (mark :: '-' :: ds) (some (-(digitsValue 0 ds : Int)))

/-- The sign. -/
inductive SpellsSign : List Char → Bool → Prop where
  | absent : SpellsSign [] false
  | minus : SpellsSign ['-'] true

/-- The numeral with the given parts. -/
def numeralOf (negative : Bool) (whole : List Char) (places : Option (List Char))
    (exponent : Option Int) : Numeral where
  negative := negative
  digits := digitsValue (digitsValue 0 whole) (places.getD [])
  scale := (places.getD []).length
  exponent := exponent.getD 0
  isWhole := places.isNone && exponent.isNone

/-- The characters spell a numeral. -/
inductive SpellsNumeral : List Char → Numeral → Prop where
  | mk {sign whole fraction power : List Char} {negative : Bool} {places : Option (List Char)}
      {exponent : Option Int} (hsign : SpellsSign sign negative) (hwhole : IsWhole whole)
      (hfraction : SpellsFraction fraction places) (hpower : SpellsExponent power exponent) :
      SpellsNumeral (sign ++ whole ++ fraction ++ power) (numeralOf negative whole places exponent)

/-- No character that follows could belong to a run of digits. -/
def EndsDigits (rest : List Char) : Prop := ∀ c ∈ rest.head?, c.isDigit = false

/-- No character that follows could belong to a numeral. -/
def EndsNumeral (rest : List Char) : Prop :=
  ∀ c ∈ rest.head?, c.isDigit = false ∧ c ≠ '.' ∧ c ≠ 'e' ∧ c ≠ 'E'

theorem IsDigits.readDigits_append {ds : List Char} (h : IsDigits ds) (hrest : EndsDigits rest) :
    readDigits (ds ++ rest) = some (ds, rest) := by
  have htake : (ds ++ rest).takeWhile Char.isDigit = ds := by
    rw [List.takeWhile_append_of_pos h.2]
    cases rest <;> simp_all [EndsDigits]
  have hdrop : (ds ++ rest).dropWhile Char.isDigit = rest := by
    rw [List.dropWhile_append_of_pos h.2]
    cases rest <;> simp_all [EndsDigits]
  simp [readDigits, htake, hdrop, h.1]

theorem eq_append_of_readDigits {ds : List Char} (h : readDigits cs = some (ds, rest)) :
    cs = ds ++ rest ∧ IsDigits ds := by
  simp only [readDigits] at h
  split at h
  · cases h
  · rename_i hne
    cases h
    exact ⟨List.takeWhile_append_dropWhile.symm, by simpa using hne,
      fun _ hd => List.mem_takeWhile_imp hd⟩

theorem IsWhole.readWhole_append {ds : List Char} (h : IsWhole ds) (hrest : EndsDigits rest) :
    readWhole (ds ++ rest) = some (ds, rest) := by
  by_cases hzero : ds.head? = some '0'
  · rw [h.2 hzero, List.cons_append, List.nil_append, readWhole, if_neg]
    cases rest <;> simp_all [EndsDigits]
  · rw [readWhole]
    · exact h.1.readDigits_append hrest
    · rintro after heq
      obtain ⟨d, ds', rfl⟩ := List.exists_cons_of_ne_nil h.1.1
      cases heq
      exact hzero rfl

theorem eq_append_of_readWhole {ds : List Char} (h : readWhole cs = some (ds, rest)) :
    cs = ds ++ rest ∧ IsWhole ds := by
  fun_cases readWhole cs with
  | case1 => simp_all [readWhole]
  | case2 rest' hrest =>
    simp only [readWhole, hrest, if_false, Bool.false_eq_true] at h
    cases h
    have hdigit : ∀ d ∈ ['0'], d.isDigit = true := by
      rintro d hd
      rw [List.mem_singleton.mp hd]
      rfl
    exact ⟨rfl, ⟨List.cons_ne_nil _ _, hdigit⟩, fun _ => rfl⟩
  | case3 _ hzero =>
    rw [readWhole.eq_2 _ hzero] at h
    obtain ⟨rfl, hds⟩ := eq_append_of_readDigits h
    refine ⟨rfl, hds, fun hhead => ?_⟩
    obtain ⟨ds', rfl⟩ := List.head?_eq_some_iff.mp hhead
    exact absurd rfl (hzero (ds' ++ rest))

theorem SpellsFraction.readFraction_append {places : Option (List Char)}
    (h : SpellsFraction text places) (hdigits : EndsDigits rest) (hpoint : rest.head? ≠ some '.') :
    readFraction (text ++ rest) = some (places, rest) := by
  cases h with
  | absent =>
    rw [List.nil_append, readFraction]
    rintro after rfl
    exact hpoint rfl
  | point hds => simp [readFraction, hds.readDigits_append hdigits]

theorem exists_of_readFraction {places : Option (List Char)}
    (h : readFraction cs = some (places, rest)) :
    ∃ text, cs = text ++ rest ∧ SpellsFraction text places := by
  fun_cases readFraction cs with
  | case1 after =>
    simp only [readFraction, Option.bind_eq_bind, Option.bind_eq_some_iff] at h
    obtain ⟨⟨ds, rest'⟩, hds, heq⟩ := h
    cases heq
    obtain ⟨rfl, hdigits⟩ := eq_append_of_readDigits hds
    exact ⟨_, rfl, .point hdigits⟩
  | case2 _ hpoint =>
    rw [readFraction.eq_2 _ hpoint] at h
    cases h
    exact ⟨[], rfl, .absent⟩

theorem SpellsExponent.readExponent_append {exponent : Option Int}
    (h : SpellsExponent text exponent) (hrest : EndsNumeral rest) :
    readExponent (text ++ rest) = some (exponent, rest) := by
  have hdigits : EndsDigits rest := fun c hc => (hrest c hc).1
  cases h with
  | absent =>
    cases rest with
    | nil => rfl
    | cons c rest => simp_all [readExponent, EndsNumeral]
  | unsigned hmark hds =>
    obtain ⟨d, ds', rfl⟩ := List.exists_cons_of_ne_nil hds.1
    have hd : d.isDigit = true := hds.2 d List.mem_cons_self
    have hread := hds.readDigits_append hdigits
    rw [List.cons_append] at hread
    have hminus : d ≠ '-' := by rintro rfl; cases hd
    have hplus : d ≠ '+' := by rintro rfl; cases hd
    rcases hmark with rfl | rfl <;> simp [readExponent, hread, hminus, hplus]
  | plus hmark hds =>
    rcases hmark with rfl | rfl <;> simp [readExponent, hds.readDigits_append hdigits]
  | minus hmark hds =>
    rcases hmark with rfl | rfl <;> simp [readExponent, hds.readDigits_append hdigits]

theorem exists_of_signedDigits {after : List Char} {exponent : Option Int} {f : Nat → Int}
    (h : (do
      let (ds, rest) ← readDigits after
      return (some (f (digitsValue 0 ds)), rest)) = some (exponent, rest)) :
    ∃ ds, after = ds ++ rest ∧ IsDigits ds ∧ exponent = some (f (digitsValue 0 ds)) := by
  simp only [Option.bind_eq_bind, Option.bind_eq_some_iff] at h
  obtain ⟨⟨ds, rest'⟩, hds, heq⟩ := h
  cases heq
  obtain ⟨rfl, hdigits⟩ := eq_append_of_readDigits hds
  exact ⟨ds, rfl, hdigits, rfl⟩

theorem exists_of_readExponent {exponent : Option Int}
    (h : readExponent cs = some (exponent, rest)) :
    ∃ text, cs = text ++ rest ∧ SpellsExponent text exponent := by
  cases cs with
  | nil =>
    cases h
    exact ⟨[], rfl, .absent⟩
  | cons c after =>
    simp only [readExponent] at h
    split at h
    · rename_i hmark
      have hmark : c = 'e' ∨ c = 'E' := by simpa using hmark
      split at h
      · obtain ⟨ds, rfl, hds, rfl⟩ := exists_of_signedDigits (f := fun n => -(n : Int)) h
        exact ⟨_, rfl, .minus hmark hds⟩
      · obtain ⟨ds, rfl, hds, rfl⟩ := exists_of_signedDigits (f := Int.ofNat) h
        exact ⟨_, rfl, .plus hmark hds⟩
      · obtain ⟨ds, rfl, hds, rfl⟩ := exists_of_signedDigits (f := Int.ofNat) h
        exact ⟨_, rfl, .unsigned hmark hds⟩
    · cases h
      exact ⟨[], rfl, .absent⟩

/-- The reader of a numeral after its sign. -/
def readUnsigned (negative : Bool) (cs : List Char) : Option (Numeral × List Char) := do
  let (whole, cs) ← readWhole cs
  let (places, cs) ← readFraction cs
  let (exponent, cs) ← readExponent cs
  return (numeralOf negative whole places exponent, cs)

theorem readNumeral_minus (cs : List Char) : readNumeral ('-' :: cs) = readUnsigned true cs := rfl

theorem readNumeral_of_head?_ne (h : cs.head? ≠ some '-') :
    readNumeral cs = readUnsigned false cs := by
  rw [readNumeral]
  · rfl
  · rintro rest rfl
    exact h rfl

theorem exists_of_readUnsigned {negative : Bool} {n : Numeral} {sign : List Char}
    (hsign : SpellsSign sign negative) (h : readUnsigned negative cs = some (n, rest)) :
    ∃ text, sign ++ cs = text ++ rest ∧ SpellsNumeral text n := by
  simp only [readUnsigned, Option.bind_eq_bind, Option.bind_eq_some_iff] at h
  obtain ⟨⟨whole, cs₁⟩, hread, ⟨places, cs₂⟩, hplaces, ⟨exponent, cs₃⟩, hexponent, heq⟩ := h
  cases heq
  obtain ⟨rfl, hwhole⟩ := eq_append_of_readWhole hread
  obtain ⟨fraction, rfl, hfraction⟩ := exists_of_readFraction hplaces
  obtain ⟨power, rfl, hpower⟩ := exists_of_readExponent hexponent
  exact ⟨_, by simp only [List.append_assoc], .mk hsign hwhole hfraction hpower⟩

/-- What is read as a numeral spells it. -/
theorem exists_of_readNumeral {n : Numeral} (h : readNumeral cs = some (n, rest)) :
    ∃ text, cs = text ++ rest ∧ SpellsNumeral text n := by
  by_cases hminus : cs.head? = some '-'
  · obtain ⟨cs', rfl⟩ := List.head?_eq_some_iff.mp hminus
    rw [readNumeral_minus] at h
    exact exists_of_readUnsigned .minus h
  · rw [readNumeral_of_head?_ne hminus] at h
    exact exists_of_readUnsigned .absent h

theorem readUnsigned_append {whole fraction power : List Char} {places : Option (List Char)}
    {exponent : Option Int} (hwhole : IsWhole whole) (hfraction : SpellsFraction fraction places)
    (hpower : SpellsExponent power exponent) (hrest : EndsNumeral rest) (negative : Bool) :
    readUnsigned negative (whole ++ (fraction ++ (power ++ rest))) =
      some (numeralOf negative whole places exponent, rest) := by
  have hends : EndsDigits (power ++ rest) ∧ (power ++ rest).head? ≠ some '.' := by
    cases hpower with
    | absent => exact ⟨fun c hc => (hrest c hc).1, fun hc => (hrest _ hc).2.1 rfl⟩
    | unsigned hmark | plus hmark | minus hmark =>
      rcases hmark with rfl | rfl <;> simp [EndsDigits]
  have hpoint : EndsDigits (fraction ++ (power ++ rest)) := by
    cases hfraction with
    | absent => exact hends.1
    | point => simp [EndsDigits]
  simp [readUnsigned, hwhole.readWhole_append hpoint,
    hfraction.readFraction_append hends.1 hends.2, hpower.readExponent_append hrest]

theorem IsDigits.head {ds : List Char} (h : IsDigits ds) (cs : List Char) :
    ∃ d, (ds ++ cs).head? = some d ∧ d.isDigit = true := by
  obtain ⟨d, ds', rfl⟩ := List.exists_cons_of_ne_nil h.1
  exact ⟨d, rfl, h.2 d List.mem_cons_self⟩

/-- A spelled numeral is read, unless what follows could go on with it. -/
theorem SpellsNumeral.readNumeral_append {n : Numeral} (h : SpellsNumeral text n)
    (hrest : EndsNumeral rest) : readNumeral (text ++ rest) = some (n, rest) := by
  obtain @⟨sign, whole, fraction, power, negative, places, exponent, hsign, hwhole, hfraction,
    hpower⟩ := h
  have hread := readUnsigned_append hwhole hfraction hpower hrest negative
  simp only [List.append_assoc]
  cases hsign with
  | minus => exact hread
  | absent =>
    obtain ⟨d, hhead, hd⟩ := hwhole.1.head (fraction ++ (power ++ rest))
    rw [List.nil_append, readNumeral_of_head?_ne, hread]
    rw [hhead]
    rintro ⟨⟩
    cases hd

/-- A numeral starts with a digit or a minus sign. -/
theorem SpellsNumeral.head {n : Numeral} (h : SpellsNumeral text n) :
    ∃ c cs, text = c :: cs ∧ (c = '-' ∨ c.isDigit = true) := by
  obtain @⟨sign, whole, fraction, power, negative, places, exponent, hsign, hwhole, -, -⟩ := h
  cases hsign with
  | minus => exact ⟨'-', _, rfl, .inl rfl⟩
  | absent =>
    obtain ⟨d, hhead, hd⟩ := hwhole.1.head (fraction ++ power)
    obtain ⟨cs, hcs⟩ := List.head?_eq_some_iff.mp hhead
    exact ⟨d, cs, by rw [List.nil_append, List.append_assoc, hcs], .inr hd⟩

end SymbolAtlas.Json
