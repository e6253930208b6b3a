import SymbolAtlas.Json.Writer
import SymbolAtlas.Proofs.Json.Grammar

/-!
# The compact form is read back

The compact form of a document spells it, so reading it gives the document back.

- **Texts** (`exists_spellsUnits_escaped`): every character stands for itself or has an escape, and
  the escapes stand for the characters they replace.
- **Numerals** (`spellsNumeral_numeralText`): the decimal digits of a number have no zero in front.
- **Documents** (`Writable`): documents that are only made of texts with a value and of whole
  numerals. Their compact form spells them (`spells_compact`) and is read back (`read?_compact`).
-/

namespace SymbolAtlas.Json

/-! ## Texts -/

section Texts

variable {n : Nat} {cs : List Char} {units : List TextUnit}

theorem decodeUnits_unit (hhigh : isHighHalf n = false) (hlow : isLowHalf n = false)
    (units : List TextUnit) :
    decodeUnits (.unit n :: units) = (Char.ofNat n :: ·) <$> decodeUnits units := by
  cases units with
  | nil => simp [decodeUnits, hhigh, hlow]
  | cons unit rest =>
    cases unit with
    | char c => simp [decodeUnits, hhigh, hlow]
    | unit lo => rw [decodeUnits]; simp [hhigh, hlow]

theorem hexQuad?_hexChar (h : n < 0x20) :
    hexQuad? '0' '0' (hexChar (n / 16)) (hexChar n) = some n := by
  have hall : ∀ n < 0x20, hexQuad? '0' '0' (hexChar (n / 16)) (hexChar n) = some n := by decide
  exact hall n h

/-- A character that is written in front of a text is read in front of it. -/
theorem exists_spellsUnits_escapeChar (c : Char) (h : SpellsUnits cs units) :
    ∃ units', SpellsUnits (escapeChar c ++ cs) units' ∧
      decodeUnits units' = (c :: ·) <$> decodeUnits units := by
  unfold escapeChar
  split
  case h_8 _ hquote hescape _ _ _ _ _ =>
    split
    · rename_i hcontrol
      have hhigh : isHighHalf c.toNat = false := by simp [isHighHalf]; omega
      have hlow : isLowHalf c.toNat = false := by simp [isLowHalf]; omega
      refine ⟨.unit c.toNat :: units, .code (hexQuad?_hexChar hcontrol) h, ?_⟩
      rw [decodeUnits_unit hhigh hlow, Char.ofNat_toNat]
    · rename_i hplain
      exact ⟨_, .plain (Nat.not_lt.mp hplain) hquote hescape h, rfl⟩
  -- the characters with a short escape
  all_goals exact ⟨_, .short rfl h, rfl⟩

/-- What stands between the quotes of a text spells the text. -/
theorem exists_spellsUnits_escaped (s : String) :
    ∃ units, SpellsUnits (s.toList.flatMap escapeChar) units ∧ textOf units = some s := by
  have hchars : ∀ cs : List Char, ∃ units, SpellsUnits (cs.flatMap escapeChar) units ∧
      decodeUnits units = some cs := by
    intro cs
    induction cs with
    | nil => exact ⟨[], .nil, rfl⟩
    | cons c cs ih =>
      obtain ⟨units, hspells, hdecode⟩ := ih
      obtain ⟨units', hspells', hdecode'⟩ := exists_spellsUnits_escapeChar c hspells
      exact ⟨units', hspells', by rw [hdecode', hdecode]; rfl⟩
  obtain ⟨units, hspells, hdecode⟩ := hchars s.toList
  exact ⟨units, hspells, by rw [textOf, hdecode, Option.map_some, String.ofList_toList]⟩

theorem toList_quote (s : String) :
    (quote s).toList = '"' :: s.toList.flatMap escapeChar ++ ['"'] := by
  simp [quote]

end Texts

/-! ## Numerals -/

theorem digitsValue_toDigits (n : Nat) : digitsValue 0 (Nat.toDigits 10 n) = n := by
  have hvalue := @Nat.ofDigitChars_toDigits 10 n (by decide) (by decide)
  simpa only [digitsValue, Nat.ofDigitChars_eq_foldl, Nat.mul_comm 10] using hvalue

theorem isDigits_toDigits (n : Nat) : IsDigits (Nat.toDigits 10 n) :=
  ⟨Nat.toDigits_ne_nil, fun _ hd => Nat.isDigit_of_mem_toDigits (by decide) (by decide) hd⟩

/-- No zero stands in front of the digits of a number. -/
theorem isWhole_toDigits (n : Nat) : IsWhole (Nat.toDigits 10 n) := by
  refine ⟨isDigits_toDigits n, ?_⟩
  induction n using Nat.strongRecOn with
  | ind n ih =>
    by_cases hn : n < 10
    · rw [Nat.toDigits_of_lt_base hn]
      intro hhead
      rw [Option.some.inj hhead]
    · rw [Nat.toDigits_of_base_le (by decide) (Nat.not_lt.mp hn)]
      intro hhead
      -- the digits in front are those of a smaller number, which is not zero
      obtain ⟨d, ds, hds⟩ := List.exists_cons_of_ne_nil (isDigits_toDigits (n / 10)).1
      have hfront : (Nat.toDigits 10 (n / 10)).head? = some '0' := by
        simpa [hds] using hhead
      have hzero := digitsValue_toDigits (n / 10)
      rw [ih (n / 10) (by omega) hfront] at hzero
      have : n / 10 = 0 := hzero.symm
      omega

/-- A whole numeral as it is written. -/
def wholeNumeral (negative : Bool) (digits : Nat) : Numeral := ⟨negative, digits, 0, 0, true⟩

theorem spellsNumeral_numeralText (negative : Bool) (digits : Nat) :
    SpellsNumeral (numeralText (wholeNumeral negative digits)).toList
      (wholeNumeral negative digits) := by
  have hnumeral : wholeNumeral negative digits =
      numeralOf negative (Nat.toDigits 10 digits) none none := by
    rw [numeralOf, digitsValue_toDigits]
    rfl
  have hsign : SpellsSign (if negative then "-" else "").toList negative := by
    cases negative with
    | false => exact .absent
    | true => exact .minus
  have htext : (numeralText (wholeNumeral negative digits)).toList =
      (if negative then "-" else "").toList ++ Nat.toDigits 10 digits ++ [] ++ [] := by
    rw [numeralText, String.toList_append, List.append_nil, List.append_nil]
    exact congrArg _ Nat.toList_repr
  rw [htext, hnumeral]
  exact .mk hsign (isWhole_toDigits digits) .absent .absent

/-! ## Documents -/

/-- The document is made of texts with a value and of whole numerals only. -/
inductive Writable : Json → Prop where
  | null : Writable .null
  | bool (b : Bool) : Writable (.bool b)
  | number (negative : Bool) (digits : Nat) : Writable (.number (wholeNumeral negative digits))
  | text (s : String) : Writable (.text (some s))
  | array {items : List Json} (h : ∀ item ∈ items, Writable item) : Writable (.array items)
  | object {fields : List (Option String × Json)} (hkeys : ∀ field ∈ fields, field.1.isSome = true)
      (h : ∀ field ∈ fields, Writable field.2) : Writable (.object fields)

theorem writable_ofText (s : String) : Writable (ofText s) := .text s

theorem writable_ofInt (i : Int) : Writable (ofInt i) := .number _ _

theorem writable_record {fields : List (String × Json)} (h : ∀ field ∈ fields, Writable field.2) :
    Writable (record fields) := by
  refine .object (fun field hfield => ?_) fun field hfield => ?_
  · obtain ⟨_, -, rfl⟩ := List.mem_map.mp hfield
    rfl
  · obtain ⟨given, hgiven, rfl⟩ := List.mem_map.mp hfield
    exact h given hgiven

theorem blank_nil : Blank [] := fun _ h => absurd h List.not_mem_nil

theorem spells_compactItems {items : List Json} (hne : items ≠ [])
    (h : ∀ item ∈ items, Spells item.compact.toList (.value item)) :
    Spells (compactItems items).toList (.items items) := by
  induction items with
  | nil => exact absurd rfl hne
  | cons item items ih =>
    have hitem := h item List.mem_cons_self
    cases items with
    | nil => simpa [compactItems] using Spells.lastItem hitem blank_nil
    | cons next items =>
      have hrest := ih (List.cons_ne_nil _ _) fun item hitem => h item (.tail _ hitem)
      simpa [compactItems] using Spells.item hitem blank_nil blank_nil hrest

theorem spellsKey_quote (key : String) : SpellsKey (quote key ++ ":").toList (some key) := by
  obtain ⟨units, hspells, htext⟩ := exists_spellsUnits_escaped key
  rw [← htext]
  simpa [toList_quote] using SpellsKey.mk hspells blank_nil blank_nil

theorem spells_compactFields {fields : List (Option String × Json)} (hne : fields ≠ [])
    (hkeys : ∀ field ∈ fields, field.1.isSome = true)
    (h : ∀ field ∈ fields, Spells field.2.compact.toList (.value field.2)) :
    Spells (compactFields fields).toList (.fields fields) := by
  induction fields with
  | nil => exact absurd rfl hne
  | cons field fields ih =>
    obtain ⟨key, value⟩ := field
    obtain ⟨key, rfl⟩ := Option.isSome_iff_exists.mp (hkeys _ List.mem_cons_self)
    have hkey := spellsKey_quote key
    have hvalue := h _ List.mem_cons_self
    cases fields with
    | nil => simpa [compactFields] using Spells.lastField hkey hvalue blank_nil
    | cons next fields =>
      have hrest := ih (List.cons_ne_nil _ _) (fun field hfield => hkeys field (.tail _ hfield))
        fun field hfield => h field (.tail _ hfield)
      simpa [compactFields] using Spells.field hkey hvalue blank_nil blank_nil hrest

/-- The compact form of a document spells it. -/
theorem spells_compact {j : Json} (h : Writable j) : Spells j.compact.toList (.value j) := by
  induction h with
  | null => exact .null
  | bool b =>
    cases b with
    | false => exact .no
    | true => exact .yes
  | number negative digits =>
    rw [compact]
    exact .number (spellsNumeral_numeralText negative digits)
  | text s =>
    obtain ⟨units, hspells, htext⟩ := exists_spellsUnits_escaped s
    rw [compact, Option.getD_some, toList_quote, ← htext]
    exact .text hspells
  | @array items _ ih =>
    by_cases hitems : items = []
    · subst hitems
      exact .noItems blank_nil
    · simpa [compact] using Spells.array blank_nil (spells_compactItems hitems ih)
  | @object fields hkeys _ ih =>
    by_cases hfields : fields = []
    · subst hfields
      exact .noFields blank_nil
    · simpa [compact] using Spells.object blank_nil (spells_compactFields hfields hkeys ih)

/-- Reading the compact form of a document gives it back. -/
theorem read?_compact {j : Json} (h : Writable j) : read? j.compact = some j :=
  read?_eq_some_iff.mpr ⟨[], j.compact.toList, [], by simp, blank_nil, blank_nil, spells_compact h⟩

end SymbolAtlas.Json
