import SymbolAtlas.Proofs.Json.Lexical

/-!
# The grammar of JSON

`Spells` relates characters to the document they spell, whatever reads them. The reader accepts
exactly what the grammar derives: what it reads is spelled by the characters it takes, and its fuel
is enough for every spelling.

* `Spells`, `IsDocument`: the grammar.
* `sound`: what the readers read is spelled by what they take.
* `complete`: what is spelled is read, if the fuel is enough for its length.
* `read?_eq_some_iff`: a text is read as a document if and only if it spells the document.
-/

namespace SymbolAtlas.Json

/-- The parts of a document that have a reader of their own. -/
inductive Phrase where
  | value (document : Json)
  /-- the items of an array, at least one -/
  | items (items : List Json)
  /-- the fields of an object, at least one -/
  | fields (fields : List (Option String × Json))

/-- A key in quotes and the colon after it. -/
inductive SpellsKey : List Char → Option String → Prop where
  | mk {key before after : List Char} {units : List TextUnit} (hkey : SpellsUnits key units)
      (hbefore : Blank before) (hafter : Blank after) :
      SpellsKey ('"' :: key ++ '"' :: before ++ ':' :: after) (textOf units)

/-- The characters spell a part of a document. They start with the part itself; white space stands
between the parts. -/
inductive Spells : List Char → Phrase → Prop where
  | null : Spells ['n', 'u', 'l', 'l'] (.value .null)
  | yes : Spells ['t', 'r', 'u', 'e'] (.value (.bool true))
  | no : Spells ['f', 'a', 'l', 's', 'e'] (.value (.bool false))
  | number {cs : List Char} {n : Numeral} (h : SpellsNumeral cs n) : Spells cs (.value (.number n))
  | text {cs : List Char} {units : List TextUnit} (h : SpellsUnits cs units) :
      Spells ('"' :: cs ++ ['"']) (.value (.text (textOf units)))
  | noItems {between : List Char} (hbetween : Blank between) :
      Spells ('[' :: between ++ [']']) (.value (.array []))
  | array {between cs : List Char} {items : List Json} (hbetween : Blank between)
      (h : Spells cs (.items items)) :
      Spells ('[' :: between ++ cs ++ [']']) (.value (.array items))
  | noFields {between : List Char} (hbetween : Blank between) :
      Spells ('{' :: between ++ ['}']) (.value (.object []))
  | object {between cs : List Char} {fields : List (Option String × Json)}
      (hbetween : Blank between) (h : Spells cs (.fields fields)) :
      Spells ('{' :: between ++ cs ++ ['}']) (.value (.object fields))
  | lastItem {cs after : List Char} {item : Json} (h : Spells cs (.value item))
      (hafter : Blank after) : Spells (cs ++ after) (.items [item])
  | item {cs after between cs' : List Char} {item : Json} {items : List Json}
      (h : Spells cs (.value item)) (hafter : Blank after) (hbetween : Blank between)
      (hitems : Spells cs' (.items items)) :
      Spells (cs ++ after ++ ',' :: between ++ cs') (.items (item :: items))
  | lastField {label cs after : List Char} {key : Option String} {value : Json}
      (hkey : SpellsKey label key) (h : Spells cs (.value value)) (hafter : Blank after) :
      Spells (label ++ cs ++ after) (.fields [(key, value)])
  | field {label cs after between cs' : List Char} {key : Option String} {value : Json}
      {fields : List (Option String × Json)} (hkey : SpellsKey label key)
      (h : Spells cs (.value value)) (hafter : Blank after) (hbetween : Blank between)
      (hfields : Spells cs' (.fields fields)) :
      Spells (label ++ cs ++ after ++ ',' :: between ++ cs') (.fields ((key, value) :: fields))

/-- The text spells the document, with white space around it. -/
def IsDocument (s : String) (j : Json) : Prop :=
  ∃ before text after, s.toList = before ++ text ++ after ∧ Blank before ∧ Blank after ∧
    Spells text (.value j)

namespace Phrase

/-- The characters that close a part. -/
def closing : Phrase → List Char
  | .value _ => []
  | .items _ => [']']
  | .fields _ => ['}']

/-- The reader of its kind reads the part and its closing character and leaves `rest`. -/
def Reads (fuel : Nat) (cs rest : List Char) : Phrase → Prop
  | .value j => readValue fuel cs = some (j, rest)
  | .items js => readItems fuel cs = some (js, rest)
  | .fields fs => readFields fuel cs = some (fs, rest)

end Phrase

/-! ## What is read is spelled -/

section Sound

variable {fuel : Nat} {cs rest : List Char}

/-- What the readers read with some fuel is spelled by what they take. -/
def Sound (fuel : Nat) : Prop :=
  ∀ (p : Phrase) (cs rest : List Char), p.Reads fuel cs rest →
    ∃ before text, Blank before ∧ cs = before ++ text ++ p.closing ++ rest ∧ Spells text p

theorem eq_append_of_readWord {word : String} (h : readWord word cs = some rest) :
    cs = word.toList ++ rest := by
  simp only [readWord] at h
  split at h
  · rename_i hprefix
    obtain ⟨after, rfl⟩ := List.isPrefixOf_iff_prefix.mp hprefix
    cases h
    rw [← String.length_toList, List.drop_left]
  · cases h

theorem Sound.readValue (h : Sound fuel) {j : Json}
    (hread : readValue (fuel + 1) cs = some (j, rest)) :
    ∃ before text, Blank before ∧ cs = before ++ text ++ rest ∧ Spells text (.value j) := by
  rw [Json.readValue] at hread
  generalize hstart : skipSpace cs = start at hread
  obtain ⟨before, hbefore, rfl⟩ := exists_of_skipSpace hstart
  refine ⟨before, ?_⟩
  split at hread
  case h_1 =>
    split at hread
    · rename_i hclose
      cases hread
      obtain ⟨between, hbetween, rfl⟩ := exists_of_skipSpace hclose
      exact ⟨_, hbefore, by simp, .noItems hbetween⟩
    · simp only [Option.bind_eq_bind, Option.bind_eq_some_iff] at hread
      obtain ⟨⟨items, rest'⟩, hitems, heq⟩ := hread
      cases heq
      obtain ⟨between, text, hbetween, rfl, htext⟩ := h (.items items) _ _ hitems
      exact ⟨_, hbefore, by simp [Phrase.closing], .array hbetween htext⟩
  case h_2 =>
    split at hread
    · rename_i hclose
      cases hread
      obtain ⟨between, hbetween, rfl⟩ := exists_of_skipSpace hclose
      exact ⟨_, hbefore, by simp, .noFields hbetween⟩
    · simp only [Option.bind_eq_bind, Option.bind_eq_some_iff] at hread
      obtain ⟨⟨fields, rest'⟩, hfields, heq⟩ := hread
      cases heq
      obtain ⟨between, text, hbetween, rfl, htext⟩ := h (.fields fields) _ _ hfields
      exact ⟨_, hbefore, by simp [Phrase.closing], .object hbetween htext⟩
  all_goals
    simp only [Option.bind_eq_bind, Option.bind_eq_some_iff] at hread
  case h_3 =>
    obtain ⟨⟨value, rest'⟩, hvalue, heq⟩ := hread
    cases heq
    obtain ⟨text, units, rfl, htext, rfl⟩ := exists_of_readText hvalue
    exact ⟨_, hbefore, by simp, .text htext⟩
  case h_4 =>
    obtain ⟨rest', hword, heq⟩ := hread
    cases heq
    exact ⟨_, hbefore, by simp [eq_append_of_readWord hword], .null⟩
  case h_5 =>
    obtain ⟨rest', hword, heq⟩ := hread
    cases heq
    exact ⟨_, hbefore, by simp [eq_append_of_readWord hword], .yes⟩
  case h_6 =>
    obtain ⟨rest', hword, heq⟩ := hread
    cases heq
    exact ⟨_, hbefore, by simp [eq_append_of_readWord hword], .no⟩
  case h_7 =>
    obtain ⟨⟨n, rest'⟩, hnumeral, heq⟩ := hread
    cases heq
    obtain ⟨text, rfl, htext⟩ := exists_of_readNumeral hnumeral
    exact ⟨_, hbefore, by simp, .number htext⟩

theorem Sound.readItems (h : Sound fuel) {items : List Json}
    (hread : readItems (fuel + 1) cs = some (items, rest)) :
    ∃ before text, Blank before ∧ cs = before ++ text ++ [']'] ++ rest ∧
      Spells text (.items items) := by
  simp only [Json.readItems, Option.bind_eq_bind, Option.bind_eq_some_iff] at hread
  obtain ⟨⟨item, rest₁⟩, hitem, hread⟩ := hread
  obtain ⟨before, text, hbefore, rfl, htext⟩ := h (.value item) _ _ hitem
  refine ⟨before, ?_⟩
  split at hread
  · rename_i hclose
    cases hread
    obtain ⟨after, hafter, rfl⟩ := exists_of_skipSpace hclose
    exact ⟨_, hbefore, by simp [Phrase.closing], .lastItem htext hafter⟩
  · rename_i hcomma
    obtain ⟨after, hafter, rfl⟩ := exists_of_skipSpace hcomma
    simp only [Option.bind_eq_some_iff] at hread
    obtain ⟨⟨items, rest₂⟩, hitems, heq⟩ := hread
    cases heq
    obtain ⟨between, text', hbetween, rfl, htext'⟩ := h (.items items) _ _ hitems
    exact ⟨_, hbefore, by simp [Phrase.closing], .item htext hafter hbetween htext'⟩
  · cases hread

theorem Sound.readFields (h : Sound fuel) {fields : List (Option String × Json)}
    (hread : readFields (fuel + 1) cs = some (fields, rest)) :
    ∃ before text, Blank before ∧ cs = before ++ text ++ ['}'] ++ rest ∧
      Spells text (.fields fields) := by
  rw [Json.readFields] at hread
  split at hread
  case h_2 => cases hread
  rename_i hquote
  obtain ⟨before, hbefore, rfl⟩ := exists_of_skipSpace hquote
  refine ⟨before, ?_⟩
  simp only [Option.bind_eq_bind, Option.bind_eq_some_iff] at hread
  obtain ⟨⟨key, rest₁⟩, hkey, hread⟩ := hread
  obtain ⟨label, units, rfl, hunits, rfl⟩ := exists_of_readText hkey
  split at hread
  case h_2 => cases hread
  rename_i hcolon
  obtain ⟨between, hbetween, rfl⟩ := exists_of_skipSpace hcolon
  simp only [Option.bind_eq_some_iff] at hread
  obtain ⟨⟨value, rest₂⟩, hvalue, hread⟩ := hread
  obtain ⟨between', text, hbetween', rfl, htext⟩ := h (.value value) _ _ hvalue
  have hlabel := SpellsKey.mk hunits hbetween hbetween'
  split at hread
  · rename_i hclose
    obtain ⟨after, hafter, rfl⟩ := exists_of_skipSpace hclose
    cases hread
    exact ⟨_, hbefore, by simp [Phrase.closing], .lastField hlabel htext hafter⟩
  · rename_i hcomma
    obtain ⟨after, hafter, rfl⟩ := exists_of_skipSpace hcomma
    simp only [Option.bind_eq_some_iff] at hread
    obtain ⟨⟨fields, rest₃⟩, hfields, heq⟩ := hread
    cases heq
    obtain ⟨between₂, text', hbetween₂, rfl, htext'⟩ := h (.fields fields) _ _ hfields
    exact ⟨_, hbefore, by simp [Phrase.closing], .field hlabel htext hafter hbetween₂ htext'⟩
  · cases hread

theorem sound (fuel : Nat) : Sound fuel := by
  induction fuel with
  | zero => rintro (j | items | fields) cs rest hread <;> cases hread
  | succ fuel ih =>
    rintro (j | items | fields) cs rest hread
    · simpa [Phrase.closing] using ih.readValue hread
    · exact ih.readItems hread
    · exact ih.readFields hread

end Sound

/-! ## What is spelled is read -/

namespace Phrase

/-- Fuel enough to read the part from a number of characters. -/
def fuel (length : Nat) : Phrase → Nat
  | .value _ => 2 * length
  | .items _ | .fields _ => 2 * length + 1

/-- What may follow the part; only a numeral has no end of its own. -/
def Ends (rest : List Char) : Phrase → Prop
  | .value _ => EndsNumeral rest
  | .items _ | .fields _ => True

end Phrase

section Complete

variable {fuel : Nat} {before cs rest text : List Char}

theorem endsNumeral_of_blank (h : Blank cs) : EndsNumeral cs := by
  intro c hc
  have hspace := h c (List.mem_of_mem_head? hc)
  simp only [isSpace, Bool.or_eq_true, beq_iff_eq] at hspace
  rcases hspace with ((rfl | rfl) | rfl) | rfl <;> decide

theorem endsNumeral_append (h : Blank before) (hrest : EndsNumeral rest) :
    EndsNumeral (before ++ rest) := by
  cases before with
  | nil => exact hrest
  | cons c before => exact fun d hd => endsNumeral_of_blank h d hd

theorem skipSpace_append_cons (h : Blank before) {c : Char} (hc : isSpace c = false)
    (cs : List Char) : skipSpace (before ++ c :: cs) = c :: cs := by
  rw [skipSpace_append h, skipSpace_cons hc]

theorem readWord_append (word : String) (rest : List Char) :
    readWord word (word.toList ++ rest) = some rest := by
  have hprefix : word.toList.isPrefixOf (word.toList ++ rest) = true := by simp
  rw [readWord, if_pos hprefix, ← String.length_toList, List.drop_left]

theorem ne_of_isDigit {c d : Char} (hc : c.isDigit = true) (hd : d.isDigit = false) : c ≠ d := by
  rintro rfl
  rw [hc] at hd
  cases hd

/-- A part starts with a character that is neither white space nor closes what it stands in. -/
theorem Spells.head {p : Phrase} (h : Spells text p) :
    ∃ c cs, text = c :: cs ∧ isSpace c = false ∧ c ≠ ']' ∧ c ≠ '}' := by
  induction h with
  | null | yes | no | text | noItems | array | noFields | object =>
    exact ⟨_, _, rfl, by decide⟩
  | number h =>
    obtain ⟨c, cs, rfl, hc⟩ := h.head
    refine ⟨c, cs, rfl, ?_⟩
    rcases hc with rfl | hc
    · decide
    · have hne := fun {d : Char} => ne_of_isDigit (d := d) hc
      exact ⟨by simp [isSpace, hne], hne rfl, hne rfl⟩
  | lastItem h hafter ih | item h hafter hbetween hitems ih =>
    obtain ⟨c, cs, rfl, hc⟩ := ih
    exact ⟨c, _, rfl, hc⟩
  | lastField hkey | field hkey =>
    cases hkey
    exact ⟨_, _, rfl, by decide⟩

theorem endsNumeral_mark {c : Char} (hc : c = ',' ∨ c = ']' ∨ c = '}') (rest : List Char) :
    EndsNumeral (c :: rest) := by
  rintro d ⟨⟩
  rcases hc with rfl | rfl | rfl <;> decide

theorem SpellsNumeral.readValue_append {n : Numeral} (h : SpellsNumeral text n)
    (hbefore : Blank before) (hrest : EndsNumeral rest) :
    readValue (fuel + 1) (before ++ text ++ rest) = some (.number n, rest) := by
  obtain ⟨c, cs, rfl, hc⟩ := h.head
  obtain ⟨_, _, heq, hspace, -⟩ := (Spells.number h).head
  cases heq
  have hne : ∀ d : Char, d.isDigit = false → d ≠ '-' → c ≠ d := fun d hd hminus =>
    hc.elim (fun hc => hc ▸ hminus.symm) fun hc => ne_of_isDigit hc hd
  rw [List.append_assoc, List.cons_append, readValue, skipSpace_append_cons hbefore hspace,
    ← List.cons_append]
  split
  case h_7 =>
    rw [h.readNumeral_append hrest]
    rfl
  all_goals
    rename_i heq
    exact absurd (List.cons.inj heq).1 (hne _ (by decide) (by decide))

/-- What is spelled is read with some fuel, if it is enough. -/
def Complete (fuel : Nat) : Prop :=
  ∀ {p : Phrase} {before text rest : List Char}, Spells text p → Blank before → p.Ends rest →
    p.fuel text.length ≤ fuel → p.Reads fuel (before ++ text ++ p.closing ++ rest) rest

namespace Complete

theorem value (h : Complete fuel) {j : Json} (htext : Spells text (.value j))
    (hbefore : Blank before) (hrest : EndsNumeral rest) (hfuel : 2 * text.length ≤ fuel) :
    readValue fuel (before ++ (text ++ rest)) = some (j, rest) := by
  simpa [Phrase.Reads, Phrase.closing] using h htext hbefore hrest hfuel

theorem items (h : Complete fuel) {items : List Json} (htext : Spells text (.items items))
    (hbefore : Blank before) (hfuel : 2 * text.length + 1 ≤ fuel) (rest : List Char) :
    readItems fuel (before ++ (text ++ ']' :: rest)) = some (items, rest) := by
  simpa [Phrase.Reads, Phrase.closing] using h htext hbefore trivial hfuel

theorem fields (h : Complete fuel) {fields : List (Option String × Json)}
    (htext : Spells text (.fields fields)) (hbefore : Blank before)
    (hfuel : 2 * text.length + 1 ≤ fuel) (rest : List Char) :
    readFields fuel (before ++ (text ++ '}' :: rest)) = some (fields, rest) := by
  simpa [Phrase.Reads, Phrase.closing] using h htext hbefore trivial hfuel

theorem readValue_succ (h : Complete fuel) {j : Json} (htext : Spells text (.value j))
    (hbefore : Blank before) (hrest : EndsNumeral rest) (hfuel : 2 * text.length ≤ fuel + 1) :
    readValue (fuel + 1) (before ++ text ++ rest) = some (j, rest) := by
  have hskip : ∀ {c : Char} {cs : List Char}, isSpace c = false →
      skipSpace (before ++ c :: cs) = c :: cs := fun hc => skipSpace_append_cons hbefore hc _
  cases htext with
  | null =>
    have hword : readWord "ull" ('u' :: 'l' :: 'l' :: rest) = some rest := readWord_append _ _
    simp [readValue, hskip, isSpace, hword]
  | yes =>
    have hword : readWord "rue" ('r' :: 'u' :: 'e' :: rest) = some rest := readWord_append _ _
    simp [readValue, hskip, isSpace, hword]
  | no =>
    have hword : readWord "alse" ('a' :: 'l' :: 's' :: 'e' :: rest) = some rest :=
      readWord_append _ _
    simp [readValue, hskip, isSpace, hword]
  | number hn => exact hn.readValue_append hbefore hrest
  | text hunits => simp [readValue, hskip, isSpace, hunits.readText_append]
  | noItems hbetween => simp [readValue, hskip, isSpace, skipSpace_append_cons hbetween]
  | noFields hbetween => simp [readValue, hskip, isSpace, skipSpace_append_cons hbetween]
  | array hbetween hitems =>
    have hread := h.items hitems hbetween (by simp at hfuel; omega) rest
    obtain ⟨c, cs, rfl, hspace, hclose, -⟩ := hitems.head
    simp only [List.cons_append] at hread
    simp [readValue, hskip, isSpace, skipSpace_append_cons hbetween hspace, hclose, hread]
  | object hbetween hfields =>
    have hread := h.fields hfields hbetween (by simp at hfuel; omega) rest
    obtain ⟨c, cs, rfl, hspace, -, hclose⟩ := hfields.head
    simp only [List.cons_append] at hread
    simp [readValue, hskip, isSpace, skipSpace_append_cons hbetween hspace, hclose, hread]

theorem readItems_succ (h : Complete fuel) {items : List Json} (htext : Spells text (.items items))
    (hbefore : Blank before) (hfuel : 2 * text.length ≤ fuel) :
    readItems (fuel + 1) (before ++ text ++ [']'] ++ rest) = some (items, rest) := by
  cases htext with
  | lastItem hitem hafter =>
    have hends := endsNumeral_append hafter (endsNumeral_mark (c := ']') (by simp) rest)
    have hread := h.value hitem hbefore hends (by simp at hfuel; omega)
    simp [readItems, hread, skipSpace_append_cons hafter, isSpace]
  | @item cs after between cs' item items hitem hafter hbetween hitems =>
    have hends := endsNumeral_append hafter
      (endsNumeral_mark (c := ',') (by simp) (between ++ (cs' ++ ']' :: rest)))
    have hread := h.value hitem hbefore hends (by simp at hfuel; omega)
    have hreads := h.items hitems hbetween (by simp at hfuel; omega) rest
    simp [readItems, hread, hreads, skipSpace_append_cons hafter, isSpace]

theorem readFields_succ (h : Complete fuel) {fields : List (Option String × Json)}
    (htext : Spells text (.fields fields)) (hbefore : Blank before)
    (hfuel : 2 * text.length ≤ fuel) :
    readFields (fuel + 1) (before ++ text ++ ['}'] ++ rest) = some (fields, rest) := by
  cases htext with
  | lastField hkey hvalue hafter =>
    obtain ⟨hunits, hcolon, hbetween⟩ := hkey
    have hends := endsNumeral_append hafter (endsNumeral_mark (c := '}') (by simp) rest)
    have hread := h.value hvalue hbetween hends (by simp at hfuel; omega)
    simp [readFields, skipSpace_append_cons hbefore, hunits.readText_append,
      skipSpace_append_cons hcolon, hread, skipSpace_append_cons hafter, isSpace]
  | @field label cs after next cs' key value fields hkey hvalue hafter hnext hfields =>
    obtain ⟨hunits, hcolon, hbetween⟩ := hkey
    have hends := endsNumeral_append hafter
      (endsNumeral_mark (c := ',') (by simp) (next ++ (cs' ++ '}' :: rest)))
    have hread := h.value hvalue hbetween hends (by simp at hfuel; omega)
    have hreads := h.fields hfields hnext (by simp at hfuel; omega) rest
    simp [readFields, skipSpace_append_cons hbefore, hunits.readText_append,
      skipSpace_append_cons hcolon, hread, hreads, skipSpace_append_cons hafter, isSpace]

end Complete

theorem complete (fuel : Nat) : Complete fuel := by
  induction fuel with
  | zero =>
    intro p before text rest htext _ _ hfuel
    obtain ⟨c, cs, rfl, -⟩ := htext.head
    cases p <;> simp [Phrase.fuel] at hfuel
  | succ fuel ih =>
    -- a reader passes all but one unit of its fuel on, and the inner parts are shorter
    intro p before text rest htext hbefore hrest hfuel
    cases p with
    | value =>
      simpa [Phrase.Reads, Phrase.closing] using ih.readValue_succ htext hbefore hrest hfuel
    | items => exact ih.readItems_succ htext hbefore (Nat.le_of_succ_le_succ hfuel)
    | fields => exact ih.readFields_succ htext hbefore (Nat.le_of_succ_le_succ hfuel)

end Complete

/-- A text is read as a document if and only if it spells the document. -/
theorem read?_eq_some_iff {s : String} {j : Json} : read? s = some j ↔ IsDocument s j := by
  simp only [read?, Option.bind_eq_bind, Option.bind_eq_some_iff]
  constructor
  · rintro ⟨⟨value, rest⟩, hread, hrest⟩
    split at hrest
    · rename_i hempty
      cases hrest
      obtain ⟨before, text, hbefore, heq, htext⟩ := sound _ (.value value) _ _ hread
      exact ⟨before, text, rest, by simpa [Phrase.closing] using heq, hbefore,
        blank_iff_skipSpace.mpr (by simpa using hempty), htext⟩
    · cases hrest
  · rintro ⟨before, text, after, heq, hbefore, hafter, htext⟩
    have hfuel : 2 * text.length ≤ 2 * s.length + 2 := by
      rw [← String.length_toList, heq]
      simp
      omega
    refine ⟨(j, after), ?_, by simp [blank_iff_skipSpace.mp hafter]⟩
    rw [heq, List.append_assoc]
    exact Complete.value (complete _) htext hbefore (endsNumeral_of_blank hafter) hfuel

end SymbolAtlas.Json
