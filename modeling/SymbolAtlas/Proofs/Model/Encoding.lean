import SymbolAtlas.Model.Encoding
import SymbolAtlas.Proofs.Json.Compact
import SymbolAtlas.Proofs.Json.Records

/-!
# The model in JSON and back

What a value of the model is in a document is stated on the document (`IsInt`, `IsWord`,
`HasField`, `HasOptional`), without a reader. The readers accept exactly these documents, and what
is written is one of them.

- **Parts** (`Accepts`): a reader accepts a notion of what a value is in a document; integers, words
  and values that may be null.
- **Records** (`record_eq_some_iff`): a record is read if each of its fields is.
- **Types of the model** (`Documented.Coded`): the documents of each type. From these alone it
  follows that printing and parsing fit together (`Coded.roundTrips`).
-/

namespace SymbolAtlas

/-! ## Parts -/

namespace Json

variable {α : Type} {names : List String} {name : String} {j : Json}

/-- The reader accepts the documents that are a value, and reads that value. -/
def Accepts (read : Json → Option α) (is : α → Json → Prop) : Prop :=
  ∀ value a, read value = some a ↔ is a value

/-- The document is the text. -/
def IsText (s : String) (value : Json) : Prop := value = ofText s

/-- The document is the integer, which has 64 bits. -/
def IsInt (i : Int) (value : Json) : Prop :=
  fits64 i = true ∧ ∃ n : Numeral, value = .number n ∧ n.toInt? = some i

/-- The document is the word of the value, or an object with nothing but the word as a key. -/
def IsWord [Worded α] (a : α) (value : Json) : Prop :=
  value = ofText (Worded.word a) ∨ value = .object [(some (Worded.word a), .null)]

/-- The document is the value, or null where there is none. -/
def IsNullable (is : α → Json → Prop) (a : Option α) (value : Json) : Prop :=
  value = .null ∧ a = none ∨ ∃ b, a = some b ∧ is b value

theorem accepts_text : Accepts text? IsText := inverts_text

theorem toInt?_ofInt (i : Int) :
    (Numeral.mk (decide (i < 0)) i.natAbs 0 0 true).toInt? = some i := by
  by_cases hi : i < 0
  · simp only [Numeral.toInt?, if_true, decide_eq_true hi, Int.natAbs_eq_zero]
    rw [if_neg (by omega)]
    congr 1
    omega
  · simp only [Numeral.toInt?, if_true, decide_eq_false hi, Bool.false_eq_true, if_false]
    congr 1
    omega

theorem accepts_int : Accepts int64? IsInt := by
  intro value i
  cases value with
  | number n =>
    simp only [int64?, Option.filter_eq_some_iff, IsInt, number.injEq]
    exact ⟨fun h => ⟨h.2, n, rfl, h.1⟩, fun ⟨hfits, _, heq, h⟩ => ⟨heq ▸ h, hfits⟩⟩
  | _ => simp [int64?, IsInt]

theorem isInt_ofInt {i : Int} (h : fits64 i = true) : IsInt i (ofInt i) :=
  ⟨h, _, rfl, toInt?_ofInt i⟩

theorem accepts_nullable {read : Json → Option α} {is : α → Json → Prop} (h : Accepts read is)
    (hnull : ∀ a, ¬ is a .null) : Accepts (Record.nullable read) (IsNullable is) := by
  intro value a
  fun_cases Record.nullable read value with
  | case1 => simp [IsNullable, hnull, eq_comm]
  | case2 _ hnot =>
    have hvalue : value ≠ .null := hnot
    simp only [IsNullable, hvalue, false_and, false_or, Option.map_eq_some_iff, h value]
    constructor
    · rintro ⟨b, hb, rfl⟩
      exact ⟨b, rfl, hb⟩
    · rintro ⟨b, rfl, hb⟩
      exact ⟨b, hb, rfl⟩

theorem not_isText_null (s : String) : ¬ IsText s .null := by
  simp [IsText, ofText]

end Json

/-- The words of a type tell its values apart, and all of its values are listed. -/
structure Worded.Lawful (α : Type) [Worded α] : Prop where
  complete : ∀ a : α, a ∈ (Worded.all : List α)
  injective : ∀ a b : α, Worded.word a = Worded.word b → a = b

theorem Worded.Lawful.ofWord?_eq_some_iff {α : Type} [Worded α] (h : Worded.Lawful α) {s : String}
    {a : α} : Worded.ofWord? s = some a ↔ s = Worded.word a := by
  constructor
  · intro hfind
    have hword := List.find?_some hfind
    exact (beq_iff_eq.mp hword).symm
  · rintro rfl
    obtain ⟨b, hb⟩ := Option.isSome_iff_exists.mp (List.find?_isSome (p := fun b =>
      Worded.word b == Worded.word a).mpr ⟨a, h.complete a, by simp⟩)
    have hword := List.find?_some hb
    rw [h.injective b a (beq_iff_eq.mp hword)] at hb
    exact hb

namespace Json

variable {α : Type} {names : List String} {name : String} {j : Json}

open Documented in
theorem accepts_word [Worded α] (h : Worded.Lawful α) :
    Accepts (wordOfJson? : Json → Option α) IsWord := by
  intro value a
  fun_cases wordOfJson? (α := α) value with
  | case1 s => simp [h.ofWord?_eq_some_iff, IsWord, ofText]
  | case2 s => simp [h.ofWord?_eq_some_iff, IsWord, ofText]
  | case3 _ htext hobject =>
    simp only [IsWord, ofText, reduceCtorEq, false_iff, not_or]
    exact ⟨htext _, hobject _⟩

/-! ## Records -/

/-- The record gives a field a document of the given kind. -/
def HasField (names : List String) (j : Json) (name : String) (is : Json → Prop) : Prop :=
  ∃ value, j.Gives names name value ∧ is value

/-- The record gives a field the value or null, or it is an object without the field. -/
def HasOptional (names : List String) (j : Json) (name : String) (is : α → Json → Prop)
    (a : Option α) : Prop :=
  j.HasField names name (IsNullable is a) ∨
    (∃ fields, j = .object fields) ∧ (∀ value, ¬ j.Gives names name value) ∧ a = none

theorem positional_of_record? {r : Record} (h : record? names j = some r) :
    r.positional = false ↔ ∃ fields, j = .object fields := by
  cases j with
  | object fields =>
    simp only [record?, Option.bind_eq_bind, Option.bind_eq_some_iff] at h
    obtain ⟨values, -, h⟩ := h
    split at h
    · cases h
      simp
    · cases h
  | array items =>
    simp only [record?] at h
    split at h
    · cases h
      simp
    · cases h
  | _ => cases h

/-- What was read from the document is a record that holds what the document gives. -/
structure Record.From (r : Record) (names : List String) (j : Json) : Prop where
  holds : r.Of names j
  positional : r.positional = false ↔ ∃ fields, j = .object fields

namespace Record.From

variable {r : Record} {read : Json → Option α} {is : α → Json → Prop}

theorem required_iff (h : r.From names j) (hread : Accepts read is) {a : α} :
    r.required name read = some a ↔ j.HasField names name (is a) := by
  simp only [required, Option.bind_eq_some_iff, h.holds name, hread _ a, HasField]

theorem optional_iff (h : r.From names j) (hread : Accepts read is) (hnull : ∀ a, ¬ is a .null)
    {a : Option α} : r.optional name read = some a ↔ j.HasOptional names name is a := by
  cases hget : r.get? name with
  | some value =>
    have hsole : ∀ value', j.Gives names name value' ↔ value = value' := fun value' => by
      rw [← h.holds, hget, Option.some.injEq]
    simp [optional, hget, HasOptional, HasField, hsole, accepts_nullable hread hnull value]
  | none =>
    have habsent : ∀ value, ¬ j.Gives names name value := fun value hgives => by
      cases hget.symm.trans ((h.holds name value).mpr hgives)
    simp only [optional, hget, HasOptional, HasField, habsent, false_and, exists_false, false_or,
      not_false_eq_true, implies_true, true_and, ← h.positional]
    cases r.positional <;> simp [eq_comm]

end Record.From

/-- A record is read if its fields are. -/
theorem record_eq_some_iff {read : Record → Option α} {P : Prop} {a : α} (hnames : names.Nodup)
    (h : ∀ r : Record, r.From names j → (read r = some a ↔ P)) :
    ((record? names j).bind read) = some a ↔ j.IsRecord names ∧ P := by
  rw [Option.bind_eq_some_iff]
  constructor
  · rintro ⟨r, hr, hread⟩
    obtain ⟨hrecord, hof⟩ := of_record? hnames hr
    exact ⟨hrecord, (h r ⟨hof, positional_of_record? hr⟩).mp hread⟩
  · rintro ⟨hrecord, hP⟩
    obtain ⟨r, hr, hof⟩ := hrecord.exists_record hnames
    exact ⟨r, hr, (h r ⟨hof, positional_of_record? hr⟩).mpr hP⟩

/-- What is written as a record is one. -/
theorem isRecord_record {fields : List (String × Json)} (hnames : fields.map Prod.fst = names)
    (hnodup : names.Nodup) : (record fields).IsRecord names := by
  refine .object (fun field hfield => ?_) fun name _ => ?_
  · obtain ⟨_, -, rfl⟩ := List.mem_map.mp hfield
    rfl
  · have hkeys := hnodup.map fun _ _ => Option.some.inj
    rw [← hnames, List.map_map] at hkeys
    rw [List.map_map]
    exact List.nodup_iff_count_le_one.mp hkeys _

/-- What is written in a field is there. -/
theorem hasField_record {fields : List (String × Json)} {value : Json} {is : Json → Prop}
    (hname : name ∈ names) (hmem : (name, value) ∈ fields) (h : is value) :
    (record fields).HasField names name is :=
  ⟨value, .member hname (List.mem_map.mpr ⟨_, hmem, rfl⟩), h⟩

end Json

/-! ## Types of the model -/

open Json

/-- The integers of the action have 64 bits. -/
def BuildAction.InRange (a : BuildAction) : Prop := fits64 a.id = true

/-- The document is the action. -/
def BuildAction.DenotedBy (a : BuildAction) (j : Json) : Prop :=
  let names := ["id", "action_type", "state", "label", "project"]
  j.IsRecord names ∧ j.HasField names "id" (IsInt a.id) ∧
    j.HasField names "action_type" (IsWord a.kind) ∧ j.HasField names "state" (IsWord a.state) ∧
    j.HasField names "label" (IsText a.label) ∧ j.HasField names "project" (IsText a.project)

/-- The integers of the file have 64 bits. -/
def File.InRange (f : File) : Prop := fits64 f.id = true

/-- The document is the file. -/
def File.DenotedBy (f : File) (j : Json) : Prop :=
  let names := ["id", "path", "language"]
  j.IsRecord names ∧ j.HasField names "id" (IsInt f.id) ∧
    j.HasField names "path" (IsText f.path) ∧ j.HasOptional names "language" IsText f.language

/-- The integers of the files have 64 bits. -/
def FilePair.InRange (p : FilePair) : Prop :=
  (∀ file ∈ p.source, file.InRange) ∧ ∀ file ∈ p.target, file.InRange

/-- The document is the pair. -/
def FilePair.DenotedBy (p : FilePair) (j : Json) : Prop :=
  let names := ["source", "target"]
  j.IsRecord names ∧ j.HasOptional names "source" File.DenotedBy p.source ∧
    j.HasOptional names "target" File.DenotedBy p.target

/-- The integers of the symbol have 64 bits. -/
def Symbol.InRange (s : Symbol) : Prop := fits64 s.hash = true ∧ fits64 s.file = true

/-- The document is the symbol. -/
def Symbol.DenotedBy (s : Symbol) (j : Json) : Prop :=
  let names := ["mangled_hash", "name", "kind", "role", "file_id"]
  j.IsRecord names ∧ j.HasField names "mangled_hash" (IsInt s.hash) ∧
    j.HasField names "name" (IsText s.name) ∧ j.HasField names "kind" (IsWord s.kind) ∧
    j.HasField names "role" (IsWord s.role) ∧ j.HasField names "file_id" (IsInt s.file)

/-- The integers of the counter have 64 bits. -/
def Statistic.InRange (s : Statistic) : Prop := fits64 s.value = true

/-- The document is the counter. -/
def Statistic.DenotedBy (s : Statistic) (j : Json) : Prop :=
  let names := ["category", "key", "value"]
  j.IsRecord names ∧ j.HasField names "category" (IsText s.category) ∧
    j.HasField names "key" (IsText s.key) ∧ j.HasField names "value" (IsInt s.value)

namespace Documented

variable {α : Type} [Documented α] {InRange : α → Prop} {is : α → Json → Prop}

/-- How the documents of a type are read and written: the reader accepts those that are a value,
which is then in range, and what is written of a value in range is that value. -/
structure Coded (α : Type) [Documented α] (InRange : α → Prop) (is : α → Json → Prop) : Prop where
  accepts : Accepts (ofJson? : Json → Option α) is
  inRange : ∀ a j, is a j → InRange a
  writes : ∀ a : α, InRange a → is a (toJson a)
  writable : ∀ a : α, (toJson a).Writable

/-- Printing and parsing fit together: every value in range is printed as a text that parses as the
value; the texts that parse are those that spell a document of a value; and what parses is in range,
so that printing it and parsing again gives the same value and the same text. -/
structure RoundTrips (α : Type) [Documented α] (InRange : α → Prop) (is : α → Json → Prop) :
    Prop where
  printed : ∀ a : α, InRange a → parse? (print a) = some a
  parsed : ∀ (s : String) (a : α), parse? s = some a ↔ ∃ j, IsDocument s j ∧ is a j
  again : ∀ (s : String) (a : α), parse? s = some a →
    InRange a ∧ parse? (print a) = some a ∧
      (parse? (print a) : Option α).map print = some (print a)

theorem Coded.roundTrips (h : Coded α InRange is) : RoundTrips α InRange is := by
  have hprinted : ∀ a : α, InRange a → parse? (print a) = some a := by
    intro a ha
    rw [parse?, print, read?_compact (h.writable a), Option.bind_some, h.accepts]
    exact h.writes a ha
  have hparsed : ∀ (s : String) (a : α), parse? s = some a ↔ ∃ j, IsDocument s j ∧ is a j := by
    intro s a
    simp only [parse?, Option.bind_eq_some_iff, read?_eq_some_iff, h.accepts _ a]
  refine ⟨hprinted, hparsed, fun s a hparse => ?_⟩
  obtain ⟨j, -, hj⟩ := (hparsed s a).mp hparse
  have ha := h.inRange a j hj
  exact ⟨ha, hprinted a ha, by rw [hprinted a ha, Option.map_some]⟩

/-! ### Words -/

theorem coded_word {α : Type} [Worded α] (h : Worded.Lawful α) :
    @Coded α ⟨wordToJson, wordOfJson?⟩ (fun _ => True) IsWord :=
  @Coded.mk α ⟨wordToJson, wordOfJson?⟩ _ _ (accepts_word h) (fun _ _ _ => trivial)
    (fun _ _ => .inl rfl) fun a => writable_ofText (Worded.word a)

theorem lawful_actionKind : Worded.Lawful ActionKind where
  complete a := by cases a <;> decide
  injective a b := by cases a <;> cases b <;> decide

theorem lawful_actionState : Worded.Lawful ActionState where
  complete a := by cases a <;> decide
  injective a b := by cases a <;> cases b <;> decide

theorem lawful_outcome : Worded.Lawful Outcome where
  complete a := by cases a <;> decide
  injective a b := by cases a <;> cases b <;> decide

theorem lawful_symbolKind : Worded.Lawful SymbolKind where
  complete a := by cases a <;> decide
  injective a b := by cases a <;> cases b <;> decide

theorem lawful_symbolRole : Worded.Lawful SymbolRole where
  complete a := by cases a <;> decide
  injective a b := by cases a <;> cases b <;> decide

/-! ### Records -/

theorem coded_buildAction : Coded BuildAction BuildAction.InRange BuildAction.DenotedBy where
  accepts j a := by
    refine record_eq_some_iff (by decide) fun r hr => ?_
    simp only [Option.bind_eq_bind, Option.bind_eq_some_iff, hr.required_iff accepts_int,
      hr.required_iff accepts_text, hr.required_iff (accepts_word lawful_actionKind),
      hr.required_iff (accepts_word lawful_actionState), ofJson?]
    constructor
    · rintro ⟨_, hid, _, hkind, _, hstate, _, hlabel, _, hproject, heq⟩
      cases heq
      exact ⟨hid, hkind, hstate, hlabel, hproject⟩
    · rintro ⟨hid, hkind, hstate, hlabel, hproject⟩
      exact ⟨_, hid, _, hkind, _, hstate, _, hlabel, _, hproject, rfl⟩
  inRange a j h := by
    obtain ⟨-, ⟨_, -, hid⟩, -⟩ := h
    exact hid.1
  writes a h := by
    refine ⟨isRecord_record rfl (by decide), hasField_record ?_ ?_ (isInt_ofInt h),
      hasField_record ?_ ?_ (.inl rfl), hasField_record ?_ ?_ (.inl rfl),
      hasField_record ?_ ?_ rfl, hasField_record ?_ ?_ rfl⟩ <;> simp [toJson, wordToJson]
  writable a := by
    refine writable_record ?_
    simp [toJson, wordToJson, writable_ofInt, writable_ofText]

theorem isNullable_ofText? (s : Option String) : IsNullable IsText s (ofText? s) := by
  cases s with
  | none => exact .inl ⟨rfl, rfl⟩
  | some s => exact .inr ⟨s, rfl, rfl⟩

theorem coded_file : Coded File File.InRange File.DenotedBy where
  accepts j f := by
    refine record_eq_some_iff (by decide) fun r hr => ?_
    simp only [Option.bind_eq_bind, Option.bind_eq_some_iff, hr.required_iff accepts_int,
      hr.required_iff accepts_text, hr.optional_iff accepts_text not_isText_null]
    constructor
    · rintro ⟨_, hid, _, hpath, _, hlanguage, heq⟩
      cases heq
      exact ⟨hid, hpath, hlanguage⟩
    · rintro ⟨hid, hpath, hlanguage⟩
      exact ⟨_, hid, _, hpath, _, hlanguage, rfl⟩
  inRange f j h := by
    obtain ⟨-, ⟨_, -, hid⟩, -⟩ := h
    exact hid.1
  writes f h := by
    refine ⟨isRecord_record rfl (by decide), hasField_record ?_ ?_ (isInt_ofInt h),
      hasField_record ?_ ?_ rfl, .inl (hasField_record ?_ ?_ (isNullable_ofText? f.language))⟩ <;>
      simp
  writable f := by
    refine writable_record ?_
    cases f.language <;> simp [ofText?, writable_ofInt, writable_ofText, Writable.null]

theorem not_denotedBy_null (f : File) : ¬ f.DenotedBy .null := by
  rintro ⟨hrecord, -⟩
  cases hrecord

theorem isNullable_toJson? {file : Option File} (h : ∀ f ∈ file, f.InRange) :
    IsNullable File.DenotedBy file (toJson? file) := by
  cases file with
  | none => exact .inl ⟨rfl, rfl⟩
  | some f => exact .inr ⟨f, rfl, coded_file.writes f (h f rfl)⟩

theorem inRange_of_hasOptional {names : List String} {j : Json} {name : String}
    {file : Option File} (h : j.HasOptional names name File.DenotedBy file) :
    ∀ f ∈ file, f.InRange := by
  rintro f rfl
  rcases h with ⟨value, -, ⟨-, hnone⟩ | ⟨_, heq, hf⟩⟩ | ⟨-, -, hnone⟩
  · cases hnone
  · cases heq
    exact coded_file.inRange f value hf
  · cases hnone

theorem writable_toJson? (file : Option File) : (toJson? file).Writable := by
  cases file with
  | none => exact .null
  | some f => exact coded_file.writable f

theorem coded_filePair : Coded FilePair FilePair.InRange FilePair.DenotedBy where
  accepts j p := by
    refine record_eq_some_iff (by decide) fun r hr => ?_
    simp only [Option.bind_eq_bind, Option.bind_eq_some_iff,
      hr.optional_iff coded_file.accepts not_denotedBy_null]
    constructor
    · rintro ⟨_, hsource, _, htarget, heq⟩
      cases heq
      exact ⟨hsource, htarget⟩
    · rintro ⟨hsource, htarget⟩
      exact ⟨_, hsource, _, htarget, rfl⟩
  inRange p j h := ⟨inRange_of_hasOptional h.2.1, inRange_of_hasOptional h.2.2⟩
  writes p h := by
    refine ⟨isRecord_record rfl (by decide),
      .inl (hasField_record ?_ ?_ (isNullable_toJson? h.1)),
      .inl (hasField_record ?_ ?_ (isNullable_toJson? h.2))⟩ <;> simp
  writable p := by
    refine writable_record ?_
    simp [writable_toJson?]

theorem coded_symbol : Coded Symbol Symbol.InRange Symbol.DenotedBy where
  accepts j s := by
    refine record_eq_some_iff (by decide) fun r hr => ?_
    simp only [Option.bind_eq_bind, Option.bind_eq_some_iff, hr.required_iff accepts_int,
      hr.required_iff accepts_text, hr.required_iff (accepts_word lawful_symbolKind),
      hr.required_iff (accepts_word lawful_symbolRole), ofJson?]
    constructor
    · rintro ⟨_, hhash, _, hname, _, hkind, _, hrole, _, hfile, heq⟩
      cases heq
      exact ⟨hhash, hname, hkind, hrole, hfile⟩
    · rintro ⟨hhash, hname, hkind, hrole, hfile⟩
      exact ⟨_, hhash, _, hname, _, hkind, _, hrole, _, hfile, rfl⟩
  inRange s j h := by
    obtain ⟨-, ⟨_, -, hhash⟩, -, -, -, ⟨_, -, hfile⟩⟩ := h
    exact ⟨hhash.1, hfile.1⟩
  writes s h := by
    refine ⟨isRecord_record rfl (by decide), hasField_record ?_ ?_ (isInt_ofInt h.1),
      hasField_record ?_ ?_ rfl, hasField_record ?_ ?_ (.inl rfl),
      hasField_record ?_ ?_ (.inl rfl), hasField_record ?_ ?_ (isInt_ofInt h.2)⟩ <;>
      simp [toJson, wordToJson]
  writable s := by
    refine writable_record ?_
    simp [toJson, wordToJson, writable_ofInt, writable_ofText]

theorem coded_statistic : Coded Statistic Statistic.InRange Statistic.DenotedBy where
  accepts j s := by
    refine record_eq_some_iff (by decide) fun r hr => ?_
    simp only [Option.bind_eq_bind, Option.bind_eq_some_iff, hr.required_iff accepts_int,
      hr.required_iff accepts_text]
    constructor
    · rintro ⟨_, hcategory, _, hkey, _, hvalue, heq⟩
      cases heq
      exact ⟨hcategory, hkey, hvalue⟩
    · rintro ⟨hcategory, hkey, hvalue⟩
      exact ⟨_, hcategory, _, hkey, _, hvalue, rfl⟩
  inRange s j h := by
    obtain ⟨-, -, -, ⟨_, -, hvalue⟩⟩ := h
    exact hvalue.1
  writes s h := by
    refine ⟨isRecord_record rfl (by decide), hasField_record ?_ ?_ rfl,
      hasField_record ?_ ?_ rfl, hasField_record ?_ ?_ (isInt_ofInt h)⟩ <;> simp
  writable s := by
    refine writable_record ?_
    simp [writable_ofInt, writable_ofText]

/-- Every type of the model goes through JSON and back. A value whose integers have 64 bits is
printed as a text that parses as the value. A text parses if it spells a document of a value, with
the fields in any order or without their names, other fields beside them, and missing or null where
a value may be absent; then printing and parsing once more gives the same value and the same
text. -/
theorem models_round_trip :
    RoundTrips ActionKind (fun _ => True) IsWord ∧
    RoundTrips ActionState (fun _ => True) IsWord ∧
    RoundTrips Outcome (fun _ => True) IsWord ∧
    RoundTrips SymbolKind (fun _ => True) IsWord ∧
    RoundTrips SymbolRole (fun _ => True) IsWord ∧
    RoundTrips BuildAction BuildAction.InRange BuildAction.DenotedBy ∧
    RoundTrips File File.InRange File.DenotedBy ∧
    RoundTrips FilePair FilePair.InRange FilePair.DenotedBy ∧
    RoundTrips Symbol Symbol.InRange Symbol.DenotedBy ∧
    RoundTrips Statistic Statistic.InRange Statistic.DenotedBy :=
  ⟨(coded_word lawful_actionKind).roundTrips, (coded_word lawful_actionState).roundTrips,
    (coded_word lawful_outcome).roundTrips, (coded_word lawful_symbolKind).roundTrips,
    (coded_word lawful_symbolRole).roundTrips, coded_buildAction.roundTrips,
    coded_file.roundTrips, coded_filePair.roundTrips, coded_symbol.roundTrips,
    coded_statistic.roundTrips⟩

/-- The fields are out of order, one of them is unknown, and the language is missing. -/
example : (parse? "\x7b\"path\": \"\\u0061\\t\", \"size\": [1e400], \"id\" : -7\x7d" : Option File) =
    some ⟨-7, "a\t", none⟩ := by
  decide +kernel

end Documented

end SymbolAtlas
