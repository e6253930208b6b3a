import SymbolAtlas.Json.Record
import SymbolAtlas.Json.Writer
import Mathlib.Data.List.Nodup

/-!
# What records say about their fields

Whether a document is a record with given field names, and which value it gives to each of them, is
stated on the document itself: an object gives what its members say, an array what stands at the
place of the name. Reading a record finds exactly these values, so what is read from a field is
known from the document alone.

* `IsRecord`, `Gives`, `GivesOr`: records and the values of their fields.
* `Inverts`: reading undoes writing, and reads nothing else.
* `Record.Of`, `IsRecord.exists_record`, `of_record?`: what is read holds what the document gives.
* `Record.Of.required_eq_some_iff`, `Record.Of.defaulted_eq_some_iff`: one field of each kind.
-/

namespace SymbolAtlas.Json

variable {names : List String} {name : String} {value : Json}

/-! ## Records -/

/-- The document is a record: an object that gives no known field twice, or an array that is not
too long. -/
inductive IsRecord (names : List String) : Json → Prop where
  | object {fields : List (Option String × Json)} (hkeys : ∀ field ∈ fields, field.1.isSome = true)
      (honce : ∀ name ∈ names, (fields.map Prod.fst).count (some name) ≤ 1) :
      IsRecord names (.object fields)
  | array {items : List Json} (h : items.length ≤ names.length) : IsRecord names (.array items)

/-- The record gives a value to a known field. -/
inductive Gives (names : List String) : Json → String → Json → Prop where
  | member {fields : List (Option String × Json)} {name : String} {value : Json}
      (hname : name ∈ names) (h : (some name, value) ∈ fields) :
      Gives names (.object fields) name value
  | place {items : List Json} {name : String} {value : Json} {i : Nat}
      (hname : names[i]? = some name) (h : items[i]? = some value) :
      Gives names (.array items) name value

/-- The record gives a field the document of `a`, or gives it no value and `a` is the fallback. -/
def GivesOr {α : Type} (names : List String) (j : Json) (name : String) (write : α → Json)
    (fallback a : α) : Prop :=
  Gives names j name (write a) ∨ (∀ value, ¬ Gives names j name value) ∧ a = fallback

/-- The members of an object that are known, without the others. -/
def known (names : List String) (fields : List (Option String × Json)) : List (String × Json) :=
  fields.filterMap fun field => (field.1.filter (· ∈ names)).map fun key => (key, field.2)

theorem mem_known {fields : List (Option String × Json)} :
    (name, value) ∈ known names fields ↔ name ∈ names ∧ (some name, value) ∈ fields := by
  simp only [known, List.mem_filterMap, Option.map_eq_some_iff, Option.filter_eq_some_iff,
    decide_eq_true_eq, Prod.mk.injEq]
  constructor
  · rintro ⟨⟨key, value'⟩, hmem, key', ⟨hkey, hname⟩, rfl, rfl⟩
    cases hkey
    exact ⟨hname, hmem⟩
  · rintro ⟨hname, hmem⟩
    exact ⟨_, hmem, name, ⟨rfl, hname⟩, rfl, rfl⟩

theorem known_none (value : Json) (fields : List (Option String × Json)) :
    known names ((none, value) :: fields) = known names fields := rfl

theorem known_some (key : String) (value : Json) (fields : List (Option String × Json)) :
    known names ((some key, value) :: fields) =
      if key ∈ names then (key, value) :: known names fields else known names fields := by
  by_cases hkey : key ∈ names <;> simp [known, Option.filter, hkey]

theorem count_known (fields : List (Option String × Json)) (name : String) :
    ((known names fields).map Prod.fst).count name =
      if name ∈ names then (fields.map Prod.fst).count (some name) else 0 := by
  induction fields with
  | nil => simp [known]
  | cons field fields ih =>
    obtain ⟨key | key, value⟩ := field
    · simpa [known_none] using ih
    · by_cases hkey : key = name
      · subst hkey
        by_cases hname : key ∈ names <;> simp_all [known_some]
      · rw [known_some]
        split <;> simp [hkey, ih]

theorem knownFields_eq_some_iff {fields : List (Option String × Json)}
    {values : List (String × Json)} : knownFields names fields = some values ↔
      (∀ field ∈ fields, field.1.isSome = true) ∧ known names fields = values := by
  induction fields generalizing values with
  | nil => simp [knownFields, known]
  | cons field fields ih =>
    obtain ⟨key | key, value⟩ := field
    · simp [knownFields]
    · simp only [knownFields, Option.bind_eq_bind, Option.bind_eq_some_iff, ih, known_some,
        List.contains_iff_mem, List.forall_mem_cons]
      constructor
      · rintro ⟨_, ⟨hkeys, rfl⟩, heq⟩
        cases heq
        exact ⟨⟨rfl, hkeys⟩, rfl⟩
      · rintro ⟨⟨-, hkeys⟩, rfl⟩
        exact ⟨_, ⟨hkeys, rfl⟩, rfl⟩

theorem allDistinct_iff {keys : List String} : allDistinct keys = true ↔ keys.Nodup := by
  induction keys with
  | nil => simp [allDistinct]
  | cons key keys ih => simp [allDistinct, ih]

theorem lookup_eq_some_iff {values : List (String × Json)} (h : (values.map Prod.fst).Nodup) :
    values.lookup name = some value ↔ (name, value) ∈ values := by
  induction values with
  | nil => simp
  | cons pair values ih =>
    obtain ⟨key, value'⟩ := pair
    rw [List.map_cons, List.nodup_cons] at h
    by_cases hkey : name = key
    · subst hkey
      have hnot : (name, value) ∉ values := fun hmem =>
        h.1 (List.mem_map.mpr ⟨_, hmem, rfl⟩)
      simp [hnot, eq_comm]
    · have hne : (name == key) = false := by simpa using hkey
      simp [List.lookup_cons, hne, ih h.2, hkey]

theorem nodup_known_iff {fields : List (Option String × Json)} :
    ((known names fields).map Prod.fst).Nodup ↔
      ∀ name ∈ names, (fields.map Prod.fst).count (some name) ≤ 1 := by
  rw [List.nodup_iff_count_le_one]
  refine forall_congr' fun name => ?_
  rw [count_known]
  by_cases hname : name ∈ names <;> simp [hname]

/-- The record holds what a document gives to its fields. -/
def Record.Of (r : Record) (names : List String) (j : Json) : Prop :=
  ∀ name value, r.get? name = some value ↔ j.Gives names name value

/-- A record is read, and what is read holds what the document gives. -/
theorem IsRecord.exists_record {j : Json} (h : IsRecord names j) (hnames : names.Nodup) :
    ∃ r, record? names j = some r ∧ r.Of names j := by
  cases h with
  | @object fields hkeys honce =>
    have hknown : knownFields names fields = some (known names fields) :=
      knownFields_eq_some_iff.mpr ⟨hkeys, rfl⟩
    have hnodup := nodup_known_iff.mpr honce
    refine ⟨⟨false, known names fields⟩, ?_, fun name value => ?_⟩
    · simp [record?, hknown, allDistinct_iff.mpr hnodup]
    · rw [Record.get?, lookup_eq_some_iff hnodup, mem_known]
      exact ⟨fun h => .member h.1 h.2, fun | .member hname h => ⟨hname, h⟩⟩
  | @array items hlength =>
    have hnodup : ((names.zip items).map Prod.fst).Nodup := by
      rw [List.zip_eq_zip_take_min, List.map_fst_zip (by simp)]
      exact hnames.sublist (List.take_sublist _ _)
    refine ⟨⟨true, names.zip items⟩, if_pos hlength, fun name value => ?_⟩
    rw [Record.get?, lookup_eq_some_iff hnodup, List.mem_iff_getElem?]
    simp only [List.getElem?_zip_eq_some]
    exact ⟨fun ⟨_, hname, h⟩ => .place hname h, fun | .place hname h => ⟨_, hname, h⟩⟩

theorem isRecord_of_record? {j : Json} {r : Record} (h : record? names j = some r) :
    IsRecord names j := by
  cases j with
  | object fields =>
    simp only [record?, Option.bind_eq_bind, Option.bind_eq_some_iff] at h
    obtain ⟨values, hvalues, h⟩ := h
    obtain ⟨hkeys, rfl⟩ := knownFields_eq_some_iff.mp hvalues
    split at h
    · rename_i hdistinct
      exact .object hkeys (nodup_known_iff.mp (allDistinct_iff.mp hdistinct))
    · cases h
  | array items =>
    simp only [record?] at h
    split at h
    · exact .array ‹_›
    · cases h
  | _ => cases h

/-- What is read as a record is one, and holds what the document gives. -/
theorem of_record? {j : Json} {r : Record} (hnames : names.Nodup) (h : record? names j = some r) :
    IsRecord names j ∧ r.Of names j := by
  have hrecord := isRecord_of_record? h
  obtain ⟨r', hr', hof⟩ := hrecord.exists_record hnames
  cases h.symm.trans hr'
  exact ⟨hrecord, hof⟩

/-! ## Fields -/

/-- Reading undoes writing, and reads nothing that is not written so. -/
def Inverts {α : Type} (read : Json → Option α) (write : α → Json) : Prop :=
  ∀ value a, read value = some a ↔ value = write a

theorem inverts_text : Inverts text? ofText := by
  intro value s
  cases value <;> simp [text?, ofText]

theorem Inverts.mapM_eq_some_iff {α : Type} {read : Json → Option α} {write : α → Json}
    (h : Inverts read write) {items : List Json} {as : List α} :
    items.mapM read = some as ↔ items = as.map write := by
  induction items generalizing as with
  | nil => cases as <;> simp
  | cons item items ih =>
    simp only [List.mapM_cons, Option.bind_eq_bind, Option.bind_eq_some_iff, h item, ih]
    constructor
    · rintro ⟨a, rfl, as', rfl, heq⟩
      cases heq
      rfl
    · intro heq
      obtain ⟨a, as', rfl, rfl, rfl⟩ := List.map_eq_cons_iff.mp heq.symm
      exact ⟨a, rfl, as', rfl, rfl⟩

theorem inverts_texts : Inverts texts? ofTexts := by
  intro value texts
  cases value with
  | array items => simpa [texts?, ofTexts] using inverts_text.mapM_eq_some_iff
  | _ => simp [texts?, ofTexts]

theorem Inverts.nullable {α : Type} {read : Json → Option α} {write : α → Json}
    (h : Inverts read write) (hnull : ∀ a, write a ≠ .null) :
    Inverts (Record.nullable read) (ofOption write) := by
  intro value a
  fun_cases Record.nullable read value with
  | case1 => cases a <;> simp [ofOption, (hnull _).symm]
  | case2 _ hnot =>
    have hvalue : value ≠ .null := hnot
    cases a <;> simp [ofOption, h value, hvalue]

namespace Record

variable {α : Type} {r : Record} {j : Json} {read : Json → Option α} {write : α → Json}

theorem Of.required_eq_some_iff (h : r.Of names j) (hread : Inverts read write) {a : α} :
    r.required name read = some a ↔ j.Gives names name (write a) := by
  simp only [required, Option.bind_eq_some_iff, hread _ a, h name]
  exact ⟨fun ⟨_, hgives, heq⟩ => heq ▸ hgives, fun hgives => ⟨_, hgives, rfl⟩⟩

theorem Of.defaulted_eq_some_iff (h : r.Of names j) (hread : Inverts read write)
    {fallback a : α} :
    r.defaulted name fallback read = some a ↔ j.GivesOr names name write fallback a := by
  cases hget : r.get? name with
  | some value =>
    have hsole : ∀ value', j.Gives names name value' ↔ value = value' := fun value' => by
      rw [← h, hget, Option.some.injEq]
    simp [defaulted, hget, GivesOr, hread value, hsole]
  | none =>
    have habsent : ∀ value, ¬ j.Gives names name value := fun value hgives => by
      cases hget.symm.trans ((h name value).mpr hgives)
    simp [defaulted, hget, GivesOr, habsent, eq_comm]

end Record

end SymbolAtlas.Json
