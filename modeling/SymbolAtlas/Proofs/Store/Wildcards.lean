import Mathlib.Data.List.Infix
import SymbolAtlas.Proofs.Store.Statistics

/-!
# Wildcards in the names of categories

The name of a category that is cleared is read as a pattern, so more may be cleared than the
category and those below it.

- **Fits** (`Text.Fits`): what a pattern stands for, by what each of its characters stands for.
  Matching decides it (`matchesPattern_iff`), and a pattern with a `%` at its end fits what starts
  with a text that the rest of it fits.
- **Clearing** (`Store.Cleared`): a category is cleared if it is the given one, or lies below a name
  that the given one fits.
- **When nothing else is cleared** (`clearStatistics_exact_iff`): in every table just if the name
  has no wildcard, and in one table just if no other category there fits.
-/

namespace SymbolAtlas

/-! ## Fits -/

namespace Text

/-- The pattern fits the text: `%` stands for any characters, `_` for any one, and every character
for itself. -/
inductive Fits : (pattern text : List Char) → Prop where
  | nil : Fits [] []
  | any {pattern text : List Char} (part : List Char) (h : Fits pattern text) :
      Fits ('%' :: pattern) (part ++ text)
  | one {pattern text : List Char} (c : Char) (h : Fits pattern text) :
      Fits ('_' :: pattern) (c :: text)
  | self {pattern text : List Char} (c : Char) (h : Fits pattern text) :
      Fits (c :: pattern) (c :: text)

theorem mem_suffixes {ending text : List Char} : ending ∈ suffixes text ↔ ending <:+ text := by
  induction text with
  | nil => simp [suffixes]
  | cons c rest ih => rw [suffixes, List.mem_cons, ih, List.suffix_cons_iff]

theorem matchesPattern_percent (pattern text : List Char) :
    matchesPattern ('%' :: pattern) text = (suffixes text).any (matchesPattern pattern) := by
  cases text <;> simp [matchesPattern]

theorem Fits.matchesPattern {pattern text : List Char} (h : Fits pattern text) :
    matchesPattern pattern text = true := by
  induction h with
  | nil => rfl
  | @any pattern text part _ ih =>
    rw [matchesPattern_percent, List.any_eq_true]
    exact ⟨text, mem_suffixes.mpr (List.suffix_append part text), ih⟩
  | one c _ ih => simpa [Text.matchesPattern] using ih
  | @self pattern text c _ ih =>
    by_cases hc : c = '%'
    · rw [hc, matchesPattern_percent, List.any_eq_true]
      exact ⟨text, mem_suffixes.mpr (List.suffix_cons _ text), ih⟩
    · simpa [Text.matchesPattern, hc] using ih

theorem fits_of_matchesPattern {pattern text : List Char}
    (h : matchesPattern pattern text = true) : Fits pattern text := by
  induction pattern generalizing text with
  | nil =>
    obtain rfl : text = [] := by simpa [matchesPattern] using h
    exact .nil
  | cons p pattern ih =>
    by_cases hp : p = '%'
    · subst hp
      rw [matchesPattern_percent, List.any_eq_true] at h
      obtain ⟨ending, hending, hmatch⟩ := h
      obtain ⟨part, rfl⟩ := mem_suffixes.mp hending
      exact .any part (ih hmatch)
    · cases text with
      | nil => simp [matchesPattern, hp] at h
      | cons c rest =>
        simp only [matchesPattern, hp, if_false, Bool.and_eq_true, Bool.or_eq_true,
          decide_eq_true_eq] at h
        obtain ⟨rfl | rfl, hrest⟩ := h
        · exact .one c (ih hrest)
        · exact .self p (ih hrest)

/-- Matching decides what a pattern fits. -/
theorem matchesPattern_iff {pattern text : List Char} :
    matchesPattern pattern text = true ↔ Fits pattern text :=
  ⟨fits_of_matchesPattern, Fits.matchesPattern⟩

theorem fits_refl (text : List Char) : Fits text text := by
  induction text with
  | nil => exact .nil
  | cons c rest ih => exact .self c ih

theorem fits_append_iff {pattern pattern' text : List Char} :
    Fits (pattern ++ pattern') text ↔
      ∃ start rest, Fits pattern start ∧ Fits pattern' rest ∧ text = start ++ rest := by
  constructor
  · intro h
    induction pattern generalizing text with
    | nil => exact ⟨[], text, .nil, h, rfl⟩
    | cons p pattern ih =>
      cases h with
      | any part h =>
        obtain ⟨start, rest, hstart, hrest, rfl⟩ := ih h
        exact ⟨part ++ start, rest, .any part hstart, hrest, by rw [List.append_assoc]⟩
      | one c h =>
        obtain ⟨start, rest, hstart, hrest, rfl⟩ := ih h
        exact ⟨c :: start, rest, .one c hstart, hrest, rfl⟩
      | self c h =>
        obtain ⟨start, rest, hstart, hrest, rfl⟩ := ih h
        exact ⟨p :: start, rest, .self p hstart, hrest, rfl⟩
  · rintro ⟨start, rest, hstart, hrest, rfl⟩
    induction hstart with
    | nil => exact hrest
    | any part _ ih =>
      rw [List.cons_append, List.append_assoc]
      exact .any part ih
    | one c _ ih => exact .one c ih
    | self c _ ih => exact .self c ih

theorem fits_dot_percent_iff {text : List Char} :
    Fits ".%".toList text ↔ ∃ below, text = '.' :: below := by
  constructor
  · intro h
    cases h with
    | self _ h =>
      exact ⟨_, rfl⟩
  · rintro ⟨below, rfl⟩
    have hbelow : Fits ['%'] (below ++ []) := .any below .nil
    rw [List.append_nil] at hbelow
    exact .self '.' hbelow

/-- A text with a wildcard fits a text of which it is no start. -/
theorem exists_fits_of_not_literal {text : String} (h : ¬ Literal text) :
    ∃ other, Fits text.toList other ∧ ∀ rest, ¬ text.toList <+: other ++ rest := by
  obtain ⟨wildcard, hmem, hwildcard⟩ :
      ∃ c ∈ text.toList, c = '%' ∨ c = '_' := by
    rw [Literal, not_and_or, not_not, not_not] at h
    rcases h with h | h
    · exact ⟨'%', h, .inl rfl⟩
    · exact ⟨'_', h, .inr rfl⟩
  obtain ⟨before, after, htext⟩ := List.append_of_mem hmem
  refine ⟨before ++ 'a' :: after, ?_, fun rest hprefix => ?_⟩
  · rw [htext, fits_append_iff]
    refine ⟨before, 'a' :: after, fits_refl before, ?_, rfl⟩
    rcases hwildcard with rfl | rfl
    · exact .any ['a'] (fits_refl after)
    · exact .one 'a' (fits_refl after)
  · rw [htext, List.append_assoc, List.prefix_append_right_inj, List.cons_append,
      List.cons_prefix_cons] at hprefix
    rcases hwildcard with rfl | rfl
    · exact absurd hprefix.1 (by decide)
    · exact absurd hprefix.1 (by decide)

end Text

/-! ## Clearing -/

namespace Store

/-- The category is the given one, or lies below a name that the given one fits. -/
def Cleared (category other : String) : Prop :=
  other = category ∨
    ∃ stem below, Text.Fits category.toList stem ∧ other.toList = stem ++ '.' :: below

theorem clearsWith_iff_cleared {category other : String} :
    clearsWith category other = true ↔ Cleared category other := by
  rw [clearsWith, Bool.or_eq_true, decide_eq_true_eq, Text.like, Text.matchesPattern_iff,
    String.toList_append, Text.fits_append_iff, Cleared]
  refine or_congr_right ?_
  constructor
  · rintro ⟨stem, rest, hstem, hrest, heq⟩
    obtain ⟨below, rfl⟩ := Text.fits_dot_percent_iff.mp hrest
    exact ⟨stem, below, hstem, heq⟩
  · rintro ⟨stem, below, hstem, heq⟩
    exact ⟨stem, _, hstem, Text.fits_dot_percent_iff.mpr ⟨below, rfl⟩, heq⟩

instance (category other : String) : Decidable (Cleared category other) :=
  decidable_of_iff _ clearsWith_iff_cleared

/-- The category and all below it are cleared, whatever its name. -/
theorem Within.cleared {category other : String} (h : Within category other) :
    Cleared category other := by
  rcases h with h | ⟨below, h⟩
  · exact .inl h
  · refine .inr ⟨category.toList, below, Text.fits_refl _, ?_⟩
    rw [← h, String.toList_append, List.append_assoc]
    rfl

theorem clearStatistics_eq (category : String) (store : Store) :
    store.clearStatistics category =
      { store with
        statistics := store.statistics.filter (¬ Cleared category ·.category) } := by
  rw [clearStatistics]
  congr 1
  refine List.filter_congr fun row _ => ?_
  rw [decide_not, Bool.not_inj_iff, Bool.eq_iff_iff, clearsWith_iff_cleared, decide_eq_true_eq]

/-- In one table, nothing but the category and those below it is cleared just if no other category
of the table is. -/
theorem clearStatistics_eq_iff (category : String) (store : Store) :
    store.clearStatistics category =
        { store with statistics := store.statistics.filter (¬ Within category ·.category) } ↔
      ∀ row ∈ store.statistics, Cleared category row.category → Within category row.category := by
  rw [clearStatistics_eq]
  constructor
  · intro heq row hrow hcleared
    by_contra hout
    have hrows := congrArg statistics heq
    dsimp only at hrows
    have hkept : row ∈ store.statistics.filter (¬ Within category ·.category) :=
      List.mem_filter.mpr ⟨hrow, by simpa using hout⟩
    rw [← hrows] at hkept
    exact absurd hcleared (by simpa using List.of_mem_filter hkept)
  · intro h
    congr 1
    refine List.filter_congr fun row hrow => ?_
    have hsame : Cleared category row.category ↔ Within category row.category :=
      ⟨h row hrow, Within.cleared⟩
    rw [decide_eq_decide, hsame]

/-- A category with a wildcard in its name clears one that is not below it. -/
theorem exists_cleared_of_not_literal {category : String} (h : ¬ Text.Literal category) :
    ∃ other, Cleared category other ∧ ¬ Within category other := by
  obtain ⟨stem, hfits, hstart⟩ := Text.exists_fits_of_not_literal h
  refine ⟨String.ofList (stem ++ ['.']), .inr ⟨stem, [], hfits, by simp⟩, fun hwithin => ?_⟩
  exact hstart ['.'] (by simpa using hwithin.isPrefix)

/-! ## When nothing else is cleared -/

/-- What clearing a category does, for every name and every table: it drops the counters of the
categories that the name, read as a pattern, stands for, and leaves everything else as it is. The
category itself and those below it are always among them. Nothing else is dropped from a table just
if no other category there is meant, and from any table just if the name has no wildcard. -/
theorem clearStatistics_exact_iff (category : String) :
    (∀ store : Store, store.clearStatistics category =
      { store with statistics := store.statistics.filter (¬ Cleared category ·.category) }) ∧
    (∀ other, Within category other → Cleared category other) ∧
    (∀ store : Store, store.clearStatistics category =
        { store with statistics := store.statistics.filter (¬ Within category ·.category) } ↔
      ∀ row ∈ store.statistics, Cleared category row.category → Within category row.category) ∧
    ((∀ store : Store, store.clearStatistics category =
        { store with statistics := store.statistics.filter (¬ Within category ·.category) }) ↔
      Text.Literal category) := by
  refine ⟨clearStatistics_eq category, fun _ => Within.cleared, clearStatistics_eq_iff category,
    fun hexact => ?_, fun hliteral store => ?_⟩
  · by_contra hwildcard
    obtain ⟨other, hcleared, hout⟩ := exists_cleared_of_not_literal hwildcard
    -- a table whose only row is the one that is cleared too much
    have hrows := (clearStatistics_eq_iff category { statistics := [⟨other, "", 0⟩] }).mp (hexact _)
    exact hout (hrows _ (.head _) hcleared)
  · refine (clearStatistics_eq_iff category store).mpr fun row _ hcleared => ?_
    exact (clearsWith_iff hliteral _).mp (clearsWith_iff_cleared.mpr hcleared)

/-- The underscore of `unit_test` stands for the hyphen of `unit-test` too, so the counters below
the second category go with those of the first. -/
theorem clearStatistics_drops_other :
    (clearStatistics "unit_test" { statistics :=
      [⟨"unit_test.cpp", "files", 1⟩, ⟨"unit-test.cpp", "files", 2⟩,
        ⟨"unit-test", "files", 3⟩] }).statistics = [⟨"unit-test", "files", 3⟩] ∧
    ¬ Within "unit_test" "unit-test.cpp" := by
  decide

end Store

end SymbolAtlas
