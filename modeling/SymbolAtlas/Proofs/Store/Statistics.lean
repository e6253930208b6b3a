import Mathlib.Data.List.Nodup
import SymbolAtlas.Store.Statistics

/-!
# Counters that take the place of earlier ones

A run clears a category of counters with all below it and writes its own rows.

- **Patterns** (`Text.Literal`): a pattern without wildcards and with `%` at its end is matched by
  what starts with it (`like_append_percent_iff`).
- **Categories** (`Store.Within`): a category is cleared together with those below it
  (`clearsWith_iff`), as long as its own name has no wildcard.
- **Rows** (`statistics_replaced`, `filter_within_replaced`): rows with different keys that are
  written into a category that has been cleared are all that is in it, and nothing else has changed.
-/

namespace SymbolAtlas

/-! ## Patterns -/

namespace Text

/-- No character of the text is a wildcard. -/
def Literal (text : String) : Prop := '%' ∉ text.toList ∧ '_' ∉ text.toList

instance (text : String) : Decidable (Literal text) := inferInstanceAs (Decidable (_ ∧ _))

theorem nil_mem_suffixes (text : List Char) : [] ∈ suffixes text := by
  induction text with
  | nil => exact .head _
  | cons c rest ih => exact .tail _ ih

theorem matchesPattern_append_percent {pattern : List Char} (hpercent : '%' ∉ pattern)
    (hunderscore : '_' ∉ pattern) (text : List Char) :
    matchesPattern (pattern ++ ['%']) text = true ↔ pattern <+: text := by
  induction pattern generalizing text with
  | nil =>
    have hany : (suffixes text).any (matchesPattern []) = true :=
      List.any_eq_true.mpr ⟨[], nil_mem_suffixes text, rfl⟩
    simpa [matchesPattern] using hany
  | cons p pattern ih =>
    simp only [List.mem_cons, not_or] at hpercent hunderscore
    obtain ⟨hp, hpercent⟩ := hpercent
    obtain ⟨hp', hunderscore⟩ := hunderscore
    cases text with
    | nil => simp [matchesPattern, Ne.symm hp]
    | cons c rest =>
      simp [matchesPattern, Ne.symm hp, Ne.symm hp', ih hpercent hunderscore rest,
        List.cons_prefix_cons]

/-- What matches a text without wildcards and a `%` behind it starts with that text. -/
theorem like_append_percent_iff {start : String} (h : Literal start) (text : String) :
    like text (start ++ "%") = true ↔ start.toList <+: text.toList := by
  rw [like, String.toList_append]
  exact matchesPattern_append_percent h.1 h.2 text.toList

end Text

namespace Store

/-! ## Categories -/

/-- The category itself, or one below it. -/
def Within (category other : String) : Prop :=
  other = category ∨ (category ++ ".").toList <+: other.toList

instance (category other : String) : Decidable (Within category other) :=
  inferInstanceAs (Decidable (_ ∨ _))

theorem Within.isPrefix {category other : String} (h : Within category other) :
    category.toList <+: other.toList := by
  rcases h with rfl | h
  · exact List.prefix_rfl
  · rw [String.toList_append] at h
    exact (List.prefix_append _ _).trans h

theorem clearsWith_iff {category : String} (h : Text.Literal category) (other : String) :
    clearsWith category other = true ↔ Within category other := by
  have hdot : Text.Literal (category ++ ".") := by
    simpa [Text.Literal] using h
  have happend : category ++ ".%" = category ++ "." ++ "%" := by
    rw [String.append_assoc]
    rfl
  rw [clearsWith, happend, Bool.or_eq_true, decide_eq_true_eq, Text.like_append_percent_iff hdot,
    Within]

/-! ## Rows -/

/-- Rows whose keys are new are added behind the others. -/
theorem putStatistics_of_new {rows : List Statistic} {store : Store}
    (hnodup : (rows.map fun row => (row.category, row.key)).Nodup)
    (hnew : ∀ old ∈ store.statistics,
      (old.category, old.key) ∉ rows.map fun row => (row.category, row.key)) :
    store.putStatistics rows = { store with statistics := store.statistics ++ rows } := by
  induction rows generalizing store with
  | nil => simp [putStatistics]
  | cons row rest ih =>
    obtain ⟨hrow, hrest⟩ := List.nodup_cons.mp hnodup
    have hkept : store.statistics.filter
        (fun old => !(old.category = row.category && old.key = row.key)) = store.statistics := by
      refine List.filter_eq_self.mpr fun old hold => ?_
      have hne : (old.category, old.key) ≠ (row.category, row.key) :=
        fun heq => hnew old hold (heq ▸ .head _)
      simpa [← not_and_or] using hne
    have hput : store.putStatistic row =
        { store with statistics := store.statistics ++ [row] } := by
      rw [putStatistic, hkept]
    show (store.putStatistic row).putStatistics rest = _
    rw [hput, ih hrest]
    · simp
    · intro old hold hmem
      rcases List.mem_append.mp hold with hold | hold
      · exact hnew old hold (.tail _ hmem)
      · rw [List.mem_singleton.mp hold] at hmem
        exact hrow hmem

/-- Rows that are written into a category after it was cleared come behind those outside of it. -/
theorem statistics_replaced {category : String} (h : Text.Literal category)
    {rows : List Statistic} (hrows : ∀ row ∈ rows, Within category row.category)
    (hnodup : (rows.map fun row => (row.category, row.key)).Nodup) (store : Store) :
    (store.clearStatistics category).putStatistics rows =
      { store with
        statistics := store.statistics.filter (¬ Within category ·.category) ++ rows } := by
  have hcleared : store.clearStatistics category =
      { store with statistics := store.statistics.filter (¬ Within category ·.category) } := by
    rw [clearStatistics]
    congr 1
    refine List.filter_congr fun row _ => ?_
    rw [decide_not, Bool.not_inj_iff, Bool.eq_iff_iff, clearsWith_iff h, decide_eq_true_eq]
  rw [hcleared, putStatistics_of_new hnodup]
  intro old hold hmem
  obtain ⟨row, hrow, hkey⟩ := List.mem_map.mp hmem
  have hsame : row.category = old.category := (Prod.mk.inj hkey).1
  have hout : ¬ Within category old.category := by simpa using List.of_mem_filter hold
  exact hout (hsame ▸ hrows row hrow)

/-- What is within a category after its rows were replaced, and what is outside of it. -/
theorem filter_within_replaced {category : String} {rows : List Statistic}
    (hrows : ∀ row ∈ rows, Within category row.category) (old : List Statistic) :
    (old.filter (¬ Within category ·.category) ++ rows).filter (Within category ·.category) =
      rows ∧
    (old.filter (¬ Within category ·.category) ++ rows).filter (¬ Within category ·.category) =
      old.filter (¬ Within category ·.category) := by
  have hinside : rows.filter (Within category ·.category) = rows :=
    List.filter_eq_self.mpr fun row hrow => by simpa using hrows row hrow
  have houtside : rows.filter (¬ Within category ·.category) = [] :=
    List.filter_eq_nil_iff.mpr fun row hrow => by simpa using hrows row hrow
  have hgone : (old.filter (¬ Within category ·.category)).filter (Within category ·.category) =
      [] :=
    List.filter_eq_nil_iff.mpr fun row hrow => by simpa using List.of_mem_filter hrow
  constructor
  · rw [List.filter_append, hgone, hinside, List.nil_append]
  · rw [List.filter_append, houtside, List.append_nil, List.filter_filter]
    simp only [Bool.and_self]

end Store

end SymbolAtlas
