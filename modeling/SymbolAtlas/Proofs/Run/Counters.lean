import Mathlib.Algebra.BigOperators.Ring.Finset
import SymbolAtlas.Proofs.Dispatch.Tally
import SymbolAtlas.Proofs.Run.Stages
import SymbolAtlas.Proofs.Store.Statistics

/-!
# The counters of the last run

A run counts results and actions with both successes and failures, as they come. At its end the
rows of these counts take the place of those of earlier runs.

- **Events** (`Tally.Event`, `Tally.ofEvents`): what is counted, in the order in which it comes. The
  order does not matter (`ofEvents_perm`). Each outcome has its total and a map of languages, kept
  side by side: what they hold after any events is told by the languages of the results with that
  outcome (`OutcomeCount.Holds`, `holds_ofEvents`).
- **Rows** (`Tally.Reports`): the rows of a tally, and that languages add up to totals.
- **Tables** (`Store.Recounted`): the rows in the category of parses are those of the run, and so
  are those of clusters if there are any; all others stay.
-/

namespace SymbolAtlas

/-! ## Events -/

/-- The count of an outcome holds the languages of the results that were counted: their number, how
often each known one came, and both agree up to the results without a language. -/
structure OutcomeCount.Holds (count : OutcomeCount) (seen : List (Option String)) : Prop where
  total : count.total = seen.length
  languages : Ascending.Counts count.languages fun language => seen.count (some language)
  sum : (count.languages.map Prod.snd).sum + seen.count none = seen.length

theorem OutcomeCount.Holds.add {count : OutcomeCount} {seen : List (Option String)}
    (h : count.Holds seen) (language : Option String) :
    (count.add language).Holds (seen ++ [language]) := by
  have hsum := h.sum
  cases language with
  | none =>
    refine ⟨?_, ?_, ?_⟩
    · simp [OutcomeCount.add, h.total]
    · simpa [OutcomeCount.add] using h.languages
    · simp only [OutcomeCount.add, List.count_append, List.count_singleton_self,
        List.length_append, List.length_singleton]
      omega
  | some language =>
    have hcounts := h.languages.adjust language
    refine ⟨?_, ⟨hcounts.ascending, fun other n => ?_⟩, ?_⟩
    · simp [OutcomeCount.add, h.total]
    · simp only [OutcomeCount.add]
      rw [hcounts.mem_iff, List.count_append]
      by_cases hother : other = language
      · simp [hother]
      · simp [hother, Ne.symm hother]
    · simp only [OutcomeCount.add, Ascending.sum_adjust, List.count_append, List.length_append,
        List.length_singleton]
      simp
      omega

namespace Tally

/-- What is counted: a result, or an action with both successes and failures. -/
inductive Event where
  | result (language : Option String) (outcome : Outcome)
  | mixed
  deriving DecidableEq

/-- Count an event. -/
def tell (tally : Tally) : Event → Tally
  | .result language outcome => tally.record language outcome
  | .mixed => tally.recordPartial

/-- The counts of a run in which the events came in this order. -/
def ofEvents (events : List Event) : Tally := events.foldl tell {}

/-- The languages of the results with an outcome. -/
def languagesOf (outcome : Outcome) (events : List Event) : List (Option String) :=
  events.filterMap fun
    | .result language found => if found = outcome then some language else none
    | .mixed => none

theorem tell_comm (tally : Tally) (first second : Event) :
    (tally.tell first).tell second = (tally.tell second).tell first := by
  cases first with
  | result language outcome =>
    cases second with
    | result language' outcome' =>
      exact record_comm tally (language, outcome) (language', outcome')
    | mixed => cases outcome <;> rfl
  | mixed =>
    cases second with
    | result language outcome => cases outcome <;> rfl
    | mixed => rfl

/-- The order of the events does not matter. -/
theorem ofEvents_perm {events events' : List Event} (h : events'.Perm events) :
    ofEvents events' = ofEvents events :=
  h.foldl_eq' (fun first _ second _ tally => tell_comm tally first second) {}

theorem ofEvents_concat (events : List Event) (event : Event) :
    ofEvents (events ++ [event]) = (ofEvents events).tell event := by
  simp [ofEvents]

@[simp] theorem languagesOf_concat_mixed (outcome : Outcome) (events : List Event) :
    languagesOf outcome (events ++ [.mixed]) = languagesOf outcome events := by
  simp [languagesOf]

@[simp] theorem languagesOf_concat_result (outcome : Outcome) (events : List Event)
    (language : Option String) (found : Outcome) :
    languagesOf outcome (events ++ [.result language found]) =
      if found = outcome then languagesOf outcome events ++ [language]
      else languagesOf outcome events := by
  by_cases h : found = outcome <;> simp [languagesOf, h]

theorem count_record (tally : Tally) (language : Option String) (outcome other : Outcome) :
    (tally.record language outcome).count other =
      if outcome = other then (tally.count other).add language else tally.count other := by
  cases outcome <;> cases other <;> rfl

/-- What the count of an outcome holds after any events. -/
theorem holds_ofEvents (outcome : Outcome) (events : List Event) :
    ((ofEvents events).count outcome).Holds (languagesOf outcome events) := by
  induction events using List.reverseRecOn with
  | nil => cases outcome <;> exact ⟨rfl, Ascending.counts_nil, rfl⟩
  | append_singleton events event ih =>
    rw [ofEvents_concat]
    cases event with
    | mixed =>
      rw [languagesOf_concat_mixed]
      cases outcome <;> exact ih
    | result language found =>
      rw [tell, count_record, languagesOf_concat_result]
      split
      · exact ih.add language
      · exact ih

theorem partials_ofEvents (events : List Event) :
    (ofEvents events).partials = events.count .mixed := by
  induction events using List.reverseRecOn with
  | nil => rfl
  | append_singleton events event ih =>
    rw [ofEvents_concat, List.count_append, ← ih]
    cases event with
    | mixed => rfl
    | result language outcome => cases outcome <;> rfl

/-! ## Rows -/

/-- The key of the total of an outcome. -/
def totalKey : Outcome → String
  | .success => "succeeded"
  | .deferred => "deferred"
  | .fail => "failed"

/-- The category of the languages of an outcome. -/
def languageCategory (outcome : Outcome) : String := "parse." ++ Worded.word outcome

theorem languageCategory_inj {outcome outcome' : Outcome}
    (h : languageCategory outcome = languageCategory outcome') : outcome = outcome' := by
  revert h
  cases outcome <;> cases outcome' <;> decide

theorem languageCategory_ne (outcome : Outcome) : languageCategory outcome ≠ "parse" := by
  cases outcome <;> decide

/-- The rows of the totals. -/
def totalRows (tally : Tally) : List Statistic :=
  [⟨"parse", "succeeded", tally.succeeded.total⟩,
   ⟨"parse", "failed", tally.failed.total⟩,
   ⟨"parse", "deferred", tally.deferred.total⟩,
   ⟨"parse", "partial", tally.partials⟩]

variable {tally : Tally} {events : List Event}

theorem rows_eq (tally : Tally) :
    tally.rows = tally.totalRows ++ (Worded.all : List Outcome).flatMap tally.languageRows := rfl

theorem mem_totalRows {row : Statistic} : row ∈ tally.totalRows ↔
    (∃ outcome, row = ⟨"parse", totalKey outcome, (tally.count outcome).total⟩) ∨
      row = ⟨"parse", "partial", tally.partials⟩ := by
  constructor
  · intro h
    simp only [totalRows, List.mem_cons, List.not_mem_nil, or_false] at h
    rcases h with rfl | rfl | rfl | rfl
    · exact .inl ⟨.success, rfl⟩
    · exact .inl ⟨.fail, rfl⟩
    · exact .inl ⟨.deferred, rfl⟩
    · exact .inr rfl
  · rintro (⟨outcome, rfl⟩ | rfl)
    · cases outcome <;> simp [totalRows, totalKey, count]
    · simp [totalRows]

theorem category_of_mem_totalRows {row : Statistic} (h : row ∈ tally.totalRows) :
    row.category = "parse" := by
  rcases mem_totalRows.mp h with ⟨_, rfl⟩ | rfl
  · rfl
  · rfl

theorem category_of_mem_languageRows {outcome : Outcome} {row : Statistic}
    (h : row ∈ tally.languageRows outcome) : row.category = languageCategory outcome := by
  obtain ⟨entry, -, rfl⟩ := List.mem_map.mp h
  rfl

theorem mem_rows {row : Statistic} : row ∈ tally.rows ↔
    row ∈ tally.totalRows ∨ ∃ outcome, row ∈ tally.languageRows outcome := by
  rw [rows_eq, List.mem_append, List.mem_flatMap]
  refine or_congr_right ⟨fun ⟨outcome, _, h⟩ => ⟨outcome, h⟩, fun ⟨outcome, h⟩ => ⟨outcome, ?_, h⟩⟩
  cases outcome <;> decide

theorem within_of_mem_rows {row : Statistic} (h : row ∈ tally.rows) :
    Store.Within "parse" row.category := by
  rcases mem_rows.mp h with h | ⟨outcome, h⟩
  · exact .inl (category_of_mem_totalRows h)
  · refine .inr ?_
    rw [category_of_mem_languageRows h, languageCategory]
    exact ⟨(Worded.word outcome).toList, (String.toList_append).symm⟩

/-- The rows of the languages of an outcome are all that is in their category. -/
theorem filter_rows (tally : Tally) (outcome : Outcome) :
    tally.rows.filter (·.category = languageCategory outcome) = tally.languageRows outcome := by
  have htotals : tally.totalRows.filter (·.category = languageCategory outcome) = [] := by
    refine List.filter_eq_nil_iff.mpr fun row hrow => ?_
    rw [category_of_mem_totalRows hrow, decide_eq_true_eq]
    exact (languageCategory_ne outcome).symm
  have hrows : ∀ other, (tally.languageRows other).filter (·.category = languageCategory outcome) =
      if other = outcome then tally.languageRows outcome else [] := by
    intro other
    split
    · rename_i hother
      subst hother
      exact List.filter_eq_self.mpr fun row hrow => by
        simpa using category_of_mem_languageRows hrow
    · rename_i hother
      refine List.filter_eq_nil_iff.mpr fun row hrow => ?_
      rw [category_of_mem_languageRows hrow, decide_eq_true_eq]
      exact fun heq => hother (languageCategory_inj heq)
  rw [rows_eq, List.filter_append, htotals, List.nil_append, List.filter_flatMap]
  simp only [hrows]
  cases outcome <;> simp [Worded.all]

/-- No two rows have the same category and key, as long as the languages are in order. -/
theorem nodup_keys_rows
    (h : ∀ outcome, Ascending.KeysAscending (tally.count outcome).languages) :
    (tally.rows.map fun row => (row.category, row.key)).Nodup := by
  have hcategory : ∀ {outcome : Outcome} {key : String × String},
      key ∈ (tally.languageRows outcome).map (fun row => (row.category, row.key)) →
        key.1 = languageCategory outcome := by
    intro outcome key hkey
    obtain ⟨row, hrow, rfl⟩ := List.mem_map.mp hkey
    exact category_of_mem_languageRows hrow
  rw [rows_eq, List.map_append, List.map_flatMap, List.nodup_append]
  refine ⟨by simp [totalRows], List.nodup_flatMap.mpr ⟨fun outcome _ => ?_, ?_⟩, ?_⟩
  · rw [languageRows, List.map_map]
    refine List.pairwise_map.mpr ((h outcome).imp fun {a b} hlt heq => ?_)
    exact hlt.ne (Prod.mk.inj heq).2
  · have hdistinct : (Worded.all : List Outcome).Nodup := by decide
    refine hdistinct.imp fun {outcome outcome'} hne key hkey hkey' => ?_
    exact hne (languageCategory_inj ((hcategory hkey).symm.trans (hcategory hkey')))
  · rintro total htotal key hkey rfl
    obtain ⟨row, hrow, rfl⟩ := List.mem_map.mp htotal
    obtain ⟨outcome, -, hkey⟩ := List.mem_flatMap.mp hkey
    exact languageCategory_ne outcome
      ((hcategory hkey).symm.trans (category_of_mem_totalRows hrow))

/-- The rows report the events: for every outcome the number of its results, the number of mixed
actions, and for every language with results of an outcome their number. The numbers of the
languages and of the results without one add up to the total. -/
structure Reports (rows : List Statistic) (events : List Event) : Prop where
  distinct : (rows.map fun row => (row.category, row.key)).Nodup
  mem_iff : ∀ row, row ∈ rows ↔
    (∃ outcome, row = ⟨"parse", totalKey outcome, (languagesOf outcome events).length⟩) ∨
    row = ⟨"parse", "partial", events.count .mixed⟩ ∨
    ∃ outcome language, some language ∈ languagesOf outcome events ∧
      row = ⟨languageCategory outcome, language, (languagesOf outcome events).count (some language)⟩
  adds_up : ∀ outcome,
    ((rows.filter (·.category = languageCategory outcome)).map Statistic.value).sum +
      (languagesOf outcome events).count none = (languagesOf outcome events).length

theorem mem_languageRows {outcome : Outcome} {row : Statistic} :
    row ∈ (ofEvents events).languageRows outcome ↔
      ∃ language, some language ∈ languagesOf outcome events ∧
        row = ⟨languageCategory outcome, language,
          (languagesOf outcome events).count (some language)⟩ := by
  have hcounts := (holds_ofEvents outcome events).languages
  rw [languageRows, List.mem_map]
  constructor
  · rintro ⟨⟨language, n⟩, hmem, rfl⟩
    obtain ⟨hpos, rfl⟩ := (hcounts.mem_iff language n).mp hmem
    exact ⟨language, List.count_pos_iff.mp hpos, rfl⟩
  · rintro ⟨language, hmem, rfl⟩
    exact ⟨(language, _), (hcounts.mem_iff language _).mpr ⟨List.count_pos_iff.mpr hmem, rfl⟩, rfl⟩

theorem reports_ofEvents (events : List Event) : Reports (ofEvents events).rows events where
  distinct := nodup_keys_rows fun outcome => (holds_ofEvents outcome events).languages.ascending
  mem_iff row := by
    simp only [mem_rows, mem_totalRows, (holds_ofEvents _ events).total, partials_ofEvents,
      mem_languageRows, or_assoc]
  adds_up outcome := by
    have hsum := (holds_ofEvents outcome events).sum
    have hvalues : ((ofEvents events).languageRows outcome).map Statistic.value =
        (((ofEvents events).count outcome).languages.map Prod.snd).map Nat.cast := by
      simp [languageRows, Function.comp_def]
    rw [filter_rows, hvalues, ← Nat.cast_list_sum, ← hsum, Nat.cast_add]

end Tally

/-! ## Tables -/

theorem Cluster.Summary.within_of_mem_rows {summary : Cluster.Summary} {row : Statistic}
    (h : row ∈ summary.rows) : Store.Within "cluster" row.category := by
  simp only [rows, List.mem_cons, List.not_mem_nil, or_false] at h
  rcases h with rfl | rfl | rfl | rfl | rfl | rfl <;> exact .inl rfl

theorem Cluster.Summary.nodup_keys_rows (summary : Cluster.Summary) :
    (summary.rows.map fun row => (row.category, row.key)).Nodup := by
  simp [rows]

namespace Store

/-- No category is below that of parses and that of clusters. -/
theorem not_within_both {category : String} (h : Within "parse" category) :
    ¬ Within "cluster" category := by
  intro h'
  obtain ⟨rest, hparse⟩ := h.isPrefix
  obtain ⟨rest', hcluster⟩ := h'.isPrefix
  exact absurd (hparse.trans hcluster.symm) (by simp)

/-- The rows of parses are the given ones, and so are those of clusters if any are given; nothing
else has changed, up to the note of the time. -/
structure Recounted (parses : List Statistic) (clusters : Option (List Statistic)) (time : String)
    (before after : Store) : Prop where
  parses : after.statistics.filter (Within "parse" ·.category) = parses
  clusters : after.statistics.filter (Within "cluster" ·.category) =
    clusters.getD (before.statistics.filter (Within "cluster" ·.category))
  others : after.statistics.filter
      (fun row => ¬ Within "parse" row.category ∧ ¬ Within "cluster" row.category) =
    before.statistics.filter
      fun row => ¬ Within "parse" row.category ∧ ¬ Within "cluster" row.category
  rest : after =
    { before.setNote "last_run" (some time) with statistics := after.statistics }

section

variable {rows : List Statistic}

/-- Rows of one category are not touched when another one that has nothing to do with it is
replaced. -/
theorem filter_replaced_of_disjoint (category : String) {p : Statistic → Prop} [DecidablePred p]
    (hrows : ∀ row ∈ rows, ¬ p row) (hdisjoint : ∀ row, p row → ¬ Within category row.category)
    (old : List Statistic) :
    (old.filter (¬ Within category ·.category) ++ rows).filter (p ·) = old.filter (p ·) := by
  have hgone : rows.filter (p ·) = [] :=
    List.filter_eq_nil_iff.mpr fun row hrow => by simpa using hrows row hrow
  rw [List.filter_append, hgone, List.append_nil, List.filter_filter]
  refine List.filter_congr fun row _ => ?_
  by_cases h : p row
  · simp [h, hdisjoint row h]
  · simp [h]

end

end Store

/-- Recording the counters of a run. -/
theorem recounted_recordCounters {tally : Tally}
    (hdistinct : (tally.rows.map fun row => (row.category, row.key)).Nodup)
    (cluster : Option Cluster.Summary) (time : String) (store : Store) :
    Store.Recounted tally.rows (cluster.map Cluster.Summary.rows) time store
      ((recordCounters tally cluster store).setNote "last_run" (some time)) := by
  have hrows : ∀ row ∈ tally.rows, Store.Within "parse" row.category :=
    fun row hrow => Tally.within_of_mem_rows hrow
  have hparse := Store.statistics_replaced (by decide) hrows hdistinct store
  obtain ⟨hinside, -⟩ := Store.filter_within_replaced hrows store.statistics
  -- what is replaced first is apart from clusters and from all that is neither
  have hclusters := Store.filter_replaced_of_disjoint "parse"
    (p := fun row => Store.Within "cluster" row.category)
    (fun row hrow => Store.not_within_both (hrows row hrow))
    (fun row h h' => Store.not_within_both h' h) store.statistics
  have hothers := Store.filter_replaced_of_disjoint "parse"
    (p := fun row => ¬ Store.Within "parse" row.category ∧ ¬ Store.Within "cluster" row.category)
    (fun row hrow h => h.1 (hrows row hrow)) (fun row h => h.1) store.statistics
  cases cluster with
  | none =>
    simp only [recordCounters, hparse]
    exact ⟨hinside, hclusters, hothers, rfl⟩
  | some summary =>
    have hsummary : ∀ row ∈ summary.rows, Store.Within "cluster" row.category :=
      fun row hrow => Cluster.Summary.within_of_mem_rows hrow
    have hcluster := Store.statistics_replaced (by decide) hsummary summary.nodup_keys_rows
    simp only [recordCounters, hparse, hcluster]
    refine ⟨?_, (Store.filter_within_replaced hsummary _).1, ?_, rfl⟩
    · refine (Store.filter_replaced_of_disjoint "cluster" ?_ ?_ _).trans hinside
      · exact fun row hrow h => Store.not_within_both h (hsummary row hrow)
      · exact fun row h => Store.not_within_both h
    · refine (Store.filter_replaced_of_disjoint "cluster" ?_ ?_ _).trans hothers
      · exact fun row hrow h => h.2 (hsummary row hrow)
      · exact fun row h => h.2

/-- The counters in the tables are those of the last run. Whatever was counted, in whatever order,
the rows of the counts report it. And whatever the tables held before, a database that takes
statements lets the run record its counters: they are the rows of parses then, those of its summary
are the rows of clusters if it computed any, and all other rows are as before. -/
theorem last_run_counters (events : List Tally.Event) :
    Tally.Reports (Tally.ofEvents events).rows events ∧
    (∀ events' : List Tally.Event, events'.Perm events →
      (Tally.ofEvents events').rows = (Tally.ofEvents events).rows) ∧
    ∀ (time : String) (cluster : Option Cluster.Summary) (state : RunState),
      state.bench.database.refuses = false → state.bench.tally = Tally.ofEvents events →
      ∃ after, (persistStatistics time cluster).run.run state = (.ok (), after) ∧
        Store.Recounted (Tally.ofEvents events).rows (cluster.map Cluster.Summary.rows) time
          state.bench.database.store after.bench.database.store := by
  have hreports := Tally.reports_ofEvents events
  refine ⟨hreports, fun events' hperm => by rw [Tally.ofEvents_perm hperm],
    fun time cluster state hdb htally => ?_⟩
  have hrun : (persistStatistics time cluster).run.run state =
      (Stage.onDatabase (Tx.transaction (Tx.write fun store =>
        (recordCounters state.bench.tally cluster store).setNote "last_run" (some time)))).run.run
        state := rfl
  obtain ⟨database, hwritten, hready⟩ := (Tx.Yields.write (fun store =>
    (recordCounters state.bench.tally cluster store).setNote "last_run" (some time))
    state.bench.database.store).transaction.run hdb
  refine ⟨_, by rw [hrun, Stage.run_onDatabase, hwritten]; rfl, ?_⟩
  show Store.Recounted _ _ time _ database.store
  rw [hready.store, htally]
  exact recounted_recordCounters hreports.distinct cluster time _

/-- Results of two languages and one without, and an action that is counted as partial. -/
def sampleEvents : List Tally.Event :=
  [.result (some "cpp") .success, .mixed, .result (some "c") .fail, .result none .success,
    .result (some "cpp") .success]

/-- Tables with counters of an earlier run, and of categories with similar names. -/
def sampleCounters : Store where
  statistics := [⟨"parse.deferred", "go", 3⟩, ⟨"parser", "headers", 2⟩, ⟨"parse", "retried", 1⟩,
    ⟨"cluster.old", "x", 4⟩, ⟨"clusters", "y", 5⟩]

theorem last_run_counters_sample :
    let state : RunState :=
      { bench := { database := .ofStore sampleCounters, tally := .ofEvents sampleEvents } }
    state.bench.database.refuses = false ∧ state.bench.tally = Tally.ofEvents sampleEvents ∧
    ∃ after, (persistStatistics "now" (some ⟨1, 1, 0, 0, 1, 0⟩)).run.run state = (.ok (), after) ∧
      after.bench.database.store.statistics.filter (Store.Within "parse" ·.category) =
        [⟨"parse", "succeeded", 3⟩, ⟨"parse", "failed", 1⟩, ⟨"parse", "deferred", 0⟩,
          ⟨"parse", "partial", 1⟩, ⟨"parse.success", "cpp", 2⟩, ⟨"parse.fail", "c", 1⟩] ∧
      after.bench.database.store.statistics.filter
          (fun row => ¬ Store.Within "parse" row.category ∧
            ¬ Store.Within "cluster" row.category) =
        [⟨"parser", "headers", 2⟩, ⟨"clusters", "y", 5⟩] := by
  obtain ⟨-, -, hrun⟩ := last_run_counters sampleEvents
  obtain ⟨after, hafter, hrecounted⟩ := hrun "now" (some ⟨1, 1, 0, 0, 1, 0⟩)
    { bench := { database := .ofStore sampleCounters, tally := .ofEvents sampleEvents } }
    rfl rfl
  refine ⟨rfl, rfl, after, hafter, ?_, ?_⟩
  · rw [hrecounted.parses]
    decide
  · rw [hrecounted.others]
    decide

end SymbolAtlas
